import RTPVoice.MyProtocol.Teardown.Chain

namespace RTPVoice.MyProtocol.Teardown

open Framework

/-- The socket that the thread has to hand on. -/
def Listener.handle : Listener → Option HSocket
  | .testing accepted | .creating accepted | .storing _ _ accepted | .created accepted =>
    accepted.map SocketParams.socketFd
  | .inserting _ p => some p.socketFd
  | .accepting | .exited => none

def Listener.object : Listener → Option Nat
  | .inserting o _ => some o
  | _ => none

def Recovery.deletes : Recovery → Option Nat
  | .deleting o => some o
  | _ => none

def Destructor.deletes : Destructor → Option Nat
  | .deleting o => some o
  | _ => none

namespace Threads

/-- The object that is closed and not erased yet. -/
def deleting (s : Threads) : Option Nat := s.recovery.deletes.or s.destructor.deletes

/-- The entries whose socket is open. -/
def live (s : Threads) : List (SocketParams × Nat) :=
  s.clientmap.filter fun e => some e.2 ≠ s.deleting

/-- The handles that some thread or entry has. -/
def inUse (s : Threads) : List HSocket :=
  s.listeners.filterMap Listener.handle ++ s.live.map fun e => e.1.socketFd

/-- Where the objects are: with a thread, in `clientmap`, or deleted. -/
def kept (s : Threads) : List Nat :=
  s.listeners.filterMap Listener.object ++ (s.clientmap.map Prod.snd ++ s.deleted)

end Threads

/-- Every object is in one place, and every handle in use is one's own. -/
structure Accounts (s : Threads) : Prop where
  objects : s.kept.Perm (List.range s.objects.length)
  entry : ∀ e ∈ s.clientmap, s.objects[e.2]? = some e.1
  inserting : ∀ o p, Listener.inserting o p ∈ s.listeners → s.objects[o]? = some p
  deleting : ∀ o, s.deleting = some o → o ∈ s.clientmap.map Prod.snd
  handles : s.inUse.Nodup
  opened : ∀ fd ∈ s.inUse, fd ∈ s.openFds
  exited_nodup : s.exited.Nodup
  exited_lt : ∀ e ∈ s.exited, e.1 < s.objects.length
  ended : ∀ o ∈ s.deleted, s.Ended o
  emptied : s.destructor = .done → s.clientmap = []

variable {s s' : Threads} {a : Action} {i o : Nat} {l l' : Listener} {p : SocketParams}
  {e : SocketParams × Nat}

theorem accounts_started : Accounts .started := by
  constructor <;> simp [Threads.started, Threads.kept, Threads.inUse, Threads.live,
    Threads.deleting, Recovery.deletes, Destructor.deletes, Listener.object, Listener.handle,
    List.filterMap_cons]

theorem live_eq (h : s.deleting = none) : s.live = s.clientmap := by
  simp [Threads.live, h]

theorem Accounts.entries_nodup (h : Accounts s) : (s.clientmap.map Prod.snd).Nodup := by
  have hkept := h.objects.nodup_iff.mpr List.nodup_range
  exact (List.nodup_append.mp (List.nodup_append.mp hkept).2.1).1

theorem Accounts.object_lt (h : Accounts s) (ho : o ∈ s.clientmap.map Prod.snd) :
    o < s.objects.length := by
  refine List.mem_range.mp (h.objects.mem_iff.mp ?_)
  exact List.mem_append_right _ (List.mem_append_left _ ho)

/-! ### Listening threads -/

/-- Where the thread goes, it has the same handle, or none. -/
theorem Accounts.goTo (h : Accounts s) (hhere : s.listeners[i]? = some l)
    (hhandle : l'.handle = l.handle ∨ l'.handle = none) (hobject : l'.object = l.object)
    (hnew : ∀ o p, l' ≠ .inserting o p) : Accounts (s.goTo i l') := by
  have hsub : (s.goTo i l').inUse.Sublist s.inUse := by
    refine List.Sublist.append ?_ (List.Sublist.refl _)
    rcases hhandle with hsame | hnone
    · exact (filterMap_replaced_same hhere hsame).symm ▸ List.Sublist.refl _
    · exact filterMap_replaced_none hnone
  refine { h with objects := ?_, inserting := ?_, handles := ?_, opened := ?_ }
  · rw [Threads.kept, Threads.goTo, filterMap_replaced_same hhere hobject]
    exact h.objects
  · intro o p hmem
    rcases List.mem_or_eq_of_mem_set hmem with hmem | he
    · exact h.inserting o p hmem
    · exact absurd he.symm (hnew o p)
  · exact hsub.nodup h.handles
  · exact fun fd hfd => h.opened fd (hsub.subset hfd)

/-- A socket is accepted. -/
theorem Accounts.accept (h : Accounts s) (hhere : s.listeners[i]? = some .accepting)
    (hfresh : p.socketFd ∉ s.openFds) :
    Accounts { s.goTo i (.testing (some p)) with openFds := s.openFds ++ [p.socketFd] } := by
  have hperm : (Threads.inUse { s.goTo i (.testing (some p)) with
      openFds := s.openFds ++ [p.socketFd] }).Perm (p.socketFd :: s.inUse) := by
    have hreplaced := filterMap_replaced (b := .testing (some p)) Listener.handle hhere
    exact hreplaced.append_right (s.live.map fun e => e.1.socketFd)
  refine { h with objects := ?_, inserting := ?_, handles := ?_, opened := ?_ }
  · have hsame := filterMap_replaced_same (b := .testing (some p)) (f := Listener.object) hhere rfl
    simp only [Threads.kept, Threads.goTo, hsame]
    exact h.objects
  · intro o q hmem
    rcases List.mem_or_eq_of_mem_set hmem with hmem | he
    · exact h.inserting o q hmem
    · cases he
  · refine hperm.nodup_iff.mpr (List.nodup_cons.mpr ⟨fun hmem => ?_, h.handles⟩)
    exact hfresh (h.opened _ hmem)
  · intro fd hfd
    rcases List.mem_cons.mp (hperm.mem_iff.mp hfd) with rfl | hfd
    · simp
    · exact List.mem_append_left _ (h.opened fd hfd)

/-- An object is made for the socket accepted. -/
theorem Accounts.construct (h : Accounts s)
    (hhere : s.listeners[i]? = some (.created (some p))) :
    Accounts { s.goTo i (.inserting s.objects.length p) with objects := s.objects ++ [p] } := by
  have hold {o : Nat} {q : SocketParams} (hq : s.objects[o]? = some q) :
      (s.objects ++ [p])[o]? = some q := getElem?_snoc.mpr (.inl hq)
  have hinUse : Threads.inUse { s.goTo i (.inserting s.objects.length p) with
      objects := s.objects ++ [p] } = s.inUse := by
    have hsame := filterMap_replaced_same (b := .inserting s.objects.length p)
      (f := Listener.handle) hhere rfl
    simp only [Threads.inUse, Threads.goTo, hsame]
    rfl
  refine { h with
    objects := ?_, entry := ?_, inserting := ?_, handles := ?_, opened := ?_, exited_lt := ?_ }
  · have hreplaced := filterMap_replaced (b := .inserting s.objects.length p) Listener.object hhere
    have hperm := hreplaced.append_right (s.clientmap.map Prod.snd ++ s.deleted)
    rw [List.length_append, List.length_singleton, List.range_succ]
    have hswap : ([s.objects.length] ++ s.kept).Perm (s.kept ++ [s.objects.length]) :=
      List.perm_append_comm
    exact hperm.trans (hswap.trans (h.objects.append_right _))
  · exact fun e he => hold (h.entry e he)
  · intro o q hmem
    rcases List.mem_or_eq_of_mem_set hmem with hmem | he
    · exact hold (h.inserting o q hmem)
    · cases he
      exact getElem?_snoc.mpr (.inr ⟨rfl, rfl⟩)
  · exact hinUse ▸ h.handles
  · exact hinUse ▸ h.opened
  · intro e he
    rw [List.length_append]
    exact Nat.lt_add_right _ (h.exited_lt e he)

/-- No entry is replaced by an insertion: its handle would be in use twice. -/
theorem Accounts.assign_eq (h : Accounts s) (hdeleting : s.deleting = none)
    (hhere : s.listeners[i]? = some (.inserting o p)) :
    Server.assign s.clientmap p o = s.clientmap ++ [(p, o)] := by
  refine if_neg fun hany => ?_
  obtain ⟨e, he, hequiv⟩ := List.any_eq_true.mp hany
  obtain rfl := SocketParams.equiv_iff.mp hequiv
  refine List.disjoint_of_nodup_append h.handles (a := e.1.socketFd) ?_ ?_
  · exact List.mem_filterMap.mpr ⟨_, List.mem_of_getElem? hhere, rfl⟩
  · rw [live_eq hdeleting]
    exact List.mem_map.mpr ⟨e, he, rfl⟩

/-- The object gets its entry. -/
theorem Accounts.insert (h : Accounts s) (hdeleting : s.deleting = none)
    (hhere : s.listeners[i]? = some (.inserting o p)) (hrunning : s.destructor ≠ .done) :
    Accounts { s.goTo i .exited with clientmap := Server.assign s.clientmap p o } := by
  have hobject := h.inserting o p (List.mem_of_getElem? hhere)
  rw [h.assign_eq hdeleting hhere]
  have hkept : (Threads.kept { s.goTo i .exited with
      clientmap := s.clientmap ++ [(p, o)] }).Perm s.kept := by
    have hreplaced := filterMap_replaced (b := .exited) Listener.object hhere
    simp only [Threads.kept, Threads.goTo, List.map_append, List.map_singleton]
    refine List.Perm.trans ?_ (hreplaced.append_right (s.clientmap.map Prod.snd ++ s.deleted))
    refine List.perm_iff_count.mpr fun x => ?_
    simp only [Listener.object, Option.toList_some, List.count_append]
    omega
  have hinUse : (Threads.inUse { s.goTo i .exited with
      clientmap := s.clientmap ++ [(p, o)] }).Perm s.inUse := by
    have hreplaced := filterMap_replaced (b := .exited) Listener.handle hhere
    have hnone : Threads.deleting { s.goTo i .exited with
        clientmap := s.clientmap ++ [(p, o)] } = none := hdeleting
    rw [Threads.inUse, live_eq hnone, Threads.inUse, live_eq hdeleting]
    simp only [Threads.goTo, List.map_append, List.map_singleton]
    refine List.Perm.trans ?_ (hreplaced.append_right (s.clientmap.map fun e => e.1.socketFd))
    refine List.perm_iff_count.mpr fun x => ?_
    simp only [Listener.handle, Option.toList_some, List.count_append]
    omega
  refine { h with
    objects := ?_, entry := ?_, inserting := ?_, deleting := ?_, handles := ?_, opened := ?_,
    emptied := fun hdone => absurd hdone hrunning }
  · exact hkept.trans h.objects
  · exact forall_mem_snoc.mpr ⟨h.entry, hobject⟩
  · intro o q hmem
    rcases List.mem_or_eq_of_mem_set hmem with hmem | he
    · exact h.inserting o q hmem
    · cases he
  · intro o ho
    have hnone : s.deleting = some o := ho
    rw [hdeleting] at hnone
    cases hnone
  · exact hinUse.nodup_iff.mpr h.handles
  · exact fun fd hfd => h.opened fd (hinUse.mem_iff.mp hfd)

/-- The last thread made makes the next one. -/
theorem Accounts.makeThread {index : Option Nat} {accepted : Option SocketParams} (h : Accounts s)
    (hhere : s.listeners[i]? = some (.storing index none accepted)) :
    Accounts { s with
      listeners := s.listeners.set i (.storing index (some s.listeners.length) accepted) ++
        [.accepting] } := by
  have hgo : Accounts (s.goTo i (.storing index (some s.listeners.length) accepted)) :=
    h.goTo hhere (.inl rfl) rfl (by simp)
  have hnone : [Listener.accepting].filterMap Listener.handle = [] := rfl
  have hnone' : [Listener.accepting].filterMap Listener.object = [] := rfl
  refine { hgo with objects := ?_, inserting := ?_, handles := ?_, opened := ?_ }
  · simp only [Threads.kept, List.filterMap_append, hnone', List.append_nil]
    exact hgo.objects
  · intro o q hmem
    rcases List.mem_append.mp hmem with hmem | hlast
    · exact hgo.inserting o q hmem
    · cases List.mem_singleton.mp hlast
  · simp only [Threads.inUse, List.filterMap_append, hnone, List.append_nil]
    exact hgo.handles
  · simp only [Threads.inUse, List.filterMap_append, hnone, List.append_nil]
    exact hgo.opened

/-! ### Objects that are deleted -/

/-- The destructor of an entry's object closes its socket, which is no other's. -/
theorem Accounts.close (h : Accounts s) (hdeleting : s.deleting = none) (he : e ∈ s.clientmap)
    {r : Recovery} {d : Destructor}
    (hnew : Threads.deleting { s with recovery := r, destructor := d } = some e.2)
    (hd : d ≠ .done) :
    Accounts { s with recovery := r, destructor := d, openFds := s.close e.2 } := by
  have hlive : Threads.live { s with recovery := r, destructor := d, openFds := s.close e.2 } =
      s.clientmap.filter fun e' => e'.2 ≠ e.2 := by
    have hsome : Threads.deleting { s with
        recovery := r, destructor := d, openFds := s.close e.2 } = some e.2 := hnew
    simp [Threads.live, hsome]
  have hbefore := h.handles
  rw [Threads.inUse, live_eq hdeleting] at hbefore
  have hopened := h.opened
  rw [Threads.inUse, live_eq hdeleting] at hopened
  refine { h with
    deleting := ?_, handles := ?_, opened := ?_, emptied := fun hdone => absurd hdone hd }
  · intro o ho
    obtain rfl : e.2 = o := Option.some.inj (hnew.symm.trans ho)
    exact List.mem_map.mpr ⟨e, he, rfl⟩
  · rw [Threads.inUse, hlive]
    refine List.Sublist.nodup ?_ hbefore
    exact List.Sublist.append (List.Sublist.refl _) (List.filter_sublist.map _)
  · intro fd hfd
    rw [Threads.inUse, hlive] at hfd
    -- nobody else has the handle of the entry
    have hne : fd ∈ s.openFds ∧ fd ≠ e.1.socketFd := by
      rcases List.mem_append.mp hfd with hlistener | hentry
      · refine ⟨hopened fd (List.mem_append_left _ hlistener), fun heq => ?_⟩
        exact List.disjoint_of_nodup_append hbefore hlistener (List.mem_map.mpr ⟨e, he, heq.symm⟩)
      · obtain ⟨e', he', rfl⟩ := List.mem_map.mp hentry
        obtain ⟨hmem, hother⟩ := List.mem_filter.mp he'
        refine ⟨hopened _ (List.mem_append_right _ (List.mem_map.mpr ⟨e', hmem, rfl⟩)),
          fun heq => ?_⟩
        have hsame := List.inj_on_of_nodup_map (List.nodup_append.mp hbefore).2.1 hmem he heq
        simp [hsame] at hother
    refine List.mem_filter.mpr ⟨hne.1, ?_⟩
    simp [h.entry e he, hne.2]

/-- The entry of the object deleted is erased. -/
theorem Accounts.erase (h : Accounts s) (hdeleting : s.deleting = some o) (hended : s.Ended o)
    {r : Recovery} {d : Destructor}
    (hnew : Threads.deleting { s with recovery := r, destructor := d } = none) (hd : d ≠ .done) :
    Accounts { s.erase o with recovery := r, destructor := d } := by
  have hnone : Threads.deleting { s.erase o with recovery := r, destructor := d } = none := hnew
  have hlive : Threads.live { s.erase o with recovery := r, destructor := d } = s.live := by
    rw [live_eq hnone]
    simp [Threads.live, hdeleting, Threads.erase]
  have hinUse : Threads.inUse { s.erase o with recovery := r, destructor := d } = s.inUse := by
    rw [Threads.inUse, hlive]
    rfl
  have hkept : (Threads.kept { s.erase o with recovery := r, destructor := d }).Perm s.kept := by
    have herase : ((s.clientmap.filter fun e => e.2 ≠ o).map Prod.snd) =
        (s.clientmap.map Prod.snd).erase o := by
      rw [h.entries_nodup.erase_eq_filter, List.filter_map]
      congr 1
      refine List.filter_congr fun e _ => ?_
      simp [bne, Bool.beq_eq_decide_eq]
    have hperm := List.perm_cons_erase (h.deleting o hdeleting)
    simp only [Threads.kept, Threads.erase, herase]
    refine List.Perm.append_left _ (List.Perm.trans ?_ (hperm.symm.append_right s.deleted))
    refine List.perm_iff_count.mpr fun x => ?_
    simp only [List.count_append, List.count_cons, List.count_nil]
    omega
  refine { h with
    objects := hkept.trans h.objects
    entry := fun e he => h.entry e (List.mem_filter.mp he).1
    deleting := fun o ho => ?_
    handles := hinUse ▸ h.handles
    opened := hinUse ▸ h.opened
    ended := forall_mem_snoc.mpr ⟨h.ended, hended⟩
    emptied := fun hdone => absurd hdone hd }
  cases hnone.symm.trans ho

/-- The recovery thread or the destructor goes on, and deletes what it deleted before. -/
theorem Accounts.elsewhere (h : Accounts s) {r : Recovery} {d : Destructor}
    (hsame : r.deletes.or d.deletes = s.deleting) (hd : d = .done → s.clientmap = []) :
    Accounts { s with recovery := r, destructor := d } := by
  have hinUse : Threads.inUse { s with recovery := r, destructor := d } = s.inUse := by
    have hdeleting : Threads.deleting { s with recovery := r, destructor := d } = s.deleting :=
      hsame
    simp only [Threads.inUse, Threads.live, hdeleting]
  exact { h with
    deleting := fun o ho => h.deleting o (hsame ▸ ho)
    handles := hinUse ▸ h.handles
    opened := hinUse ▸ h.opened
    emptied := hd }

/-! ### Every step -/

theorem Chain.not_emptying (h : Chain s) (hhere : s.listeners[i]? = some l)
    (hrunning : l ≠ .exited) : s.destructor.joined < maxListeningCount :=
  lt_of_le_of_lt (h.running hhere hrunning)
    (lt_of_lt_of_le (List.getElem?_eq_some_iff.mp hhere).1 h.bounded)

theorem Destructor.deletes_of_joined {d : Destructor} (h : d.joined < maxListeningCount) :
    d.deletes = none ∧ d ≠ .done := by
  cases d <;> simp [Destructor.joined, Destructor.deletes] at h ⊢

theorem Destructor.deletes_of_exitFlag {d : Destructor} (h : d.exitFlag = false) :
    d.deletes = none ∧ d ≠ .done := by
  cases d <;> simp [Destructor.exitFlag, Destructor.deletes] at h ⊢

theorem Destructor.deletes_of_recoveryJoined {d : Destructor} (h : d.recoveryJoined = false) :
    d.deletes = none ∧ d ≠ .done := by
  cases d <;> simp [Destructor.recoveryJoined, Destructor.deletes] at h ⊢

/-- While a listening thread runs and the lock is free, nothing is being deleted. -/
theorem Chain.unlocked (h : Chain s) (hhere : s.listeners[i]? = some l) (hrunning : l ≠ .exited)
    (hunlocked : ∀ o, s.recovery ≠ .deleting o) : s.deleting = none ∧ s.destructor ≠ .done := by
  obtain ⟨hd, hdone⟩ := Destructor.deletes_of_joined (h.not_emptying hhere hrunning)
  refine ⟨?_, hdone⟩
  rw [Threads.deleting, hd]
  cases hr : s.recovery with
  | deleting o => exact absurd hr (hunlocked o)
  | _ => rfl

theorem accounts_step (hc : Chain s) (h : Accounts s) (hs : step s a = some s') :
    Accounts s' := by
  cases step_stepsTo hs with
  | refused hhere | tested hhere | closedDown hhere | create hhere | full hhere
  | unaccepted hhere =>
    exact h.goTo hhere (.inl rfl) rfl (by simp)
  | discard hhere => exact h.goTo hhere (.inr rfl) rfl (by simp)
  | accept hhere _ hfresh => exact h.accept hhere hfresh
  | @takeIndex i thread accepted hhere =>
    have hgo : Accounts (s.goTo i (.storing (some s.listenNumb) thread accepted)) :=
      h.goTo hhere (.inl rfl) rfl (by simp)
    exact { hgo with }
  | makeThread hhere => exact h.makeThread hhere
  | @store i index thread accepted hhere =>
    have hgo : Accounts (s.goTo i (.created accepted)) := h.goTo hhere (.inl rfl) rfl (by simp)
    exact { hgo with }
  | construct hhere => exact h.construct hhere
  | insert hhere hunlocked =>
    obtain ⟨hdeleting, hrunning⟩ := hc.unlocked hhere (by simp) hunlocked
    exact h.insert hdeleting hhere hrunning
  | workerExit hlt hrunning =>
    refine { h with exited_nodup := ?_, exited_lt := ?_, ended := ?_ }
    · exact nodup_snoc.mpr ⟨hrunning, h.exited_nodup⟩
    · exact forall_mem_snoc.mpr ⟨h.exited_lt, hlt⟩
    · intro o ho
      obtain ⟨hparse, hprocess⟩ := h.ended o ho
      exact ⟨List.mem_append_left _ hparse, List.mem_append_left _ hprocess⟩
  | @take notice hr =>
    have hsame := h.elsewhere (r := .taken (some notice)) (d := s.destructor)
      (by simp [Threads.deleting, hr, Recovery.deletes]) h.emptied
    exact { hsame with }
  | timeOut hr | stop hr | again hr =>
    exact h.elsewhere (d := s.destructor) (by simp [Threads.deleting, hr, Recovery.deletes])
      h.emptied
  | found hr hflag hmem =>
    obtain ⟨hd, hrunning⟩ := Destructor.deletes_of_exitFlag hflag
    exact h.close (d := s.destructor) (by simp [Threads.deleting, hr, hd, Recovery.deletes]) hmem
      (by simp [Threads.deleting, Recovery.deletes]) hrunning
  | @recovered o hr hended =>
    have hunjoined : s.destructor.recoveryJoined = false := by
      refine Bool.eq_false_iff.mpr fun hjoined => ?_
      cases hr.symm.trans (hc.recovered hjoined)
    have hd := Destructor.deletes_of_recoveryJoined hunjoined
    exact h.erase (d := s.destructor) (by simp [Threads.deleting, hr, Recovery.deletes]) hended
      (by simp [Threads.deleting, Recovery.deletes, hd.1]) hd.2
  | invalidate hd | closeServer hd | setFlag hd | recoveryJoined hd | allJoined hd =>
    exact h.elsewhere (r := s.recovery) (by simp [Threads.deleting, hd, Destructor.deletes])
      (by simp)
  | @listenJoined i _ hd | @noThread i hd =>
    have hsame := h.elsewhere (r := s.recovery) (d := .joining (i + 1))
      (by simp [Threads.deleting, hd, Destructor.deletes]) (by simp)
    exact { hsame with }
  | deleteClient hd hmem =>
    have hr := hc.recovered (by rw [hd]; rfl)
    exact h.close (r := s.recovery) (by simp [Threads.deleting, hr, hd, Recovery.deletes,
      Destructor.deletes]) hmem (by simp [Threads.deleting, hr, Recovery.deletes,
      Destructor.deletes]) (by simp)
  | clientDeleted hd hended =>
    have hr := hc.recovered (by rw [hd]; rfl)
    exact h.erase (r := s.recovery) (by simp [Threads.deleting, hr, hd, Recovery.deletes,
      Destructor.deletes]) hended (by simp [Threads.deleting, hr, Recovery.deletes,
      Destructor.deletes]) (by simp)
  | finish hd hempty =>
    exact h.elsewhere (r := s.recovery) (by simp [Threads.deleting, hd, Destructor.deletes])
      fun _ => hempty

end RTPVoice.MyProtocol.Teardown
