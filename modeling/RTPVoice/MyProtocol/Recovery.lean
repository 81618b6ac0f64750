import RTPVoice.Framework.Snoc
import RTPVoice.MyProtocol.Registry

namespace RTPVoice.MyProtocol

open Framework Framework.Transition

variable {s s' : Server} {n : Notice} {o : Nat} {p : SocketParams}

/-- Object `o` was constructed for `p` and is not deleted. -/
def Server.Alive (s : Server) (o : Nat) (p : SocketParams) : Prop :=
  s.objects[o]? = some p ∧ o ∉ s.deleted

/-- What holds in every state. -/
structure Sound (s : Server) : Prop where
  /-- a live object's handle is open and no other's -/
  alive_open : ∀ o p, s.Alive o p → p.socketFd ∈ s.openFds
  alive_unique : ∀ o p o' p', s.Alive o p → s.Alive o' p' → p.socketFd = p'.socketFd → o = o'
  accepted_open : ∀ p ∈ s.accepted, p.socketFd ∈ s.openFds
  accepted_unowned : ∀ p ∈ s.accepted, ∀ o p', s.Alive o p' → p'.socketFd ≠ p.socketFd
  accepted_nodup : (s.accepted.map SocketParams.socketFd).Nodup
  inserting_alive : ∀ o ∈ s.inserting, ∃ p, s.Alive o p
  inserting_nodup : s.inserting.Nodup
  inserting_absent : ∀ o ∈ s.inserting, ∀ e ∈ s.clientmap, e.2 ≠ o
  entry_alive : ∀ e ∈ s.clientmap, s.Alive e.2 e.1
  entry_nodup : (s.clientmap.map Prod.snd).Nodup
  /-- a pending notice is its sender's, which has not been processed before -/
  notice : ∀ n ∈ s.pending, s.objects[n.sender]? = some n.clientsocket ∧ n.sender ∈ s.exited ∧
    n.sender ∉ s.handled
  notice_nodup : (s.pending.map Notice.sender).Nodup
  exited_noticed : ∀ o ∈ s.exited, o ∈ s.handled ∨ ∃ n ∈ s.pending, n.sender = o
  exited_lt : ∀ o ∈ s.exited, o < s.objects.length
  handled_exited : ∀ o ∈ s.handled, o ∈ s.exited
  deleted_handled : ∀ o ∈ s.deleted, o ∈ s.handled
  deleted_nodup : s.deleted.Nodup

theorem Sound.createListenThread (h : Sound s) : Sound s.createListenThread := by
  unfold Server.createListenThread
  split
  · exact { h with }
  · exact h

theorem sound_started : Sound .started := by
  refine Sound.createListenThread ?_
  constructor <;> simp [Server.fresh, Server.pending, Server.Alive]

theorem Sound.acceptFail (h : Sound s) : Sound s.acceptFail :=
  Sound.createListenThread { h with }

theorem Sound.accept (h : Sound s) (hfresh : p.socketFd ∉ s.openFds) : Sound (s.accept p) := by
  apply Sound.createListenThread
  exact { h with
    alive_open := by
      intro o q ha
      exact List.mem_append_left _ (h.alive_open o q ha)
    accepted_open := by
      refine forall_mem_snoc.mpr ⟨?_, by simp⟩
      intro q hq
      exact List.mem_append_left _ (h.accepted_open q hq)
    accepted_unowned := by
      refine forall_mem_snoc.mpr ⟨h.accepted_unowned, ?_⟩
      intro o q ha he
      exact hfresh (he ▸ h.alive_open o q ha)
    accepted_nodup := by
      apply nodup_map_snoc.mpr
      refine ⟨?_, h.accepted_nodup⟩
      intro q hq he
      exact hfresh (he ▸ h.accepted_open q hq) }

/-- A new object is alive, and it is the only one on its handle. -/
theorem alive_snoc {q : SocketParams} (hget : (s.objects ++ [p])[o]? = some q)
    (hd : o ∉ s.deleted) : s.Alive o q ∨ o = s.objects.length ∧ q = p := by
  cases getElem?_snoc.mp hget with
  | inl hget => exact .inl ⟨hget, hd⟩
  | inr hnew => exact .inr hnew

theorem Sound.new_undeleted (h : Sound s) : s.objects.length ∉ s.deleted := by
  intro hd
  exact Nat.lt_irrefl _ (h.exited_lt _ (h.handled_exited _ (h.deleted_handled _ hd)))

theorem Sound.construct (h : Sound s) (hp : p ∈ s.accepted) : Sound (s.construct p) := by
  have haccepted : ∀ q ∈ s.accepted.erase p, q ∈ s.accepted := by
    intro q hq
    exact List.mem_of_mem_erase hq
  have hnodup : ((s.accepted.erase p).map SocketParams.socketFd).Nodup :=
    (List.erase_sublist.map _).nodup h.accepted_nodup
  unfold Server.construct
  split
  · -- the other sockets accepted have other handles
    have hother : ∀ q ∈ s.accepted.erase p, p.socketFd ≠ q.socketFd := by
      intro q hq he
      have hpq := List.inj_on_of_nodup_map h.accepted_nodup hp (haccepted q hq) he
      subst hpq
      exact (List.Nodup.of_map _ h.accepted_nodup).not_mem_erase hq
    have hkept : ∀ (o : Nat) (q : SocketParams), s.objects[o]? = some q →
        (s.objects ++ [p])[o]? = some q := by
      intro o q hq
      exact getElem?_snoc.mpr (.inl hq)
    exact { h with
      alive_open := by
        intro o q ha
        cases alive_snoc ha.1 ha.2 with
        | inl hold => exact h.alive_open o q hold
        | inr hnew => exact hnew.2 ▸ h.accepted_open p hp
      alive_unique := by
        intro o q o' q' ha ha' he
        cases alive_snoc ha.1 ha.2 with
        | inl hold =>
          cases alive_snoc ha'.1 ha'.2 with
          | inl hold' => exact h.alive_unique o q o' q' hold hold' he
          | inr hnew' => exact absurd (hnew'.2 ▸ he) (h.accepted_unowned p hp o q hold)
        | inr hnew =>
          cases alive_snoc ha'.1 ha'.2 with
          | inl hold' => exact absurd (hnew.2 ▸ he.symm) (h.accepted_unowned p hp o' q' hold')
          | inr hnew' => rw [hnew.1, hnew'.1]
      accepted_open := by
        intro q hq
        exact h.accepted_open q (haccepted q hq)
      accepted_unowned := by
        intro q hq o q' ha
        cases alive_snoc ha.1 ha.2 with
        | inl hold => exact h.accepted_unowned q (haccepted q hq) o q' hold
        | inr hnew => exact hnew.2 ▸ hother q hq
      accepted_nodup := hnodup
      inserting_alive := by
        refine forall_mem_snoc.mpr ⟨?_, ?_⟩
        · intro o ho
          obtain ⟨q, hq, hd⟩ := h.inserting_alive o ho
          exact ⟨q, hkept o q hq, hd⟩
        · exact ⟨p, by simp, h.new_undeleted⟩
      inserting_nodup := by
        apply nodup_snoc.mpr
        refine ⟨?_, h.inserting_nodup⟩
        intro hnew
        obtain ⟨q, hq, -⟩ := h.inserting_alive _ hnew
        rw [List.getElem?_eq_none (Nat.le_refl _)] at hq
        cases hq
      inserting_absent := by
        refine forall_mem_snoc.mpr ⟨h.inserting_absent, ?_⟩
        intro e he
        exact Nat.ne_of_lt (List.getElem?_eq_some_iff.mp (h.entry_alive e he).1).1
      entry_alive := by
        intro e he
        exact ⟨hkept _ _ (h.entry_alive e he).1, (h.entry_alive e he).2⟩
      notice := by
        intro n hn
        exact ⟨hkept _ _ (h.notice n hn).1, (h.notice n hn).2⟩
      exited_lt := by
        intro o ho
        have hlt := h.exited_lt o ho
        rw [List.length_append]
        omega }
  · exact { h with
      accepted_open := by
        intro q hq
        exact h.accepted_open q (haccepted q hq)
      accepted_unowned := by
        intro q hq
        exact h.accepted_unowned q (haccepted q hq)
      accepted_nodup := hnodup }

theorem Sound.inserted_alive (h : Sound s) (ho : o ∈ s.inserting) (hp : s.objects[o]? = some p) :
    s.Alive o p := by
  obtain ⟨q, -, hd⟩ := h.inserting_alive o ho
  exact ⟨hp, hd⟩

/-- No entry has the key of an object about to be inserted, so nothing is overwritten. -/
theorem Sound.insert_free (h : Sound s) (ho : o ∈ s.inserting) (hp : s.objects[o]? = some p) :
    ∀ e ∈ s.clientmap, e.1 ≠ p := by
  intro e he hkey
  have hsame : e.2 = o :=
    h.alive_unique e.2 e.1 o p (h.entry_alive e he) (h.inserted_alive ho hp) (by rw [hkey])
  exact h.inserting_absent o ho e he hsame

theorem Sound.assign_eq (h : Sound s) (ho : o ∈ s.inserting) (hp : s.objects[o]? = some p) :
    (s.insert o p).clientmap = s.clientmap ++ [(p, o)] := by
  apply if_neg
  intro hany
  obtain ⟨e, he, hequiv⟩ := List.any_eq_true.mp hany
  exact h.insert_free ho hp e he (SocketParams.equiv_iff.mp hequiv)

theorem Sound.insert (h : Sound s) (ho : o ∈ s.inserting) (hp : s.objects[o]? = some p) :
    Sound (s.insert o p) := by
  have hmap := h.assign_eq ho hp
  have hothers : ∀ o' ∈ s.inserting.erase o, o' ∈ s.inserting ∧ o' ≠ o := by
    intro o' ho'
    refine ⟨List.mem_of_mem_erase ho', ?_⟩
    intro he
    exact h.inserting_nodup.not_mem_erase (he ▸ ho')
  exact { h with
    inserting_alive := by
      intro o' ho'
      exact h.inserting_alive o' (hothers o' ho').1
    inserting_nodup := h.inserting_nodup.erase o
    inserting_absent := by
      intro o' ho'
      rw [hmap]
      exact forall_mem_snoc.mpr ⟨h.inserting_absent o' (hothers o' ho').1, (hothers o' ho').2.symm⟩
    entry_alive := by
      rw [hmap]
      exact forall_mem_snoc.mpr ⟨h.entry_alive, h.inserted_alive ho hp⟩
    entry_nodup := by
      rw [hmap]
      apply nodup_map_snoc.mpr
      exact ⟨h.inserting_absent o ho, h.entry_nodup⟩ }

theorem Sound.notify (h : Sound s) (ho : o ∉ s.exited) (hp : s.objects[o]? = some p) :
    Sound (s.notify o p) := by
  have hpending : (s.notify o p).pending = s.pending ++ [⟨p, o⟩] := by
    simp only [Server.pending, Server.notify, List.append_assoc]
  exact { h with
    notice := by
      rw [hpending]
      refine forall_mem_snoc.mpr ⟨?_, ?_⟩
      · intro n hn
        obtain ⟨hget, hex, hhandled⟩ := h.notice n hn
        exact ⟨hget, List.mem_append_left _ hex, hhandled⟩
      · refine ⟨hp, List.mem_append_right _ (List.mem_singleton_self o), ?_⟩
        intro hhandled
        exact ho (h.handled_exited o hhandled)
    notice_nodup := by
      rw [hpending]
      apply nodup_map_snoc.mpr
      refine ⟨?_, h.notice_nodup⟩
      intro n hn he
      have hex := (h.notice n hn).2.1
      rw [he] at hex
      exact ho hex
    exited_noticed := by
      rw [hpending]
      refine forall_mem_snoc.mpr ⟨?_, ?_⟩
      · intro o' ho'
        cases h.exited_noticed o' ho' with
        | inl hhandled => exact .inl hhandled
        | inr hn =>
          obtain ⟨n, hn, hsender⟩ := hn
          exact .inr ⟨n, List.mem_append_left _ hn, hsender⟩
      · exact .inr ⟨⟨p, o⟩, by simp, rfl⟩
    exited_lt := by
      exact forall_mem_snoc.mpr ⟨h.exited_lt, (List.getElem?_eq_some_iff.mp hp).1⟩
    handled_exited := by
      intro o' ho'
      exact List.mem_append_left _ (h.handled_exited o' ho') }

/-- The object found for a notice is the one whose reader thread sent it. -/
theorem Sound.found_sender (h : Sound s) (hheld : s.held = some n) {e : SocketParams × Nat}
    (hfind : (s.clientmap.find? fun e => e.1.equiv n.clientsocket) = some e) :
    e = (n.clientsocket, n.sender) := by
  have hequiv := List.find?_some hfind
  have hkey : e.1 = n.clientsocket := SocketParams.equiv_iff.mp hequiv
  have halive := h.entry_alive e (List.mem_of_find?_eq_some hfind)
  obtain ⟨hget, -, hhandled⟩ := h.notice n (by simp [Server.pending, hheld])
  have hsender : s.Alive n.sender n.clientsocket :=
    ⟨hget, fun hd => hhandled (h.deleted_handled _ hd)⟩
  exact Prod.ext hkey (h.alive_unique _ _ _ _ halive hsender (by rw [hkey]))

theorem Sound.dequeue {rest : List Notice} (h : Sound s) (hheld : s.held = none)
    (hqueue : s.clientqueue = n :: rest) :
    Sound { s with held := some n, clientqueue := rest } := by
  have hpending : Server.pending { s with held := some n, clientqueue := rest } = s.pending := by
    simp [Server.pending, hheld, hqueue]
  exact { h with
    notice := by rw [hpending]; exact h.notice
    notice_nodup := by rw [hpending]; exact h.notice_nodup
    exited_noticed := by rw [hpending]; exact h.exited_noticed }

/-- What is left of the map when the entry of a held notice is erased. -/
theorem Sound.mem_eraseP (h : Sound s) (hheld : s.held = some n) {e e' : SocketParams × Nat}
    (hfind : (s.clientmap.find? fun e => e.1.equiv n.clientsocket) = some e)
    (he' : e' ∈ s.clientmap.eraseP fun e => e.1.equiv n.clientsocket) :
    e' ∈ s.clientmap ∧ e'.2 ≠ n.sender := by
  obtain rfl := h.found_sender hheld hfind
  refine ⟨List.mem_of_mem_eraseP he', fun hsender => ?_⟩
  obtain ⟨a, l₁, l₂, -, hequiv, hsplit, herase⟩ := List.exists_of_eraseP
    (List.mem_of_find?_eq_some hfind) (List.find?_some hfind)
  have hkey : a.1 = n.clientsocket := SocketParams.equiv_iff.mp hequiv
  have hmem : a ∈ s.clientmap := by
    rw [hsplit]
    simp
  have ha : a.2 = n.sender := h.alive_unique _ _ _ _ (h.entry_alive a hmem)
    (h.entry_alive _ (List.mem_of_find?_eq_some hfind)) (by rw [hkey])
  have hnodup := h.entry_nodup
  rw [hsplit, List.map_append, List.map_cons, List.nodup_middle, List.nodup_cons,
    ← List.map_append] at hnodup
  rw [herase] at he'
  exact hnodup.1 (List.mem_map.mpr ⟨e', he', by rw [hsender, ha]⟩)

/-- A notice processed leaves the senders of the others to be processed. -/
theorem Sound.processed (h : Sound s) (hheld : s.held = some n) :
    Sound { s with held := none, handled := s.handled ++ [n.sender] } := by
  have hpending : s.pending = n :: s.clientqueue := by simp [Server.pending, hheld]
  have hnodup := h.notice_nodup
  rw [hpending, List.map_cons, List.nodup_cons] at hnodup
  have hnotice := h.notice
  rw [hpending, List.forall_mem_cons] at hnotice
  obtain ⟨hsent, hothers⟩ := hnotice
  exact { h with
    notice := by
      intro n' hn'
      obtain ⟨hget, hex, hhandled⟩ := hothers n' hn'
      refine ⟨hget, hex, ?_⟩
      rw [List.mem_append, List.mem_singleton, not_or]
      refine ⟨hhandled, ?_⟩
      intro he
      exact hnodup.1 (List.mem_map.mpr ⟨n', hn', he⟩)
    notice_nodup := hnodup.2
    exited_noticed := by
      intro o ho
      rw [List.mem_append, List.mem_singleton]
      have hnoticed := h.exited_noticed o ho
      rw [hpending] at hnoticed
      cases hnoticed with
      | inl hhandled => exact .inl (.inl hhandled)
      | inr hn =>
        obtain ⟨n', hn', hsender⟩ := hn
        cases List.mem_cons.mp hn' with
        | inl he => exact .inl (.inr (by rw [← hsender, he]))
        | inr hn' => exact .inr ⟨n', hn', hsender⟩
    handled_exited := by
      exact forall_mem_snoc.mpr ⟨h.handled_exited, hsent.2.1⟩
    deleted_handled := by
      intro o ho
      exact List.mem_append_left _ (h.deleted_handled o ho) }

theorem Sound.recover (h : Sound s) (hheld : s.held = some n) : Sound (s.recover n) := by
  have hdone := h.processed hheld
  unfold Server.recover
  split
  · exact hdone
  · next k o hfind =>
    obtain ⟨rfl, rfl⟩ := Prod.mk.inj (h.found_sender hheld hfind)
    have hmem := List.mem_of_find?_eq_some hfind
    have hentry := h.entry_alive _ hmem
    -- what is alive afterwards was alive before and is another object
    have halive {o : Nat} {p : SocketParams} (hget : s.objects[o]? = some p)
        (hd : o ∉ s.deleted ++ [n.sender]) : s.Alive o p ∧ o ≠ n.sender := by
      rw [List.mem_append, List.mem_singleton, not_or] at hd
      exact ⟨⟨hget, hd.1⟩, hd.2⟩
    have hdead {o : Nat} {p : SocketParams} (ha : s.Alive o p) (hne : o ≠ n.sender) :
        s.objects[o]? = some p ∧ o ∉ s.deleted ++ [n.sender] := by
      rw [List.mem_append, List.mem_singleton, not_or]
      exact ⟨ha.1, ha.2, hne⟩
    have hkept {fd : HSocket} (hopen : fd ∈ s.openFds) (hne : n.clientsocket.socketFd ≠ fd) :
        fd ∈ s.openFds.filter fun fd =>
          some fd ≠ (s.objects[n.sender]?).map SocketParams.socketFd := by
      rw [List.mem_filter, hentry.1]
      exact ⟨hopen, by simpa using hne.symm⟩
    exact { hdone with
      alive_open := by
        intro o p ha
        obtain ⟨ha, hne⟩ := halive ha.1 ha.2
        apply hkept (h.alive_open o p ha)
        intro he
        exact hne (h.alive_unique o p _ _ ha hentry he.symm)
      alive_unique := by
        intro o p o' p' ha ha' he
        exact h.alive_unique o p o' p' (halive ha.1 ha.2).1 (halive ha'.1 ha'.2).1 he
      accepted_open := by
        intro p hp
        exact hkept (h.accepted_open p hp) (h.accepted_unowned p hp _ _ hentry)
      accepted_unowned := by
        intro p hp o p' ha
        exact h.accepted_unowned p hp o p' (halive ha.1 ha.2).1
      inserting_alive := by
        intro o ho
        obtain ⟨p, ha⟩ := h.inserting_alive o ho
        exact ⟨p, hdead ha (h.inserting_absent o ho _ hmem).symm⟩
      inserting_absent := by
        intro o ho e he
        exact h.inserting_absent o ho e (h.mem_eraseP hheld hfind he).1
      entry_alive := by
        intro e he
        obtain ⟨he, hne⟩ := h.mem_eraseP hheld hfind he
        exact hdead (h.entry_alive e he) hne
      entry_nodup := (List.eraseP_sublist.map Prod.snd).nodup h.entry_nodup
      deleted_handled := by
        refine forall_mem_snoc.mpr ⟨hdone.deleted_handled, ?_⟩
        exact List.mem_append_right _ (List.mem_singleton_self _)
      deleted_nodup := by
        apply nodup_snoc.mpr
        exact ⟨hentry.2, h.deleted_nodup⟩ }

theorem sound_step {a : Action} (h : Sound s) (hs : step s a = some s') : Sound s' := by
  cases step_stepsTo hs with
  | accept p _ hfresh => exact h.accept hfresh
  | acceptFail => exact h.acceptFail
  | construct p hp => exact h.construct hp
  | insert o p ho hp => exact h.insert ho hp
  | readerExit o p ho hp => exact h.notify ho hp
  | dequeue n rest hheld hqueue => exact h.dequeue hheld hqueue
  | recover n hheld => exact h.recover hheld

theorem sound_run {actions : List Action} (h : run step .started actions = some s) : Sound s :=
  run_invariant sound_started (fun _ _ _ _ hI hs => sound_step hI hs) h

end RTPVoice.MyProtocol
