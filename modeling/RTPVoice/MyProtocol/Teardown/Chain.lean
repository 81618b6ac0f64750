import RTPVoice.Framework.Snoc
import RTPVoice.Framework.Transition
import RTPVoice.Framework.Update
import RTPVoice.MyProtocol.Teardown.Threads

namespace RTPVoice.MyProtocol.Teardown

open Framework Framework.Transition

/-- The thread has tested `listen_numb`, or need not. -/
def Listener.Tested : Listener → Prop
  | .accepting | .testing _ | .creating _ => False
  | _ => True

/-- The thread has made the next one, or makes none. -/
def Listener.Behind : Listener → Prop
  | .accepting | .testing _ | .creating _ | .storing _ none _ => False
  | _ => True

theorem Listener.Behind.tested {l : Listener} (h : l.Behind) : l.Tested := by
  cases l <;> trivial

/-- The entries of `listen_thread_p` that the destructor is done with. -/
def Destructor.joined : Destructor → Nat
  | .joining i => i
  | .emptying | .deleting _ | .done => maxListeningCount
  | _ => 0

def Destructor.recoveryJoined : Destructor → Bool
  | .joining _ | .emptying | .deleting _ | .done => true
  | _ => false

/-- A listening thread looks at `listen_numb` in `CreateListenThread` when the indices of all
threads up to itself are taken. It is so if the index is taken before `new`; the language leaves
that open, and the new thread can be there first. -/
def InTurn (s : Threads) : Action → Prop
  | .listen i =>
    match s.listeners[i]? with
    | some (.creating _) => s.listenNumb = i + 1
    | _ => True
  | _ => True

instance (s : Threads) (a : Action) : Decidable (InTurn s a) := by
  unfold InTurn
  split
  · split <;> infer_instance
  · infer_instance

/-- Each listening thread makes at most the next one, so that only the last one made can be in front
of that; the destructor waits for them in this order. -/
structure Chain (s : Threads) : Prop where
  bounded : s.listeners.length ≤ maxListeningCount
  behind : ∀ (i : Nat) (l : Listener), s.listeners[i]? = some l → i + 1 < s.listeners.length →
    l.Behind
  numb : s.listenNumb ≤ s.listeners.length + 1
  untested : ∀ (i : Nat) (l : Listener), s.listeners[i]? = some l → ¬ l.Tested →
    s.listenNumb ≤ i + 1
  next : ∀ (i : Nat) (index thread : Option Nat) (accepted : Option SocketParams),
    s.listeners[i]? = some (.storing index thread accepted) → i + 1 < maxListeningCount ∧
    (index = none ∧ s.listenNumb = i + 1 ∨ index = some (i + 1) ∧ i + 1 < s.listenNumb) ∧
    (thread = none ∨ thread = some (i + 1) ∧ i + 1 < s.listeners.length)
  stored : ∀ i < s.listeners.length, (i, i) ∈ s.listenThreadP ∨ i < s.destructor.joined ∨
    ∃ (j : Nat) (index : Option Nat) (accepted : Option SocketParams),
      s.listeners[j]? = some (.storing index (some i) accepted)
  slots : ∀ e ∈ s.listenThreadP, e.1 = e.2 ∧ e.2 < s.listeners.length ∧ e.1 < s.listenNumb ∧
    s.destructor.joined ≤ e.1
  joined : ∀ i < s.destructor.joined, ∀ l, s.listeners[i]? = some l → l = .exited
  recovered : s.destructor.recoveryJoined = true → s.recovery = .exited

variable {s s' : Threads} {a : Action} {i : Nat} {l l' : Listener}

theorem inTurn_listen (hhere : s.listeners[i]? = some l) :
    InTurn s (.listen i) ↔ ∀ accepted, l = .creating accepted → s.listenNumb = i + 1 := by
  simp only [InTurn, hhere]
  cases l <;> simp

theorem inTurn_of_ne (h : ∀ i, a ≠ .listen i) : InTurn s a := by
  cases a with
  | listen i => exact absurd rfl (h i)
  | _ => trivial

theorem chain_started : Chain .started where
  bounded := by decide
  behind i l h hlt := absurd hlt (by simp [Threads.started])
  numb := by decide
  untested i l h hl := by simp [Threads.started]
  next i index thread accepted h := by
    rcases i with _ | i <;> simp [Threads.started] at h
  stored i hi := .inl (by simpa [Threads.started] using hi)
  slots e he := by
    obtain rfl : e = (0, 0) := by simpa [Threads.started] using he
    decide
  joined i hi := by simp [Threads.started, Destructor.joined] at hi
  recovered h := by simp [Threads.started, Destructor.recoveryJoined] at h

theorem Chain.running (h : Chain s) (hhere : s.listeners[i]? = some l) (hrunning : l ≠ .exited) :
    s.destructor.joined ≤ i := by
  by_contra hlt
  exact hrunning (h.joined i (Nat.lt_of_not_le hlt) l hhere)

theorem goTo_length : (s.goTo i l').listeners.length = s.listeners.length := by
  simp [Threads.goTo]

theorem Chain.behind_goTo (h : Chain s) (hhere : s.listeners[i]? = some l)
    (hbehind : l.Behind → l'.Behind) {j : Nat} {k : Listener}
    (hk : (s.goTo i l').listeners[j]? = some k) (hj : j + 1 < (s.goTo i l').listeners.length) :
    k.Behind := by
  rw [goTo_length] at hj
  rcases (getElem?_replaced hhere).mp hk with ⟨rfl, rfl⟩ | ⟨-, hk⟩
  · exact hbehind (h.behind j l hhere hj)
  · exact h.behind j k hk hj

theorem Chain.joined_goTo (h : Chain s) (hhere : s.listeners[i]? = some l) (hrunning : l ≠ .exited)
    {j : Nat} (hj : j < s.destructor.joined) {k : Listener}
    (hk : (s.goTo i l').listeners[j]? = some k) : k = .exited := by
  rcases (getElem?_replaced hhere).mp hk with ⟨rfl, -⟩ | ⟨-, hk⟩
  · exact absurd (h.running hhere hrunning) (Nat.not_le_of_lt hj)
  · exact h.joined j hj k hk

/-- A thread that runs goes on and keeps the pointer of the next one, if it has it. -/
theorem Chain.goTo (h : Chain s) (hhere : s.listeners[i]? = some l) (hrunning : l ≠ .exited)
    (hl : ∀ index thread accepted, l ≠ .storing index (some thread) accepted)
    (hl' : ∀ index thread accepted, l' = .storing index thread accepted →
      i + 1 < maxListeningCount ∧ index = none ∧ thread = none ∧ s.listenNumb = i + 1)
    (htested : ¬ l'.Tested → ¬ l.Tested) (hbehind : l.Behind → l'.Behind) :
    Chain (s.goTo i l') := by
  refine { h with
    bounded := goTo_length.trans_le h.bounded
    behind := fun _ _ => h.behind_goTo hhere hbehind
    numb := goTo_length.symm ▸ h.numb
    untested := ?_, next := ?_, stored := ?_, slots := ?_
    joined := fun _ hj _ => h.joined_goTo hhere hrunning hj }
  · intro j k hk hnot
    rcases (getElem?_replaced hhere).mp hk with ⟨rfl, rfl⟩ | ⟨-, hk⟩
    · exact h.untested j l hhere (htested hnot)
    · exact h.untested j k hk hnot
  · intro j index thread accepted hk
    rcases (getElem?_replaced hhere).mp hk with ⟨rfl, he⟩ | ⟨-, hk⟩
    · obtain ⟨hlt, rfl, rfl, hnumb⟩ := hl' index thread accepted he.symm
      exact ⟨hlt, .inl ⟨rfl, hnumb⟩, .inl rfl⟩
    · rw [goTo_length]
      exact h.next j index thread accepted hk
  · intro j hj
    rw [goTo_length] at hj
    refine (h.stored j hj).imp_right (Or.imp_right fun hstoring => ?_)
    obtain ⟨k, index, accepted, hk⟩ := hstoring
    refine ⟨k, index, accepted, (getElem?_replaced hhere).mpr (.inr ⟨?_, hk⟩)⟩
    rintro rfl
    exact hl index j accepted (Option.some.inj (hhere.symm.trans hk))
  · rw [goTo_length]
    exact h.slots

/-- The index of the next thread is taken. -/
theorem Chain.takeIndex {thread : Option Nat} {accepted : Option SocketParams} (h : Chain s)
    (hhere : s.listeners[i]? = some (.storing none thread accepted)) :
    Chain { s.goTo i (.storing (some s.listenNumb) thread accepted) with
      listenNumb := s.listenNumb + 1 } := by
  obtain ⟨hlt, hindex, hthread⟩ := h.next i none thread accepted hhere
  have hnumb : s.listenNumb = i + 1 := hindex.elim And.right fun he => absurd he.1 (by simp)
  have hi := (List.getElem?_eq_some_iff.mp hhere).1
  have hbehind : (Listener.storing none thread accepted).Behind →
      (Listener.storing (some s.listenNumb) thread accepted).Behind := by
    cases thread <;> exact id
  refine { h with
    bounded := goTo_length.trans_le h.bounded
    behind := fun _ _ => h.behind_goTo hhere hbehind
    numb := ?_, untested := ?_, next := ?_, stored := ?_, slots := ?_
    joined := fun _ hj _ => h.joined_goTo hhere (by simp) hj }
  · rw [goTo_length]
    show s.listenNumb + 1 ≤ _
    omega
  · -- a thread that has not tested is the last one, and another than this one
    intro j k hk hnot
    rcases (getElem?_replaced hhere).mp hk with ⟨rfl, rfl⟩ | ⟨hne, hk⟩
    · exact absurd trivial hnot
    · have hlast : ¬ j + 1 < s.listeners.length := fun hj => hnot (h.behind j k hk hj).tested
      show s.listenNumb + 1 ≤ j + 1
      omega
  · intro j index thread' accepted' hk
    rw [goTo_length]
    rcases (getElem?_replaced hhere).mp hk with ⟨rfl, he⟩ | ⟨hne, hk⟩
    · cases he
      exact ⟨hlt, .inr ⟨by rw [hnumb], by show _ < s.listenNumb + 1; omega⟩, hthread⟩
    · obtain ⟨hlt', hindex', hthread'⟩ := h.next j index thread' accepted' hk
      refine ⟨hlt', .inr ?_, hthread'⟩
      rcases hindex' with ⟨-, he⟩ | ⟨he, hle⟩
      · omega
      · exact ⟨he, Nat.lt_succ_of_lt hle⟩
  · intro j hj
    rw [goTo_length] at hj
    refine (h.stored j hj).imp_right (Or.imp_right fun hstoring => ?_)
    obtain ⟨k, index, accepted', hk⟩ := hstoring
    by_cases hki : k = i
    · subst hki
      obtain rfl : thread = some j := by
        cases hhere.symm.trans hk
        rfl
      exact ⟨k, _, accepted, (getElem?_replaced hhere).mpr (.inl ⟨rfl, rfl⟩)⟩
    · exact ⟨k, index, accepted', (getElem?_replaced hhere).mpr (.inr ⟨hki, hk⟩)⟩
  · intro e he
    obtain ⟨heq, hlt', hle, hjoined⟩ := h.slots e he
    exact ⟨heq, goTo_length.symm ▸ hlt', Nat.lt_succ_of_lt hle, hjoined⟩

/-- The last thread made makes the next one. -/
theorem Chain.makeThread {index : Option Nat} {accepted : Option SocketParams} (h : Chain s)
    (hhere : s.listeners[i]? = some (.storing index none accepted)) :
    Chain { s with
      listeners := s.listeners.set i (.storing index (some s.listeners.length) accepted) ++
        [.accepting] } := by
  obtain ⟨hroom, hindex, -⟩ := h.next i index none accepted hhere
  have hlt := (List.getElem?_eq_some_iff.mp hhere).1
  -- nobody else is in front of making a thread
  have hlast : i + 1 = s.listeners.length := by
    by_contra hne
    exact h.behind i _ hhere (by omega)
  have hrunning := h.running hhere (by simp)
  have hget (j : Nat) (k : Listener) :
      (s.listeners.set i (.storing index (some s.listeners.length) accepted) ++
        [.accepting])[j]? = some k ↔
      (j = i ∧ k = .storing index (some s.listeners.length) accepted ∨
        j ≠ i ∧ s.listeners[j]? = some k) ∨ j = s.listeners.length ∧ k = .accepting := by
    rw [getElem?_snoc, getElem?_replaced hhere, List.length_set]
  have hlength : (s.listeners.set i (.storing index (some s.listeners.length) accepted) ++
      [Listener.accepting]).length = s.listeners.length + 1 := by simp
  refine { h with
    bounded := ?_, behind := ?_, numb := ?_, untested := ?_, next := ?_, stored := ?_, slots := ?_,
    joined := ?_ }
  · rw [hlength]
    omega
  · intro j k hk hj
    rw [hlength] at hj
    rcases (hget j k).mp hk with (⟨-, rfl⟩ | ⟨hne, hk⟩) | ⟨rfl, -⟩
    · trivial
    · exact h.behind j k hk (by have := (List.getElem?_eq_some_iff.mp hk).1; omega)
    · exact absurd hj (lt_irrefl _)
  · rw [hlength]
    exact h.numb.trans (Nat.le_succ _)
  · intro j k hk hnot
    rcases (hget j k).mp hk with (⟨-, rfl⟩ | ⟨-, hk⟩) | ⟨rfl, -⟩
    · exact absurd trivial hnot
    · exact h.untested j k hk hnot
    · exact h.numb
  · intro j index' thread accepted' hk
    rw [hlength]
    rcases (hget j _).mp hk with (⟨rfl, he⟩ | ⟨-, hk⟩) | ⟨-, he⟩
    · cases he
      exact ⟨hroom, hindex, .inr ⟨by rw [hlast], by omega⟩⟩
    · obtain ⟨hlt', hindex', hthread'⟩ := h.next j index' thread accepted' hk
      exact ⟨hlt', hindex', hthread'.imp_right fun he => ⟨he.1, Nat.lt_succ_of_lt he.2⟩⟩
    · cases he
  · intro j hj
    rw [hlength] at hj
    by_cases hnew : j = s.listeners.length
    · exact .inr (.inr ⟨i, index, accepted, (hget i _).mpr (.inl (.inl ⟨rfl, by rw [hnew]⟩))⟩)
    · refine (h.stored j (by omega)).imp_right (Or.imp_right fun hstoring => ?_)
      obtain ⟨k, index', accepted', hk⟩ := hstoring
      refine ⟨k, index', accepted', (hget k _).mpr (.inl (.inr ⟨?_, hk⟩))⟩
      rintro rfl
      cases hhere.symm.trans hk
  · intro e he
    rw [hlength]
    obtain ⟨heq, hlt', hle, hjoined⟩ := h.slots e he
    exact ⟨heq, Nat.lt_succ_of_lt hlt', hle, hjoined⟩
  · intro j hj k hk
    have hj' : j < s.destructor.joined := hj
    rcases (hget j k).mp hk with (⟨rfl, -⟩ | ⟨-, hk⟩) | ⟨rfl, -⟩
    · omega
    · exact h.joined j hj k hk
    · omega

/-- The pointer of the next thread is stored. -/
theorem Chain.store {index thread : Nat} {accepted : Option SocketParams} (h : Chain s)
    (hhere : s.listeners[i]? = some (.storing (some index) (some thread) accepted)) :
    Chain { s.goTo i (.created accepted) with
      listenThreadP := s.listenThreadP ++ [(index, thread)] } := by
  obtain ⟨hlt, hindex, hthread⟩ := h.next i _ _ accepted hhere
  obtain ⟨rfl, hnumb⟩ : index = i + 1 ∧ i + 1 < s.listenNumb := by simpa using hindex
  obtain ⟨rfl, hmade⟩ : thread = i + 1 ∧ i + 1 < s.listeners.length := by simpa using hthread
  have hrunning := h.running hhere (by simp)
  have hbehind : (Listener.storing (some (i + 1)) (some (i + 1)) accepted).Behind →
      (Listener.created accepted).Behind := id
  refine { h with
    bounded := goTo_length.trans_le h.bounded
    behind := fun _ _ => h.behind_goTo hhere hbehind
    numb := goTo_length.symm ▸ h.numb
    untested := ?_, next := ?_, stored := ?_, slots := ?_
    joined := fun _ hj _ => h.joined_goTo hhere (by simp) hj }
  · intro j k hk hnot
    rcases (getElem?_replaced hhere).mp hk with ⟨-, rfl⟩ | ⟨-, hk⟩
    · exact absurd trivial hnot
    · exact h.untested j k hk hnot
  · intro j index' thread' accepted' hk
    rcases (getElem?_replaced hhere).mp hk with ⟨-, he⟩ | ⟨-, hk⟩
    · cases he
    · rw [goTo_length]
      exact h.next j index' thread' accepted' hk
  · intro j hj
    rw [goTo_length] at hj
    by_cases hnew : j = i + 1
    · exact .inl (by simp [hnew])
    · rcases h.stored j hj with hstored | hjoined | ⟨k, index', accepted', hk⟩
      · exact .inl (List.mem_append_left _ hstored)
      · exact .inr (.inl hjoined)
      · refine .inr (.inr ⟨k, index', accepted', (getElem?_replaced hhere).mpr (.inr ⟨?_, hk⟩)⟩)
        rintro rfl
        cases hhere.symm.trans hk
        exact hnew rfl
  · refine forall_mem_snoc.mpr ⟨?_, rfl, goTo_length.symm ▸ hmade, hnumb, ?_⟩
    · rw [goTo_length]
      exact h.slots
    · exact hrunning.trans (Nat.le_succ i)

/-- The destructor is done with entry `i`: the thread has ended, or there is none. -/
theorem Chain.joins (h : Chain s) (hhere : s.destructor = .joining i)
    (hended : ∀ l, s.listeners[i]? = some l → l = .exited) (slots : List (Nat × Nat))
    (hslots : ∀ e, e ∈ slots ↔ e ∈ s.listenThreadP ∧ e.1 ≠ i) :
    Chain { s with listenThreadP := slots, destructor := .joining (i + 1) } := by
  have hi : s.destructor.joined = i := by rw [hhere]; rfl
  refine { h with stored := ?_, slots := ?_, joined := ?_, recovered := ?_ }
  · intro j hj
    rcases h.stored j hj with hstored | hjoined | hstoring
    · by_cases hne : j = i
      · exact .inr (.inl (by simp [Destructor.joined, hne]))
      · exact .inl ((hslots _).mpr ⟨hstored, hne⟩)
    · exact .inr (.inl (Nat.lt_succ_of_lt (hi ▸ hjoined)))
    · exact .inr (.inr hstoring)
  · intro e he
    obtain ⟨hmem, hne⟩ := (hslots e).mp he
    obtain ⟨heq, hlt, hnumb, hle⟩ := h.slots e hmem
    refine ⟨heq, hlt, hnumb, ?_⟩
    simp only [Destructor.joined]
    omega
  · intro j hj
    rcases Nat.lt_or_eq_of_le (Nat.le_of_lt_succ hj) with hlt | rfl
    · exact h.joined j (hi.symm ▸ hlt)
    · exact hended
  · exact fun _ => h.recovered (by rw [hhere]; rfl)

/-- The destructor goes on elsewhere. -/
theorem Chain.destructor (h : Chain s) {d : Destructor} (hjoined : d.joined = s.destructor.joined)
    (hrecovered : d.recoveryJoined = true → s.recovery = .exited) :
    Chain { s with destructor := d } :=
  { h with
    stored := fun i hi => by
      simp only [hjoined]
      exact h.stored i hi
    slots := fun i hi => by
      simp only [hjoined]
      exact h.slots i hi
    joined := fun i hi => h.joined i (hjoined ▸ hi)
    recovered := hrecovered }

theorem chain_step (h : Chain s) (hs : step s a = some s') (hturn : InTurn s a) : Chain s' := by
  cases step_stepsTo hs with
  | refused hhere | closedDown hhere | tested hhere | full hhere | unaccepted hhere
  | discard hhere =>
    exact h.goTo hhere (by simp) (by simp) (by simp) (by simp [Listener.Tested])
      (by simp [Listener.Behind])
  | @accept i p hhere =>
    have hgo : Chain (s.goTo i (.testing (some p))) :=
      h.goTo hhere (by simp) (by simp) (by simp) (by simp [Listener.Tested])
        (by simp [Listener.Behind])
    exact { hgo with }
  | @create i accepted hhere hroom =>
    have hnumb := (inTurn_listen hhere).mp hturn accepted rfl
    refine h.goTo hhere (by simp) (by simp) ?_ (by simp [Listener.Tested])
      (by simp [Listener.Behind])
    intro index thread accepted' he
    cases he
    exact ⟨hnumb ▸ hroom, rfl, rfl, hnumb⟩
  | @construct i p hhere =>
    have hgo : Chain (s.goTo i (.inserting s.objects.length p)) :=
      h.goTo hhere (by simp) (by simp) (by simp) (by simp [Listener.Tested])
        (by simp [Listener.Behind])
    exact { hgo with }
  | @insert i o p hhere =>
    have hgo : Chain (s.goTo i .exited) :=
      h.goTo hhere (by simp) (by simp) (by simp) (by simp [Listener.Tested])
        (by simp [Listener.Behind])
    exact { hgo with }
  | takeIndex hhere => exact h.takeIndex hhere
  | makeThread hhere => exact h.makeThread hhere
  | store hhere => exact h.store hhere
  | workerExit => exact { h with }
  | take hr | timeOut hr | again hr | found hr | recovered hr =>
    exact { h with recovered := fun hjoined => absurd (h.recovered hjoined) (by simp [hr]) }
  | stop => exact { h with recovered := fun _ => rfl }
  | invalidate hd | closeServer hd | setFlag hd =>
    exact h.destructor (by rw [hd]; rfl) (by simp [Destructor.recoveryJoined])
  | recoveryJoined hd hended => exact h.destructor (by rw [hd]; rfl) fun _ => hended
  | @listenJoined i e hd _ hmem hentry hended =>
    refine h.joins hd (fun l hl => ?_) _ (by simp)
    obtain ⟨heq, -⟩ := h.slots e hmem
    rw [← hentry, heq] at hl
    exact Option.some.inj (hl.symm.trans hended)
  | @noThread i hd _ hnull =>
    refine h.joins hd (fun l hl => ?_) _ fun e => ?_
    · -- a thread whose pointer is not stored has one in front of it that does not wait
      have hlt := (List.getElem?_eq_some_iff.mp hl).1
      rcases h.stored i hlt with hstored | hjoined | ⟨j, index, accepted, hj⟩
      · exact absurd rfl (hnull _ hstored)
      · rw [hd] at hjoined
        exact absurd hjoined (lt_irrefl i)
      · obtain ⟨-, -, hthread⟩ := h.next j index _ accepted hj
        obtain ⟨rfl, -⟩ : i = j + 1 ∧ j + 1 < s.listeners.length := by simpa using hthread
        cases h.joined j (by rw [hd]; exact Nat.lt_succ_self j) _ hj
    · exact ⟨fun he => ⟨he, hnull e he⟩, And.left⟩
  | @allJoined i hd hge =>
    have hi : s.destructor.joined = i := by rw [hd]; rfl
    have hbounded := h.bounded
    refine { h with stored := ?_, slots := ?_, joined := ?_, recovered := ?_ }
    · intro j hj
      exact .inr (.inl (hj.trans_le hbounded))
    · intro e he
      obtain ⟨heq, hlt, -, hle⟩ := h.slots e he
      omega
    · intro j hj
      exact h.joined j (hi.symm ▸ lt_of_lt_of_le hj (Nat.le_of_not_lt hge))
    · exact fun _ => h.recovered (by rw [hd]; rfl)
  | deleteClient hd | finish hd =>
    have hjoined := h.recovered (by rw [hd]; rfl)
    exact { h.destructor (d := .done) (by rw [hd]; rfl) fun _ => hjoined with }
  | clientDeleted hd =>
    have hjoined := h.recovered (by rw [hd]; rfl)
    exact { h.destructor (d := .emptying) (by rw [hd]; rfl) fun _ => hjoined with }

/-! ### The index first -/

/-- The next thread is made when its index is taken. -/
def IndexFirst (s : Threads) : Action → Prop
  | .makeThread i =>
    match s.listeners[i]? with
    | some (.storing none _ _) => False
    | _ => True
  | _ => True

/-- The indices of all threads up to one that has not tested are taken. -/
def Ahead (s : Threads) : Prop :=
  ∀ (i : Nat) (l : Listener), s.listeners[i]? = some l → ¬ l.Tested → i + 1 ≤ s.listenNumb

theorem ahead_goTo (h : Ahead s) (hhere : s.listeners[i]? = some l)
    (htested : ¬ l'.Tested → ¬ l.Tested) : Ahead (s.goTo i l') := by
  intro j k hk hnot
  rcases (getElem?_replaced hhere).mp hk with ⟨rfl, rfl⟩ | ⟨-, hk⟩
  · exact h j l hhere (htested hnot)
  · exact h j k hk hnot

theorem ahead_step (hc : Chain s) (h : Ahead s) (hs : step s a = some s')
    (hfirst : IndexFirst s a) : Ahead s' := by
  cases step_stepsTo hs with
  | refused hhere | closedDown hhere | tested hhere | full hhere | unaccepted hhere
  | discard hhere | create hhere => exact ahead_goTo h hhere (by simp [Listener.Tested])
  | @accept i p hhere =>
    have hgo : Ahead (s.goTo i (.testing (some p))) :=
      ahead_goTo h hhere (by simp [Listener.Tested])
    exact hgo
  | @construct i p hhere =>
    have hgo : Ahead (s.goTo i (.inserting s.objects.length p)) :=
      ahead_goTo h hhere (by simp [Listener.Tested])
    exact hgo
  | @insert i o p hhere =>
    have hgo : Ahead (s.goTo i .exited) := ahead_goTo h hhere (by simp [Listener.Tested])
    exact hgo
  | @takeIndex i thread accepted hhere =>
    have hgo : Ahead (s.goTo i (.storing (some s.listenNumb) thread accepted)) :=
      ahead_goTo h hhere (by simp [Listener.Tested])
    exact fun j k hk hnot => Nat.le_succ_of_le (hgo j k hk hnot)
  | @makeThread i index accepted hhere =>
    obtain ⟨-, hindex, -⟩ := hc.next i index none accepted hhere
    have hi := (List.getElem?_eq_some_iff.mp hhere).1
    have hlast : ¬ i + 1 < s.listeners.length := fun hlt => hc.behind i _ hhere hlt
    -- the maker has the index of the new thread
    have hnumb : i + 1 < s.listenNumb := by
      rcases hindex with ⟨rfl, -⟩ | ⟨-, hlt⟩
      · simp [IndexFirst, hhere] at hfirst
      · exact hlt
    intro j k hk hnot
    rcases getElem?_snoc.mp hk with hk | ⟨rfl, -⟩
    · rcases (getElem?_replaced hhere).mp hk with ⟨rfl, rfl⟩ | ⟨-, hk⟩
      · exact absurd trivial hnot
      · exact h j k hk hnot
    · rw [List.length_set]
      show s.listeners.length + 1 ≤ s.listenNumb
      omega
  | @store i index thread accepted hhere =>
    have hgo : Ahead (s.goTo i (.created accepted)) :=
      ahead_goTo h hhere (by simp [Listener.Tested])
    exact hgo
  | _ => exact h

theorem inTurn_of_ahead (hc : Chain s) (h : Ahead s) : InTurn s a := by
  unfold InTurn
  split
  · split
    · next hhere =>
      have hle := hc.untested _ _ hhere (by simp [Listener.Tested])
      have hge := h _ _ hhere (by simp [Listener.Tested])
      omega
    · trivial
  · trivial

/-- Where the index is taken first every thread takes its turn. -/
theorem inTurn_of_indexFirst {actions : List Action}
    (hfirst : Throughout step (fun s₁ a _ => IndexFirst s₁ a) .started actions) :
    Throughout step (fun s₁ a _ => InTurn s₁ a) .started actions := by
  intro pre a post he s₁ s₂ h₁ _
  rw [he] at hfirst
  have hstarted : Ahead .started := by
    intro i l h hnot
    rcases i with _ | i <;> simp [Threads.started] at h ⊢
  obtain ⟨hc, h⟩ := throughout_invariant (I := fun t => Chain t ∧ Ahead t)
    ⟨chain_started, hstarted⟩
    (fun _ _ _ _ hI hs hP =>
      ⟨chain_step hI.1 hs (inTurn_of_ahead hI.1 hI.2), ahead_step hI.1 hI.2 hs hP⟩)
    h₁ ((throughout_append h₁).mp hfirst).1
  exact inTurn_of_ahead hc h

end RTPVoice.MyProtocol.Teardown
