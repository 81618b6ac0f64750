import RTPVoice.MyProtocol.Recovery

namespace RTPVoice.MyProtocol

open Framework Framework.Transition

/-- The step is the last one of a run of `ListenThreadFunc`. -/
def Ends (s : Server) : Action → Prop
  | .acceptFail | .insert _ => True
  | .construct _ => ¬ s.listenNumb < maxListeningCount
  | _ => False

/-- The socket that the listening thread taking this step has accepted. -/
def client? (s : Server) : Action → Option SocketParams
  | .construct p => some p
  | .insert o => s.objects[o]?
  | _ => none

/-- Where a run of `ListenThreadFunc` ends there is a further listening thread, and the socket the
run accepted is a registered client's or closed. -/
def Served (s : Server) (a : Action) (s₂ : Server) : Prop :=
  Ends s a → 0 < s₂.listening ∧
    ∀ p, client? s a = some p → (∃ o, (p, o) ∈ s₂.clientmap) ∨ p.socketFd ∉ s₂.openFds

def Action.returnsFromAccept : Action → Bool
  | .accept _ | .acceptFail => true
  | _ => false

/-- How often `SocketAccept` has returned. -/
def accepts (actions : List Action) : Nat := actions.countP Action.returnsFromAccept

/-- What each step of a listening thread may have behind it: at the limit the accept that fails
leaves no listening thread, and the test drops the socket. -/
def InTime (accepts : Nat) : Action → Prop
  | .acceptFail | .construct _ => accepts + 1 < maxListeningCount
  | .insert _ => accepts < maxListeningCount
  | _ => True

/-- `listen_numb` is one more than the number of accepts, up to its limit. -/
structure Counted (s : Server) (accepts : Nat) : Prop where
  sound : Sound s
  listenNumb : s.listenNumb = min (accepts + 1) maxListeningCount
  listening : s.listening = if accepts < maxListeningCount then 1 else 0

variable {s s' s₂ : Server} {p : SocketParams} {a : Action} {n : Nat}

theorem inTime_of_lt (a : Action) (h : n + 1 < maxListeningCount) : InTime n a := by
  cases a with
  | acceptFail | construct => exact h
  | insert => exact Nat.lt_of_succ_lt h
  | accept | readerExit | dequeue | recover => trivial

theorem counted_started : Counted .started 0 := ⟨sound_started, rfl, rfl⟩

/-- Nothing but an accept changes `listen_numb` or the threads in it. -/
theorem listen_step (hs : step s a = some s') (ha : ∀ p, a ≠ .accept p) (hf : a ≠ .acceptFail) :
    s'.listenNumb = s.listenNumb ∧ s'.listening = s.listening := by
  cases step_stepsTo hs with
  | accept p => exact absurd rfl (ha p)
  | acceptFail => exact absurd rfl hf
  | construct p =>
    unfold Server.construct
    split <;> exact ⟨rfl, rfl⟩
  | insert | readerExit | dequeue => exact ⟨rfl, rfl⟩
  | recover n =>
    unfold Server.recover
    split <;> exact ⟨rfl, rfl⟩

theorem Counted.quiet (h : Counted s n) (hs : step s a = some s')
    (ha : ∀ p, a ≠ .accept p) (hf : a ≠ .acceptFail) : Counted s' n := by
  obtain ⟨hnumb, hlistening⟩ := listen_step hs ha hf
  exact ⟨sound_step h.sound hs, by rw [hnumb, h.listenNumb], by rw [hlistening, h.listening]⟩

theorem Counted.listening_iff (h : Counted s n) : 0 < s.listening ↔ n < maxListeningCount := by
  rw [h.listening]
  split
  · next hlt => exact iff_of_true Nat.one_pos hlt
  · next hge => exact iff_of_false (Nat.lt_irrefl 0) hge

/-- The thread that was in the accept is replaced as long as the limit is not reached. -/
theorem createListenThread_counts (hlt : n < maxListeningCount)
    (hn : s.listenNumb = n + 1) (hl : s.listening = 0) :
    s.createListenThread.listenNumb = min (n + 1 + 1) maxListeningCount ∧
    s.createListenThread.listening = if n + 1 < maxListeningCount then 1 else 0 := by
  unfold Server.createListenThread
  rw [hn]
  split
  · next h => exact ⟨(Nat.min_eq_left h).symm, by simp only [hl]⟩
  · next h => exact ⟨by rw [hn]; omega, hl⟩

theorem Counted.accept (h : Counted s n) (hl : 0 < s.listening)
    (hfresh : p.socketFd ∉ s.openFds) : Counted (s.accept p) (n + 1) := by
  have hlt := h.listening_iff.mp hl
  have hn : s.listenNumb = n + 1 := h.listenNumb.trans (Nat.min_eq_left hlt)
  have hone : s.listening - 1 = 0 := by rw [h.listening, if_pos hlt]
  obtain ⟨hnumb, hlistening⟩ := createListenThread_counts (s := { s with
    listening := s.listening - 1
    openFds := s.openFds ++ [p.socketFd]
    accepted := s.accepted ++ [p] }) hlt hn hone
  exact ⟨h.sound.accept hfresh, hnumb, hlistening⟩

theorem Counted.acceptFail (h : Counted s n) (hl : 0 < s.listening) :
    Counted s.acceptFail (n + 1) := by
  have hlt := h.listening_iff.mp hl
  have hn : s.listenNumb = n + 1 := h.listenNumb.trans (Nat.min_eq_left hlt)
  have hone : s.listening - 1 = 0 := by rw [h.listening, if_pos hlt]
  obtain ⟨hnumb, hlistening⟩ := createListenThread_counts
    (s := { s with listening := s.listening - 1 }) hlt hn hone
  exact ⟨h.sound.acceptFail, hnumb, hlistening⟩

/-- At the limit the socket accepted is neither registered nor closed. -/
theorem construct_dropped (h : Sound s) (hlt : ¬ s.listenNumb < maxListeningCount)
    (hp : p ∈ s.accepted) : ¬ ((∃ o, (p, o) ∈ (s.construct p).clientmap) ∨
      p.socketFd ∉ (s.construct p).openFds) := by
  rw [Server.construct, if_neg hlt]
  intro hserved
  cases hserved with
  | inl hentry =>
    obtain ⟨o, ho⟩ := hentry
    exact h.accepted_unowned p hp o p (h.entry_alive (p, o) ho) rfl
  | inr hclosed => exact hclosed (h.accepted_open p hp)

/-- An accept raises `listen_numb` and leaves a further listening thread; no other step does
either. -/
theorem Counted.step (h : Counted s n) (hs : step s a = some s₂) :
    Counted s₂ (n + if a.returnsFromAccept then 1 else 0) := by
  cases a with
  | accept p =>
    cases step_stepsTo hs with
    | accept _ hl hfresh => exact h.accept hl hfresh
  | acceptFail =>
    cases step_stepsTo hs with
    | acceptFail hl => exact h.acceptFail hl
  | construct | insert | readerExit | dequeue | recover => exact h.quiet hs (by simp) (by simp)

theorem Counted.listenNumb_lt_iff (h : Counted s n) :
    s.listenNumb < maxListeningCount ↔ n + 1 < maxListeningCount := by
  rw [h.listenNumb]
  omega

theorem served_iff (h : Counted s n) (hs : step s a = some s₂) : Served s a s₂ ↔ InTime n a := by
  have hcount := h.step hs
  cases a with
  | accept | readerExit | dequeue | recover => exact iff_of_true False.elim trivial
  | acceptFail =>
    have hlistening : 0 < s₂.listening ↔ n + 1 < maxListeningCount := hcount.listening_iff
    constructor
    · exact fun hserved => hlistening.mp (hserved trivial).1
    · exact fun hlt _ => ⟨hlistening.mpr hlt, by simp [client?]⟩
  | construct p =>
    rw [InTime, ← h.listenNumb_lt_iff]
    cases step_stepsTo hs with
    | construct _ hp =>
      constructor
      · intro hserved
        by_contra hlt
        exact construct_dropped h.sound hlt hp ((hserved hlt).2 p rfl)
      · exact fun hlt hends => absurd hlt hends
  | insert o =>
    have hlistening : 0 < s₂.listening ↔ n < maxListeningCount := hcount.listening_iff
    cases step_stepsTo hs with
    | insert _ p ho hp =>
      constructor
      · exact fun hserved => hlistening.mp (hserved trivial).1
      · refine fun hlt _ => ⟨hlistening.mpr hlt, fun q hq => .inl ⟨o, ?_⟩⟩
        obtain rfl : p = q := Option.some.inj (hp.symm.trans hq)
        rw [h.sound.assign_eq ho hp]
        simp

theorem counted_run {actions : List Action} (hrun : run step .started actions = some s) :
    Counted s (accepts actions) := by
  induction actions using List.reverseRecOn generalizing s with
  | nil =>
    obtain rfl := Option.some.inj hrun
    exact counted_started
  | append_singleton actions a ih =>
    rw [run_snoc] at hrun
    obtain ⟨s₁, h₁, h₂⟩ := Option.bind_eq_some_iff.mp hrun
    have hcount := (ih h₁).step h₂
    rwa [accepts, List.countP_append, List.countP_singleton]

/-- The server keeps serving, whatever the order in which its threads get on, precisely as long as
no accept later than number 65534 fails, and no thread comes to its test of `listen_numb` behind
that accept or to its insertion behind the next one. -/
theorem serves_throughout_iff (actions : List Action) (s : Server)
    (hrun : run step .started actions = some s) :
    Throughout step Served .started actions ↔
      ∀ pre a post, actions = pre ++ a :: post → InTime (accepts pre) a := by
  refine forall_congr' fun pre => forall_congr' fun a => forall_congr' fun post =>
    imp_congr_right fun he => ?_
  rw [he, run_append] at hrun
  obtain ⟨s₁, h₁, hrest⟩ := Option.bind_eq_some_iff.mp hrun
  obtain ⟨s₂, h₂, -⟩ := Option.bind_eq_some_iff.mp hrest
  have hserved := served_iff (counted_run h₁) h₂
  constructor
  · exact fun h => hserved.mp (h s₁ s₂ h₁ h₂)
  · intro hin s₁' s₂' h₁' h₂'
    cases h₁.symm.trans h₁'
    cases h₂.symm.trans h₂'
    exact hserved.mpr hin

/-- A server on which every accept fails. -/
theorem run_failures (n : Nat) (h : n ≤ maxListeningCount) : ∃ s,
    run step .started (List.replicate n .acceptFail) = some s ∧
    Counted s n ∧ s.openFds = [] ∧ s.clientmap = [] := by
  induction n with
  | zero => exact ⟨.started, rfl, counted_started, rfl, rfl⟩
  | succ n ih =>
    obtain ⟨s, hrun, hcount, hopen, hmap⟩ := ih (by omega)
    have hl : 0 < s.listening := hcount.listening_iff.mpr (by omega)
    refine ⟨s.acceptFail, ?_, hcount.acceptFail hl, ?_, ?_⟩
    · rw [List.replicate_succ', run_snoc, hrun, Option.bind_some]
      exact if_pos hl
    · rw [← hopen]
      unfold Server.acceptFail Server.createListenThread
      split <;> rfl
    · rw [(sameClients_acceptFail s).clientmap, hmap]

theorem mem_accepted (s : Server) (p : SocketParams) : p ∈ (s.accept p).accepted := by
  unfold Server.accept Server.createListenThread
  split <;> simp

/-- After 65533 accepts that fail, a client that connects is dropped although there is no other. -/
theorem client_dropped : ∃ s,
    run step .started (List.replicate 65533 .acceptFail ++
      [.accept ⟨100, 50000⟩, .construct ⟨100, 50000⟩]) = some s ∧ s.clientmap = [] ∧
    ¬ Throughout step Served .started (List.replicate 65533 .acceptFail ++
      [.accept ⟨100, 50000⟩, .construct ⟨100, 50000⟩]) := by
  obtain ⟨s, hrun, hcount, hopen, hmap⟩ := run_failures 65533 (by decide)
  have hl : 0 < s.listening := hcount.listening_iff.mpr (by decide)
  have hfresh : (⟨100, 50000⟩ : SocketParams).socketFd ∉ s.openFds := by simp [hopen]
  have haccept : step s (.accept ⟨100, 50000⟩) = some (s.accept ⟨100, 50000⟩) :=
    if_pos ⟨hl, by decide, hfresh⟩
  have hconstruct : step (s.accept ⟨100, 50000⟩) (.construct ⟨100, 50000⟩) = _ :=
    if_pos (mem_accepted s _)
  have hrun' : run step .started (List.replicate 65533 .acceptFail ++ [.accept ⟨100, 50000⟩]) =
      some (s.accept ⟨100, 50000⟩) := by
    rw [run_snoc, hrun, Option.bind_some, haccept]
  refine ⟨_, by rw [List.append_cons, run_snoc, hrun', Option.bind_some, hconstruct], ?_,
    fun h => ?_⟩
  · rw [(sameClients_construct _ _).clientmap, (sameClients_accept _ _).clientmap, hmap]
  · rw [List.append_cons] at h
    have hserved := ((throughout_snoc hrun').mp h).2 _ hconstruct
    have hlate := (served_iff (hcount.accept hl hfresh) hconstruct).mp hserved
    simp [InTime, maxListeningCount] at hlate

/-- Two clients and an accept that fails; the first client's thread is overtaken twice. -/
theorem serves_throughout_iff_two : ∃ s, run step .started
      [.accept ⟨100, 50000⟩, .acceptFail, .construct ⟨100, 50000⟩, .accept ⟨104, 50001⟩,
        .construct ⟨104, 50001⟩, .insert 1, .insert 0, .readerExit 0, .dequeue, .recover] =
        some s ∧
    s.clientmap = [(⟨104, 50001⟩, 1)] ∧ s.openFds = [104] ∧
    Throughout step Served .started
      [.accept ⟨100, 50000⟩, .acceptFail, .construct ⟨100, 50000⟩, .accept ⟨104, 50001⟩,
        .construct ⟨104, 50001⟩, .insert 1, .insert 0, .readerExit 0, .dequeue, .recover] := by
  refine ⟨_, rfl, rfl, rfl, (serves_throughout_iff _ _ rfl).mpr fun pre a post he => ?_⟩
  have hlen : accepts pre ≤ 10 := by
    have hle : pre.length ≤ 10 := by
      rw [show 10 = (pre ++ a :: post).length by rw [← he]; rfl]
      simp
    exact Nat.le_trans List.countP_le_length hle
  exact inTime_of_lt a (by simp only [maxListeningCount]; omega)

end RTPVoice.MyProtocol
