import Mathlib.Data.List.ProdSigma
import RTPVoice.Framework.Transition
import RTPVoice.MyProtocol.Teardown.Accounts

namespace RTPVoice.MyProtocol.Teardown

open Framework Framework.Transition

/-! ### What is still to be done -/

/-- The steps a thread has in front of it, those of an object it makes included. -/
def Listener.work : Listener → Nat
  | .accepting => 16
  | .testing _ => 15
  | .creating _ => 34
  | .storing index thread _ =>
    15 + (if index = none then 1 else 0) + if thread = none then 17 else 0
  | .created _ => 14
  | .inserting _ _ => 3
  | .exited => 0

def Recovery.work (exitFlag : Bool) : Recovery → Nat
  | .taking => if exitFlag then 2 else 0
  | .taken none => 1
  | .taken (some _) => 3
  | .deleting _ => 2
  | .exited => 0

def Destructor.work : Destructor → Nat
  | .idle => maxListeningCount + 9
  | .closing => maxListeningCount + 8
  | .flagging => maxListeningCount + 7
  | .joiningRecovery => maxListeningCount + 4
  | .joining i => maxListeningCount - i + 3
  | .emptying => 2
  | .deleting _ => 1
  | .done => 0

/-- A bound on the steps that are left once the destructor is called. -/
def Threads.work (s : Threads) : Nat :=
  (s.listeners.map Listener.work).sum + 5 * (2 * s.objects.length - s.exited.length) +
    4 * s.notices + 2 * s.clientmap.length + s.recovery.work s.destructor.exitFlag +
    s.destructor.work

/-- The recovery thread waits for a notice once more. -/
def Action.Idle (s : Threads) (a : Action) : Prop := a = .timeOut ∧ s.destructor.exitFlag = false

variable {s s' : Threads} {a : Action} {i o : Nat} {l : Listener}

theorem Accounts.erase_lt (h : Accounts s) (hdeleting : s.deleting = some o) :
    (s.erase o).clientmap.length < s.clientmap.length := by
  obtain ⟨e, he, rfl⟩ := List.mem_map.mp (h.deleting o hdeleting)
  exact List.length_filter_lt_length_iff_exists.mpr ⟨e, he, by simp⟩

/-- A thread goes on to where less is in front of it. -/
theorem goTo_work (hhere : s.listeners[i]? = some l) {m : Listener} (hless : m.work < l.work) :
    (s.goTo i m).work < s.work := by
  have hsum := sum_replaced (b := m) Listener.work hhere
  simp only [Threads.work, Threads.goTo]
  omega

theorem Accounts.exited_length (h : Accounts s) : s.exited.length ≤ 2 * s.objects.length := by
  have hsub : s.exited ⊆ List.range s.objects.length ×ˢ
      [.parseThreadP, .processClientThreadP] := by
    intro e he
    refine List.pair_mem_product.mpr ⟨List.mem_range.mpr (h.exited_lt e he), ?_⟩
    cases e.2 <;> simp
  have hle := (List.subperm_of_subset h.exited_nodup hsub).length_le
  rw [List.length_product, List.length_range] at hle
  exact hle.trans_eq (Nat.mul_comm _ _)

theorem work_step (hc : Chain s) (h : Accounts s) (hbegun : s.destructor ≠ .idle)
    (hs : step s a = some s') (hidle : ¬ a.Idle s) : s'.work < s.work := by
  cases step_stepsTo hs with
  | refused hhere | closedDown hhere | create hhere | full hhere | unaccepted hhere
  | discard hhere =>
    exact goTo_work hhere (by simp [Listener.work])
  | @accept i p hhere =>
    exact goTo_work (m := .testing (some p)) hhere (by simp [Listener.work])
  | @takeIndex i thread accepted hhere =>
    exact goTo_work (m := .storing (some s.listenNumb) thread accepted) hhere
      (by simp [Listener.work])
  | @store i index thread accepted hhere =>
    exact goTo_work (m := .created accepted) hhere (by simp [Listener.work])
  | tested _ hvalid =>
    cases hd : s.destructor <;> simp [hd, Destructor.serversoc] at hvalid hbegun
  | @makeThread i index accepted hhere =>
    -- the thread it makes has less in front of it than it had itself
    have hsum := sum_replaced (b := .storing index (some s.listeners.length) accepted)
      Listener.work hhere
    simp only [Threads.work, List.map_append, List.sum_append, List.map_singleton,
      List.sum_singleton, Listener.work, reduceCtorEq, if_true, if_false] at hsum ⊢
    omega
  | @construct i p hhere =>
    have hsum := sum_replaced (b := .inserting s.objects.length p) Listener.work hhere
    simp only [Threads.work, Threads.goTo, List.length_append, List.length_singleton,
      Listener.work] at hsum ⊢
    omega
  | @insert i o p hhere hunlocked =>
    have hsum := sum_replaced (b := .exited) Listener.work hhere
    obtain ⟨hdeleting, -⟩ := hc.unlocked hhere (by simp) hunlocked
    rw [h.assign_eq hdeleting hhere]
    simp only [Threads.work, Threads.goTo, List.length_append, List.length_singleton,
      Listener.work] at hsum ⊢
    omega
  | @workerExit o worker notices hlt hrunning hnotices =>
    have hnew : (s.exited ++ [(o, worker)]).length ≤ 2 * s.objects.length :=
      (accounts_step hc h hs).exited_length
    rw [List.length_append, List.length_singleton] at hnew
    simp only [Threads.work, List.length_append, List.length_singleton]
    omega
  | take hr hpermits =>
    simp only [Threads.work, hr, Recovery.work]
    split <;> omega
  | timeOut hr =>
    have hflag : s.destructor.exitFlag = true := by
      by_contra hunset
      exact hidle ⟨rfl, Bool.eq_false_iff.mpr hunset⟩
    simp only [Threads.work, hr, hflag, Recovery.work, if_true]
    omega
  | @stop notice hr =>
    cases notice <;> simp only [Threads.work, hr, Recovery.work] <;> omega
  | @again notice hr hflag =>
    cases notice <;> simp [Threads.work, hr, hflag, Recovery.work]
  | found hr => simp [Threads.work, hr, Recovery.work]
  | @recovered o hr =>
    have hlt := h.erase_lt (o := o) (by simp [Threads.deleting, hr, Recovery.deletes])
    simp only [Threads.work, hr, Recovery.work, Threads.erase] at hlt ⊢
    split <;> omega
  | invalidate hd => exact absurd hd hbegun
  | closeServer hd | allJoined hd | deleteClient hd | finish hd | recoveryJoined hd =>
    simp [Threads.work, hd, Destructor.work, Destructor.exitFlag]
  | setFlag hd =>
    have hle : s.recovery.work true ≤ s.recovery.work false + 2 := by
      rcases s.recovery with _ | (_ | _) | _ | _ <;> simp [Recovery.work]
    simp only [Threads.work, hd, Destructor.work, Destructor.exitFlag]
    omega
  | listenJoined hd hlt | noThread hd hlt =>
    simp only [Threads.work, hd, Destructor.work, Destructor.exitFlag]
    omega
  | @clientDeleted o hd =>
    have hr := hc.recovered (by rw [hd]; rfl)
    have hlt := h.erase_lt (o := o)
      (by simp [Threads.deleting, hr, hd, Recovery.deletes, Destructor.deletes])
    simp only [Threads.work, hd, Destructor.work, Destructor.exitFlag, Threads.erase] at hlt ⊢
    omega

theorem begun_step (hbegun : s.destructor ≠ .idle) (hs : step s a = some s') :
    s'.destructor ≠ .idle := by
  cases step_stepsTo hs <;> first | exact hbegun | simp

/-- Objects are only added. -/
theorem objects_step (hs : step s a = some s') : s.objects <+: s'.objects := by
  cases step_stepsTo hs <;> first | exact List.prefix_rfl | exact List.prefix_append _ _

/-! ### Who goes on -/

/-- What the program does of itself: the threads of an object need not end before its destructor has
closed its socket and set its flag, and `SocketAccept` need not return before the listening socket
is closed. -/
def Action.Forced (s : Threads) : Action → Prop
  | .accept _ accepted => accepted = none ∧ s.destructor.tcpServer = false
  | .workerExit o _ => s.deleting = some o
  | .timeOut => s.destructor.exitFlag = true
  | _ => True

/-- Some thread can take a step of its own. -/
def Threads.CanGoOn (s : Threads) : Prop :=
  ∃ a s', step s a = some s' ∧ a.Forced s ∧ InTurn s a

theorem Action.Forced.not_idle (h : a.Forced s) : ¬ a.Idle s := by
  rintro ⟨rfl, hflag⟩
  cases hflag.symm.trans h

/-- A thread of an object that is being deleted ends, if not both have. -/
theorem Accounts.worker_ends (h : Accounts s) (hdeleting : s.deleting = some o)
    (hrunning : ¬ s.Ended o) : s.CanGoOn := by
  have hlt := h.object_lt (h.deleting o hdeleting)
  by_cases hparse : (o, .parseThreadP) ∈ s.exited
  · have hprocess : (o, .processClientThreadP) ∉ s.exited := fun hmem => hrunning ⟨hparse, hmem⟩
    exact ⟨.workerExit o .processClientThreadP, _, if_pos ⟨hlt, hprocess⟩, hdeleting,
      inTurn_of_ne (by simp)⟩
  · exact ⟨.workerExit o .parseThreadP, _, if_pos ⟨hlt, hparse⟩, hdeleting,
      inTurn_of_ne (by simp)⟩

/-- The recovery thread goes on until it has seen the flag. -/
theorem Accounts.recovery_goes_on (h : Accounts s) (hflag : s.destructor.exitFlag = true)
    (hrunning : s.recovery ≠ .exited) : s.CanGoOn := by
  cases hr : s.recovery with
  | taking =>
    by_cases hpermits : s.notices = 0
    · exact ⟨.timeOut, _, if_pos ⟨hr, hpermits⟩, hflag, inTurn_of_ne (by simp)⟩
    · exact ⟨.take ⟨0, 0⟩, _, if_pos ⟨hr, hpermits⟩, trivial, inTurn_of_ne (by simp)⟩
  | taken notice =>
    have hs : step s .recover = some { s with recovery := .exited } := by
      simp only [step, Threads.recover, hr, hflag, if_true]
    exact ⟨.recover, _, hs, trivial, inTurn_of_ne (by simp)⟩
  | deleting o =>
    by_cases hended : s.Ended o
    · have hs : step s .recover = some { s.erase o with recovery := .taking } := by
        simp only [step, Threads.recover, hr, if_pos hended]
      exact ⟨.recover, _, hs, trivial, inTurn_of_ne (by simp)⟩
    · exact h.worker_ends (by simp [Threads.deleting, hr, Recovery.deletes]) hended
  | exited => exact absurd hr hrunning

/-- Without a listening socket a listening thread goes on until it ends. Its own index is taken, so
that its turn has come. -/
theorem Chain.listener_goes_on (h : Chain s) (hhere : s.listeners[i]? = some l)
    (hrunning : l ≠ .exited) (hnumb : i < s.listenNumb) (hserver : s.destructor.tcpServer = false)
    (hr : s.recovery = .exited) : s.CanGoOn := by
  have hlisten {s' : Threads} (hs : s.listen i l = some s')
      (hl : ∀ accepted, l ≠ .creating accepted) : s.CanGoOn := by
    refine ⟨.listen i, s', by rw [step, hhere, Option.bind_some, hs], trivial, ?_⟩
    exact (inTurn_listen hhere).mpr fun accepted he => absurd he (hl accepted)
  cases l with
  | accepting => exact ⟨.accept i none, _, if_pos hhere, ⟨rfl, hserver⟩, inTurn_of_ne (by simp)⟩
  | testing accepted => exact hlisten rfl (by simp)
  | creating accepted =>
    have hle := h.untested i _ hhere (by simp [Listener.Tested])
    refine ⟨.listen i, _, by rw [step, hhere]; rfl, trivial, ?_⟩
    exact (inTurn_listen hhere).mpr fun _ _ => by omega
  | storing index thread accepted =>
    obtain ⟨hlt, hindex, -⟩ := h.next i index thread accepted hhere
    rcases index with _ | index
    · exact ⟨.takeIndex i, _, by rw [step, hhere]; rfl, trivial, inTurn_of_ne (by simp)⟩
    rcases thread with _ | thread
    · exact ⟨.makeThread i, _, by rw [step, hhere]; rfl, trivial, inTurn_of_ne (by simp)⟩
    obtain ⟨rfl, -⟩ : index = i + 1 ∧ i + 1 < s.listenNumb := by simpa using hindex
    exact hlisten (if_pos hlt) (by simp)
  | created accepted =>
    cases accepted with
    | none => exact hlisten rfl (by simp)
    | some p =>
      obtain ⟨s', hs⟩ : ∃ s', s.listen i (.created (some p)) = some s' := by
        simp only [Threads.listen]
        split <;> exact ⟨_, rfl⟩
      exact hlisten hs (by simp)
  | inserting o p =>
    obtain ⟨s', hs⟩ : ∃ s', s.listen i (.inserting o p) = some s' := by
      simp only [Threads.listen, hr]
      exact ⟨_, rfl⟩
    exact hlisten hs (by simp)
  | exited => exact absurd rfl hrunning

/-- Until the destructor is done some thread goes on. -/
theorem destructor_goes_on (hc : Chain s) (h : Accounts s) (hbegun : s.destructor ≠ .idle)
    (hrunning : s.destructor ≠ .done) : s.CanGoOn := by
  have hdestroy (hs : s.destroy.isSome) : s.CanGoOn := by
    obtain ⟨s', hs⟩ := Option.isSome_iff_exists.mp hs
    exact ⟨.destroy, s', hs, trivial, inTurn_of_ne (by simp)⟩
  cases hd : s.destructor with
  | idle => exact absurd hd hbegun
  | done => exact absurd hd hrunning
  | closing | flagging => exact hdestroy (by simp [Threads.destroy, hd])
  | joiningRecovery =>
    by_cases hended : s.recovery = .exited
    · exact hdestroy (by simp [Threads.destroy, hd, hended])
    · exact h.recovery_goes_on (by rw [hd]; rfl) hended
  | joining i =>
    by_cases hwaits : ∃ e ∈ s.listenThreadP, e.1 = i ∧ s.listeners[e.2]? ≠ some .exited
    · obtain ⟨e, hmem, -, hrunning⟩ := hwaits
      obtain ⟨heq, hlt, hnumb, -⟩ := hc.slots e hmem
      have hhere := List.getElem?_eq_getElem hlt
      exact hc.listener_goes_on hhere (fun he => hrunning (hhere.trans (congrArg some he)))
        (heq ▸ hnumb) (by rw [hd]; rfl) (hc.recovered (by rw [hd]; rfl))
    · push Not at hwaits
      refine hdestroy ?_
      simp only [Threads.destroy, hd]
      split
      · split
        · rfl
        · next e hfind =>
          have hentry := List.find?_some hfind
          simp [hwaits e (List.mem_of_find?_eq_some hfind) (of_decide_eq_true hentry)]
      · rfl
  | emptying =>
    refine hdestroy ?_
    simp only [Threads.destroy, hd]
    split <;> rfl
  | deleting o =>
    by_cases hended : s.Ended o
    · exact hdestroy (by simp [Threads.destroy, hd, hended])
    · have hr := hc.recovered (by rw [hd]; rfl)
      refine h.worker_ends ?_ hended
      simp [Threads.deleting, hr, hd, Recovery.deletes, Destructor.deletes]

/-! ### Runs -/

theorem run_kept {actions : List Action} (hrun : run step .started actions = some s)
    (hturn : Throughout step (fun s₁ a _ => InTurn s₁ a) .started actions) :
    Chain s ∧ Accounts s := by
  refine throughout_invariant (I := fun s => Chain s ∧ Accounts s)
    ⟨chain_started, accounts_started⟩ ?_ hrun hturn
  exact fun _ _ _ _ hI hs hP => ⟨chain_step hI.1 hs hP, accounts_step hI.1 hI.2 hs⟩

/-- What holds once the destructor is called. -/
structure Ending (s : Threads) : Prop where
  chain : Chain s
  accounts : Accounts s
  begun : s.destructor ≠ .idle

theorem ending_step (h : Ending s) (hs : step s a = some s') (hgoesOn : ¬ a.Idle s ∧ InTurn s a) :
    Ending s' ∧ s'.work < s.work :=
  ⟨⟨chain_step h.chain hs hgoesOn.2, accounts_step h.chain h.accounts hs, begun_step h.begun hs⟩,
    work_step h.chain h.accounts h.begun hs hgoesOn.1⟩

/-- Two clients are connected when the destructor is called; the second one came before the first
listening thread had its index. -/
private def connect : List Action :=
  [.accept 0 (some ⟨7, 1000⟩), .listen 0, .listen 0, .makeThread 0, .accept 1 (some ⟨9, 2000⟩),
    .listen 1, .takeIndex 0, .listen 1, .listen 0, .takeIndex 1, .makeThread 1, .listen 1,
    .listen 0, .listen 0, .listen 1, .listen 1, .destroy]

private theorem connect_run : ∃ s, run step .started connect = some s ∧
    Throughout step (fun s₁ a _ => InTurn s₁ a) .started connect ∧
    s.destructor = .closing ∧ s.objects = [⟨7, 1000⟩, ⟨9, 2000⟩] := by
  refine ⟨_, rfl, ?_, rfl, rfl⟩
  unfold connect
  iterate 17 refine (throughout_cons rfl).mpr ⟨by decide, ?_⟩
  exact throughout_nil _ _

/-- From there every thread goes on until the destructor is done. -/
private theorem connect_ends : ∃ s more s', run step .started connect = some s ∧
    Throughout step (fun s₁ a _ => InTurn s₁ a) .started connect ∧
    s.destructor ≠ .idle ∧ run step s more = some s' ∧
    Throughout step (fun s₁ a _ => ¬ Action.Idle s₁ a ∧ InTurn s₁ a) s more ∧
    s'.destructor = .done := by
  obtain ⟨s, hrun, hturn, hd, -⟩ := connect_run
  have hbegun : s.destructor ≠ .idle := by simp [hd]
  obtain ⟨hchain, haccounts⟩ := run_kept hrun hturn
  have hnext : ∀ s, Ending s → ¬ s.destructor = .done →
      ∃ a s', step s a = some s' ∧ ¬ Action.Idle s a ∧ InTurn s a := by
    intro s h hrunning
    obtain ⟨a, s', hs, hforced, hturn⟩ :=
      destructor_goes_on h.chain h.accounts h.begun hrunning
    exact ⟨a, s', hs, hforced.not_idle, hturn⟩
  obtain ⟨more, s', hmore, hgoesOn, -, hdone⟩ := run_until Threads.work
    (fun _ _ _ => ending_step) hnext ⟨hchain, haccounts, hbegun⟩
  exact ⟨s, more, s', hrun, hturn, hbegun, hmore, hgoesOn, hdone⟩

/-! ### The destructor -/

/-- However the threads of the server and of its clients interleave with it, the destructor leaves
no thread running and no client behind if the listening threads take their turns: when it is done
all listening threads and the recovery thread have ended, no pointer to a thread is left, and every
object that was ever made is deleted once, both its threads ended. -/
theorem destructor_leaves_nothing (actions : List Action) (s : Threads)
    (hrun : run step .started actions = some s)
    (hturn : Throughout step (fun s₁ a _ => InTurn s₁ a) .started actions)
    (hdone : s.destructor = .done) :
    (∀ l ∈ s.listeners, l = .exited) ∧ s.listenThreadP = [] ∧ s.recovery = .exited ∧
    s.clientmap = [] ∧ s.deleted.Perm (List.range s.objects.length) ∧
    ∀ o < s.objects.length, s.Ended o := by
  obtain ⟨hc, h⟩ := run_kept hrun hturn
  have hjoined : s.destructor.joined = maxListeningCount := by rw [hdone]; rfl
  have hended : ∀ l ∈ s.listeners, l = .exited := by
    intro l hl
    obtain ⟨i, hi⟩ := List.mem_iff_getElem?.mp hl
    have hlt := (List.getElem?_eq_some_iff.mp hi).1
    exact hc.joined i (hjoined ▸ hlt.trans_le hc.bounded) l hi
  have hnone : s.listeners.filterMap Listener.object = [] := by
    refine List.filterMap_eq_nil_iff.mpr fun l hl => ?_
    rw [hended l hl]
    rfl
  have hempty := h.emptied hdone
  have hdeleted : s.deleted.Perm (List.range s.objects.length) := by
    have hobjects := h.objects
    rwa [Threads.kept, hnone, hempty] at hobjects
  refine ⟨hended, ?_, hc.recovered (by rw [hdone]; rfl), hempty, hdeleted, fun o ho => ?_⟩
  · refine List.eq_nil_iff_forall_not_mem.mpr fun e he => ?_
    obtain ⟨heq, hlt, -, hle⟩ := hc.slots e he
    have hbounded := hc.bounded
    omega
  · exact h.ended o (hdeleted.mem_iff.mpr (List.mem_range.mpr ho))

/-- The objects of two clients are deleted. -/
theorem destructor_leaves_nothing_connect : ∃ actions s, run step .started actions = some s ∧
    s.destructor = .done ∧ 2 ≤ s.objects.length ∧ s.deleted.Perm (List.range s.objects.length) := by
  obtain ⟨s, more, s', hrun, hturn, -, hmore, hgoesOn, hdone⟩ := connect_ends
  obtain ⟨s₀, hrun₀, -, -, hobjects⟩ := connect_run
  obtain rfl := Option.some.inj (hrun₀.symm.trans hrun)
  have hall : run step .started (connect ++ more) = some s' := by
    rw [run_append, hrun, Option.bind_some, hmore]
  have hturns : Throughout step (fun s₁ a _ => InTurn s₁ a) .started (connect ++ more) :=
    (throughout_append hrun).mpr
      ⟨hturn, fun pre a post he s₁ s₂ h₁ h₂ => (hgoesOn pre a post he s₁ s₂ h₁ h₂).2⟩
  have hkept : 2 ≤ s'.objects.length := by
    refine run_invariant (I := fun t => 2 ≤ t.objects.length) (by simp [hobjects]) ?_ hmore
    exact fun s₁ a s₂ _ hle hs => hle.trans (objects_step hs).length_le
  obtain ⟨-, -, -, -, hdeleted, -⟩ := destructor_leaves_nothing _ s' hall hturns hdone
  exact ⟨_, s', hall, hdone, hkept, hdeleted⟩

/-- Entries that are `NULL` are passed. -/
theorem run_noThreads {n : Nat} (hd : s.destructor = .joining i)
    (hnull : ∀ e ∈ s.listenThreadP, e.1 < i) (hn : i + n ≤ maxListeningCount) :
    run step s (List.replicate n .destroy) = some { s with destructor := .joining (i + n) } := by
  induction n generalizing i s with
  | zero => rw [List.replicate_zero, run_nil, Nat.add_zero, ← hd]
  | succ n ih =>
    have hfind : s.listenThreadP.find? (fun e => e.1 = i) = none := by
      refine List.find?_eq_none.mpr fun e he => ?_
      simpa using Nat.ne_of_lt (hnull e he)
    have hs : step s .destroy = some { s with destructor := .joining (i + 1) } := by
      simp only [step, Threads.destroy, hd, hfind, if_pos (show i < maxListeningCount by omega)]
    have hrest := ih (s := { s with destructor := .joining (i + 1) }) rfl
      (fun e he => Nat.lt_succ_of_lt (hnull e he)) (by omega)
    rw [List.replicate_succ, run_cons, hs, Option.bind_some, hrest, Nat.add_assoc, Nat.add_comm 1]

/-- The second thread is there before the first one has its index, and takes that of the first for
the third, which it stores when the destructor has passed there. -/
private def overtake : List Action :=
  [.accept 0 none, .listen 0, .listen 0, .makeThread 0, .accept 1 none, .listen 1, .listen 1,
    .takeIndex 1, .makeThread 1, .takeIndex 0, .listen 0, .listen 0, .destroy, .destroy, .destroy,
    .timeOut, .recover, .destroy, .destroy, .destroy, .listen 1, .listen 1, .destroy]

private theorem overtake_run : ∃ s, run step .started overtake = some s ∧
    s.destructor = .joining 3 ∧ s.listenThreadP = [(1, 2)] ∧ s.clientmap = [] ∧
    .accepting ∈ s.listeners := ⟨_, rfl, rfl, rfl, rfl, by decide⟩

/-- Out of turn a listening thread can be missed: the destructor is done, and it still runs. -/
theorem destructor_misses_thread : ∃ actions s, run step .started actions = some s ∧
    s.destructor = .done ∧ .accepting ∈ s.listeners := by
  obtain ⟨s, hrun, hd, hslots, hempty, hmem⟩ := overtake_run
  have hpassed := run_noThreads (n := maxListeningCount - 3) hd (by simp [hslots]) (by decide)
  let s₁ : Threads := { s with destructor := .joining (3 + (maxListeningCount - 3)) }
  have hall : step s₁ .destroy = some { s with destructor := .emptying } := by
    simp only [step, Threads.destroy, s₁]
    exact if_neg (by decide)
  have hlast : step { s with destructor := .emptying } .destroy =
      some { s with destructor := .done } := by
    simp [step, Threads.destroy, hempty, Threads.begin]
  refine ⟨overtake ++ (List.replicate (maxListeningCount - 3) .destroy ++ [.destroy, .destroy]),
    { s with destructor := .done }, ?_, rfl, hmem⟩
  rw [run_append, hrun, Option.bind_some, run_append, hpassed, Option.bind_some, run_cons, hall,
    Option.bind_some, run_cons, hlast, Option.bind_some, run_nil]

/-- Once the destructor is called it ends: whatever the threads do in their turns, short of waiting
for a notice in vain, only so many steps are left, and until it is done some thread has one to take
that needs no client's doing. -/
theorem destructor_ends (actions more : List Action) (s s' : Threads)
    (hrun : run step .started actions = some s)
    (hturn : Throughout step (fun s₁ a _ => InTurn s₁ a) .started actions)
    (hbegun : s.destructor ≠ .idle) (hmore : run step s more = some s')
    (hgoesOn : Throughout step (fun s₁ a _ => ¬ Action.Idle s₁ a ∧ InTurn s₁ a) s more) :
    more.length + s'.work ≤ s.work ∧ (s'.destructor = .done ∨ s'.CanGoOn) := by
  obtain ⟨hc, h⟩ := run_kept hrun hturn
  obtain ⟨h', hle⟩ := run_work (I := Ending)
    (P := fun s₁ a _ => ¬ Action.Idle s₁ a ∧ InTurn s₁ a) Threads.work
    (fun _ _ _ => ending_step) ⟨hc, h, hbegun⟩ hmore hgoesOn
  refine ⟨hle, ?_⟩
  by_cases hdone : s'.destructor = .done
  · exact .inl hdone
  · exact .inr (destructor_goes_on h'.chain h'.accounts h'.begun hdone)

/-- The destructor is called with two clients connected. -/
theorem destructor_ends_connect : ∃ s more s', run step .started connect = some s ∧
    run step s more = some s' ∧ more.length + s'.work ≤ s.work ∧ s'.destructor = .done := by
  obtain ⟨s, more, s', hrun, hturn, hbegun, hmore, hgoesOn, hdone⟩ := connect_ends
  exact ⟨s, more, s', hrun, hmore,
    (destructor_ends _ _ s s' hrun hturn hbegun hmore hgoesOn).1, hdone⟩

end RTPVoice.MyProtocol.Teardown
