import RTPVoice.FifoQueue.Slotted

namespace RTPVoice.FifoQueue

open Framework Framework.Transition

variable {s s' : System} {a : Action} {op : Operation}

/-! ### Any number of threads -/

/-- Every permit, and every thread on its way with or to one, stands for a packet in `m_list`. A
post refused at the limit only leaves packets without a permit. -/
def Backed (s : System) : Prop :=
  s.queue.queuesem + s.posting + s.holding + s.passed ≤ s.queue.mList.length ∧ s.abandoned = 0

theorem backed_fresh : Backed .fresh := ⟨le_rfl, rfl⟩

theorem backed_step (h : Backed s) (hs : step s a = some s') : Backed s' := by
  obtain ⟨hle, hab⟩ := h
  cases step_stepsTo hs with
  | store hstore =>
    obtain ⟨⟨sBuffer, hlist⟩, hsem⟩ := store_mList hstore
    refine ⟨?_, hab⟩
    simp only [hlist, hsem, List.length_append, List.length_singleton]
    omega
  | semPost hposting =>
    refine ⟨?_, hab⟩
    simp only [semPost]
    omega
  | semWait hpermits =>
    refine ⟨?_, hab⟩
    dsimp only
    omega
  | timeOut => exact ⟨hle, hab⟩
  | abandon hholding hempty =>
    -- a thread in front of the test is one of the list's
    rw [hempty, List.length_nil] at hle
    omega
  | test hholding =>
    refine ⟨?_, hab⟩
    dsimp only
    omega
  | pop hpassed hpop =>
    obtain ⟨⟨sBuffer, hlist⟩, hsem, -⟩ := popFront_mList hpop
    refine ⟨?_, hab⟩
    rw [hlist, List.length_cons] at hle
    dsimp only
    omega

/-- However the threads interleave, one that has its permit finds a packet at its test and at its
pop, and none was ever sent away for want of one. -/
theorem takers_find_packets (actions : List Action) (s : System)
    (hrun : run step .fresh actions = some s) :
    s.abandoned = 0 ∧ (0 < s.holding → s.queue.mList ≠ []) ∧
      (0 < s.passed → s.queue.mList ≠ []) := by
  obtain ⟨hle, hab⟩ :=
    run_invariant backed_fresh (fun _ _ _ _ h hs => backed_step h hs) hrun
  refine ⟨hab, ?_, ?_⟩
  · intro hholding hempty
    rw [hempty, List.length_nil] at hle
    omega
  · intro hpassed hempty
    rw [hempty, List.length_nil] at hle
    omega

/-- Two threads that push and two that take, of which one has its packet and one is in front of its
test. -/
theorem run_four_threads : ∃ s, run step .fresh
      [.store [7], .store [8], .semPost, .semWait, .semPost, .semWait, .test, .pop] = some s ∧
    s.holding = 1 ∧ s.taken.length = 1 := by
  obtain ⟨q₁, h₁, hlist₁, hsem₁⟩ := store_steps shape_fresh (p := [7]) (by decide)
  obtain ⟨hshape, -⟩ := store_ring shape_fresh (by decide) h₁
  obtain ⟨q₂, h₂, hlist₂, hsem₂⟩ := store_steps hshape (p := [8]) (by decide)
  have hlist : q₂.mList = [address 0, address 1] := by
    rw [hlist₂, hlist₁]
    rfl
  have hsem : q₂.queuesem = 0 := hsem₂.trans hsem₁
  have hpop : ∃ data q, ({ q₂ with mList := [address 0, address 1], queuesem := 0 } :
      FifoQueue).popFront = some (data, q) := ⟨_, _, popFront_address rfl⟩
  rw [run_cons, h₁, Option.bind_some, run_cons, h₂, Option.bind_some]
  simp only [run_cons, run_nil, step, semPost, hsem, hlist, maxPermits, System.fresh]
  simpa using hpop

/-- With a second taker at work the first finds a packet. -/
theorem takers_find_packets_four : ∃ s, run step .fresh
      [.store [7], .store [8], .semPost, .semWait, .semPost, .semWait, .test, .pop] = some s ∧
    s.taken.length = 1 ∧ 0 < s.holding ∧ s.queue.mList ≠ [] := by
  obtain ⟨s, hrun, hholding, htaken⟩ := run_four_threads
  have hpos : 0 < s.holding := hholding ▸ Nat.one_pos
  exact ⟨s, hrun, htaken, hpos, (takers_find_packets _ _ hrun).2.1 hpos⟩

/-! ### One call after another -/

/-- There are as many permits as packets. -/
def InStep (q : FifoQueue) : Prop := q.queuesem = q.mList.length

/-- A push finds fewer packets than the semaphore has permits, and the queue is cleared only when
there is nothing in it. -/
def KeepsStep (s : System) (op : Operation) (_ : System) : Prop :=
  match op with
  | .pushToQueue _ => s.queue.mList.length < maxPermits
  | .takeFromQueue => True
  | .clearQueue => s.queue.mList = []

theorem inStep_perform (h : InStep s.queue) (hs : perform s op = some s') :
    InStep s'.queue ↔ KeepsStep s op s' := by
  unfold InStep at *
  cases op with
  | pushToQueue packet =>
    obtain ⟨⟨ok, q⟩, hpush, he⟩ := Option.map_eq_some_iff.mp hs
    cases he
    obtain ⟨-, ⟨sBuffer, hlist⟩, hsem⟩ := pushToQueue_spec hpush
    simp only [hlist, hsem, h, KeepsStep, List.length_append, List.length_singleton]
    omega
  | takeFromQueue =>
    obtain ⟨⟨ret, data, q⟩, htake, he⟩ := Option.map_eq_some_iff.mp hs
    cases he
    simp only [KeepsStep, iff_true]
    cases takeFromQueue_takes htake with
    | timeOut => exact h
    | abandon hsem hempty =>
      rw [hempty] at h
      exact absurd h hsem
    | packet hsem hlist hsem' =>
      rw [hsem', h, hlist, List.length_cons, Nat.add_sub_cancel]
  | clearQueue =>
    cases hs
    simp only [clearQueue, KeepsStep, h, List.length_nil]
    exact List.length_eq_zero_iff

/-- The permits are those of the packets, a take brings a packet exactly when there is one, and as
many takes as there are packets bring them all. -/
structure Tracked (s : System) : Prop where
  inStep : InStep s.queue
  yields : ∀ ret data q, s.queue.takeFromQueue = some (ret, data, q) →
    (ret = 0 ↔ s.queue.mList ≠ [])
  drains : ∀ s', run perform s (List.replicate s.queue.mList.length .takeFromQueue) = some s' →
    s'.queue.mList = [] ∧ s'.taken.length = s.taken.length + s.queue.mList.length

theorem InStep.yields {q q' : FifoQueue} (h : InStep q) {ret : Int} {data : List UInt8}
    (htake : q.takeFromQueue = some (ret, data, q')) : ret = 0 ↔ q.mList ≠ [] := by
  unfold InStep at h
  cases takeFromQueue_takes htake with
  | timeOut hsem =>
    have hempty : q.mList = [] := List.length_eq_zero_iff.mp (h ▸ hsem)
    simp [waitTimeout, hempty]
  | abandon hsem hempty => simp [hempty]
  | packet hsem hlist => simp [hlist]

theorem InStep.drains {n : Nat} (h : InStep s.queue) (hn : s.queue.mList.length = n)
    (hrun : run perform s (List.replicate n .takeFromQueue) = some s') :
    s'.queue.mList = [] ∧ s'.taken.length = s.taken.length + n := by
  induction n generalizing s with
  | zero =>
    cases hrun
    exact ⟨List.length_eq_zero_iff.mp hn, rfl⟩
  | succ n ih =>
    rw [List.replicate_succ, run_cons] at hrun
    obtain ⟨s₁, hs, hrun⟩ := Option.bind_eq_some_iff.mp hrun
    have hnext : InStep s₁.queue := (inStep_perform h hs).mpr trivial
    obtain ⟨⟨ret, data, q⟩, htake, he⟩ := Option.map_eq_some_iff.mp hs
    have h0 : ret = 0 := (h.yields htake).mpr (by
      intro hempty
      simp [hempty] at hn)
    cases he
    subst h0
    cases takeFromQueue_takes htake with
    | packet hsem hlist =>
      rw [hlist, List.length_cons] at hn
      obtain ⟨hlast, htaken⟩ := ih hnext (Nat.succ.inj hn) hrun
      refine ⟨hlast, ?_⟩
      simp only [if_true, List.length_append, List.length_singleton] at htaken
      omega

theorem tracked_iff : Tracked s ↔ InStep s.queue :=
  ⟨fun h => h.inStep, fun h => ⟨h, fun _ _ _ htake => h.yields htake, fun _ => h.drains rfl⟩⟩

/-- In a run of whole calls the permits track the list throughout, precisely when no push finds as
many packets as the semaphore has permits and nothing is ever thrown away by clearing. -/
theorem permits_track_list_iff (ops : List Operation) (s : System)
    (hrun : run perform .fresh ops = some s) :
    Throughout perform (fun _ _ s' => Tracked s') .fresh ops ↔
      Throughout perform KeepsStep .fresh ops := by
  have hfresh : InStep System.fresh.queue := rfl
  apply throughout_iff (I := fun s => InStep s.queue) hfresh ?_ ?_ hrun
  · intro s₁ op s₂ _ _ _ h
    exact tracked_iff.mp h
  · intro s₁ op s₂ _ h hs
    exact tracked_iff.trans (inStep_perform h hs)

/-- A packet cleared away leaves its permit behind, and the next take ends the taker's loop. -/
theorem cleared_packet_leaves_permit : ∃ s,
    run perform .fresh [.pushToQueue [7], .clearQueue] = some s ∧
    s.queue.queuesem = 1 ∧ s.queue.mList = [] ∧
    (∃ q, s.queue.takeFromQueue = some (-2, [], q)) ∧
    ¬ Throughout perform (fun _ _ s' => Tracked s') .fresh [.pushToQueue [7], .clearQueue] := by
  have hsmall : ([7] : List UInt8).length ≤ slotSize := by decide
  obtain ⟨s₁, hs₁, -, -, -, hsem⟩ := performs_push shape_fresh hsmall
  have hrun₁ : run perform .fresh [.pushToQueue [7]] = some s₁ := by
    rw [run_cons, hs₁, Option.bind_some, run_nil]
  have hsem₁ : s₁.queue.queuesem = 1 := hsem
  obtain ⟨s, hs, hsem₂, hlist⟩ : ∃ s, perform s₁ .clearQueue = some s ∧ s.queue.queuesem = 1 ∧
      s.queue.mList = [] := ⟨_, rfl, hsem₁, rfl⟩
  refine ⟨s, ?_, hsem₂, hlist, ?_, ?_⟩
  · rw [run_cons, hs₁, Option.bind_some, run_cons, hs, Option.bind_some, run_nil]
  · exact ⟨{ s.queue with queuesem := s.queue.queuesem - 1 },
      (if_neg (by simp [hsem₂])).trans (if_pos hlist)⟩
  · intro h
    have hstep := (h [.pushToQueue [7]] .clearQueue [] rfl s₁ s hrun₁ hs).inStep
    rw [InStep, hsem₂, hlist] at hstep
    cases hstep

/-! ### A run of ten calls -/

/-- How many packets there are behind a call, if it keeps step. -/
def count (n : Nat) : Operation → Option Nat
  | .pushToQueue _ => if n < maxPermits then some (n + 1) else none
  | .takeFromQueue => some (n - 1)
  | .clearQueue => if n = 0 then some 0 else none

/-- `n` packets are queued, with a permit for each. -/
structure Counts (s : System) (n : Nat) : Prop where
  slotted : Slotted s.queue
  inStep : InStep s.queue
  length : s.queue.mList.length = n

theorem Counts.perform {n n' : Nat} (h : Counts s n)
    (hsize : ∀ packet, op = .pushToQueue packet → packet.length ≤ slotSize)
    (hn : count n op = some n') :
    ∃ s', perform s op = some s' ∧ Counts s' n' ∧ KeepsStep s op s' := by
  obtain ⟨s', hs⟩ := h.slotted.performs hsize
  have hlen := h.length
  obtain ⟨hkeeps, hlen'⟩ : KeepsStep s op s' ∧ s'.queue.mList.length = n' := by
    cases op with
    | pushToQueue packet =>
      obtain ⟨hlt, he⟩ := Option.ite_none_right_eq_some.mp hn
      obtain ⟨⟨ok, q⟩, hpush, hq⟩ := Option.map_eq_some_iff.mp hs
      cases hq
      obtain ⟨-, ⟨sBuffer, hlist⟩, -⟩ := pushToQueue_spec hpush
      refine ⟨(congrArg (· < maxPermits) hlen).mpr hlt, ?_⟩
      dsimp only
      rw [hlist, List.length_append, hlen]
      exact Option.some.inj he
    | takeFromQueue =>
      obtain rfl : n - 1 = n' := Option.some.inj hn
      obtain ⟨⟨ret, data, q⟩, htake, hq⟩ := Option.map_eq_some_iff.mp hs
      cases hq
      refine ⟨trivial, ?_⟩
      have hin : s.queue.queuesem = s.queue.mList.length := h.inStep
      cases takeFromQueue_takes htake with
      | timeOut hsem =>
        dsimp only
        omega
      | abandon hsem hempty =>
        rw [hempty, List.length_nil] at hin
        exact absurd hin hsem
      | packet hsem hlist =>
        rw [hlist, List.length_cons] at hlen
        dsimp only
        omega
    | clearQueue =>
      obtain ⟨h0, he⟩ := Option.ite_none_right_eq_some.mp hn
      cases hs
      exact ⟨List.length_eq_zero_iff.mp (hlen.trans h0), Option.some.inj he⟩
  exact ⟨s', hs, ⟨h.slotted.perform hsize hs, (inStep_perform h.inStep hs).mpr hkeeps, hlen'⟩,
    hkeeps⟩

/-- A run that keeps step by the count goes through and keeps step. -/
theorem run_counts {ops : List Operation} {n : Nat}
    (hsize : ∀ packet, .pushToQueue packet ∈ ops → packet.length ≤ slotSize)
    (hrun : run count 0 ops = some n) : ∃ s, run perform .fresh ops = some s ∧ Counts s n ∧
      Throughout perform KeepsStep .fresh ops := by
  induction ops using List.reverseRecOn generalizing n with
  | nil =>
    cases hrun
    exact ⟨.fresh, rfl, ⟨slotted_fresh, rfl, rfl⟩, throughout_nil _ _⟩
  | append_singleton ops op ih =>
    rw [run_snoc] at hrun
    obtain ⟨n₁, h₁, h₂⟩ := Option.bind_eq_some_iff.mp hrun
    obtain ⟨s₁, hrun₁, hcounts, hkeeps⟩ := ih (fun p hp => hsize p (by simp [hp])) h₁
    obtain ⟨s', hs, hcounts', hkeep⟩ :=
      hcounts.perform (fun p he => hsize p (by simp [he])) h₂
    refine ⟨s', by rw [run_snoc, hrun₁, Option.bind_some, hs], hcounts', ?_⟩
    refine (throughout_snoc hrun₁).mpr ⟨hkeeps, fun s'' hs'' => ?_⟩
    exact Option.some.inj (hs.symm.trans hs'') ▸ hkeep

private def tenCalls : List Operation :=
  [.clearQueue, .pushToQueue [7], .pushToQueue [8], .takeFromQueue, .takeFromQueue, .clearQueue,
    .pushToQueue [9], .pushToQueue [10], .pushToQueue [11], .takeFromQueue]

/-- The queue is cleared twice with nothing in it, and holds up to three packets. -/
theorem permits_track_list_iff_ten : ∃ s, run perform .fresh tenCalls = some s ∧
    s.queue.mList.length = 2 ∧
    Throughout perform (fun _ _ s' => Tracked s') .fresh tenCalls := by
  have hcount : run count 0 tenCalls = some 2 := rfl
  obtain ⟨s, hrun, hcounts, hkeeps⟩ := run_counts (by simp [tenCalls, slotSize]) hcount
  exact ⟨s, hrun, hcounts.length, (permits_track_list_iff _ _ hrun).mpr hkeeps⟩

end RTPVoice.FifoQueue
