import RTPVoice.FifoQueue.Lag

namespace RTPVoice.FifoQueue

open Framework Framework.Transition

def clearQueue (q : FifoQueue) : FifoQueue := { q with mList := [] }

/-- A call of one of the queue's functions, from its beginning to its end. -/
inductive Operation where
  | pushToQueue (packet : List UInt8)
  | takeFromQueue
  | clearQueue
  deriving DecidableEq

/-- One call after another, with all packets pushed and taken so far. -/
def perform (s : System) : Operation → Option System
  | .pushToQueue packet => (s.queue.pushToQueue packet).map fun (_, queue) =>
    { s with queue, pushed := s.pushed ++ [packet] }
  | .takeFromQueue => (s.queue.takeFromQueue).map fun (ret, packet, queue) =>
    { s with queue, taken := if ret = 0 then s.taken ++ [packet] else s.taken }
  | .clearQueue => some { s with queue := s.queue.clearQueue }

variable {q q' : FifoQueue} {packet data : List UInt8} {ret : Int}

theorem store_mList (h : q.store packet = some q') :
    (∃ sBuffer, q'.mList = q.mList ++ [sBuffer]) ∧ q'.queuesem = q.queuesem := by
  obtain ⟨object, -, h⟩ := Option.bind_eq_some_iff.mp h
  cases h
  exact ⟨⟨_, rfl⟩, rfl⟩

theorem popFront_mList (h : q.popFront = some (data, q')) :
    (∃ sBuffer, q.mList = sBuffer :: q'.mList) ∧ q'.queuesem = q.queuesem ∧
      data.length = slotSize := by
  obtain ⟨sBuffer, mList, hlist, hread, rfl⟩ := popFront_eq_some h
  refine ⟨⟨sBuffer, hlist⟩, rfl, ?_⟩
  have hsize := q.object.size
  unfold Block.read at hread
  split at hread
  · next hin =>
    cases hread
    simp only [List.length_take, List.length_drop]
    omega
  · cases hread

/-- A pointer to a slot brings its bytes. -/
theorem popFront_address {k : Nat} {mList : List Nat} (hlist : q.mList = address k :: mList) :
    q.popFront = some (q.fifobuff.slice (address k) slotSize, { q with mList }) := by
  rw [popFront, hlist]
  simp only
  rw [read_address]
  rfl

/-- What a push does to the list and to the permits. -/
theorem pushToQueue_spec {ok : Bool} (h : q.pushToQueue packet = some (ok, q')) :
    ok = true ∧ (∃ sBuffer, q'.mList = q.mList ++ [sBuffer]) ∧
      q'.queuesem = min (q.queuesem + 1) maxPermits := by
  obtain ⟨q₁, hstore, he⟩ := Option.map_eq_some_iff.mp h
  cases he
  obtain ⟨hlist, hsem⟩ := store_mList hstore
  exact ⟨rfl, hlist, by rw [semPost, hsem]⟩

/-- What a take can end in: no permit in time, a permit without a packet, or a packet. -/
inductive Takes (q : FifoQueue) : Int → List UInt8 → FifoQueue → Prop where
  | timeOut (permits : q.queuesem = 0) : Takes q waitTimeout [] q
  | abandon (permits : q.queuesem ≠ 0) (empty : q.mList = []) :
      Takes q (-2) [] { q with queuesem := q.queuesem - 1 }
  | packet {sBuffer : Nat} {data : List UInt8} {q' : FifoQueue} (permits : q.queuesem ≠ 0)
      (front : q.mList = sBuffer :: q'.mList) (sem : q'.queuesem = q.queuesem - 1)
      (size : data.length = slotSize) : Takes q 0 data q'

theorem takeFromQueue_takes (h : q.takeFromQueue = some (ret, data, q')) :
    Takes q ret data q' := by
  unfold takeFromQueue at h
  split at h
  · next hsem =>
    cases h
    exact .timeOut hsem
  · next hsem =>
    dsimp only at h
    split at h
    · next hempty =>
      cases h
      exact .abandon hsem hempty
    · obtain ⟨⟨data', q₁⟩, hpop, he⟩ := Option.map_eq_some_iff.mp h
      cases he
      obtain ⟨⟨sBuffer, hlist⟩, hsem', hsize⟩ := popFront_mList hpop
      exact .packet hsem hlist hsem' hsize

variable {s s' : System}

/-- A push alone is the two steps of its thread. -/
theorem perform_push (hs : perform s (.pushToQueue packet) = some s') :
    run step s [.store packet, .semPost] = some s' := by
  obtain ⟨⟨ok, q⟩, hpush, he⟩ := Option.map_eq_some_iff.mp hs
  cases he
  obtain ⟨rfl, -, -⟩ := pushToQueue_spec hpush
  exact run_pushToQueue hpush

/-- A take that finds a packet is the three steps of its thread. -/
theorem perform_take (hs : perform s .takeFromQueue = some s') :
    run step s [.semWait, .test, .pop] = some s' ∨ s'.taken = s.taken := by
  obtain ⟨⟨ret, data, q⟩, htake, he⟩ := Option.map_eq_some_iff.mp hs
  cases he
  by_cases h0 : ret = 0
  · subst h0
    left
    rw [run_takeFromQueue htake]
    simp
  · right
    simp [h0]

/-! ### Calls that go through -/

/-- Without a permit a take waits in vain, and leaves everything as it was. -/
theorem perform_timeOut (h : s.queue.queuesem = 0) : perform s .takeFromQueue = some s := by
  have htake : s.queue.takeFromQueue = some (waitTimeout, [], s.queue) := if_pos h
  rw [perform, htake]
  rfl

theorem performs_push (h : Shape s) (hp : packet.length ≤ slotSize) :
    ∃ s', perform s (.pushToQueue packet) = some s' ∧ Shape s' ∧
      s'.ring = s.ring.push slotCount packets packet ∧ s'.taken = s.taken ∧
      s'.queue.queuesem = min (s.queue.queuesem + 1) maxPermits := by
  obtain ⟨buff, fifoCounter, -, -, hstore⟩ := store_of_le h.counter hp
  obtain ⟨q, hpush⟩ : ∃ q, s.queue.pushToQueue packet = some (true, q) :=
    ⟨_, by rw [pushToQueue, hstore]; rfl⟩
  obtain ⟨s', hs, htaken, hsem⟩ : ∃ s', perform s (.pushToQueue packet) = some s' ∧
      s'.taken = s.taken ∧ s'.queue.queuesem = min (s.queue.queuesem + 1) maxPermits :=
    ⟨{ s with queue := q, pushed := s.pushed ++ [packet] }, by rw [perform, hpush]; rfl,
      rfl, (pushToQueue_spec hpush).2.2⟩
  obtain ⟨s₁, hrun, hshape, hring, -⟩ := run_push h hp
  obtain rfl := Option.some.inj (hrun.symm.trans (perform_push hs))
  exact ⟨s₁, hs, hshape, hring, htaken, hsem⟩

/-- Popping does not look at the permits. -/
theorem popFront_queuesem (q : FifoQueue) (n : Nat) :
    ({ q with queuesem := n } : FifoQueue).popFront =
      q.popFront.map fun (data, q') => (data, { q' with queuesem := n }) := by
  obtain ⟨mList, buff, counter, sem⟩ := q
  cases mList with
  | nil => rfl
  | cons sBuffer mList =>
    simp only [popFront, object]
    cases Block.read _ _ _ <;> rfl

/-- A take that has its permit brings what is popped. -/
theorem takeFromQueue_pop (hsem : q.queuesem ≠ 0) (hpop : q.popFront = some (data, q')) :
    q.takeFromQueue = some (0, data, { q' with queuesem := q.queuesem - 1 }) := by
  have hlist : q.mList ≠ [] := by
    intro hempty
    simp [popFront, hempty] at hpop
  rw [takeFromQueue, if_neg hsem]
  dsimp only
  rw [if_neg hlist, popFront_queuesem, hpop]
  rfl

/-- The front of the list is the slot of the oldest packet not taken. -/
theorem pops_front (h : Shape s) (hlt : s.taken.length < s.pushed.length) :
    ∃ q, s.queue.popFront =
      some (s.queue.fifobuff.slice (address s.taken.length) slotSize, q) ∧
      q.fifobuff = s.queue.fifobuff := by
  cases hl : s.queue.mList with
  | nil =>
    have hlen := congrArg List.length (hl.symm.trans h.list)
    simp only [List.length_nil, List.length_map, List.length_range'] at hlen
    omega
  | cons sBuffer mList =>
    obtain ⟨-, rfl, -⟩ := h.front hl
    exact ⟨{ s.queue with mList }, popFront_address hl, rfl⟩

theorem performs_take (h : Shape s) (hsem : s.queue.queuesem ≠ 0)
    (hlt : s.taken.length < s.pushed.length) :
    ∃ s', perform s .takeFromQueue = some s' ∧ s'.pushed = s.pushed ∧
      s'.queue.fifobuff = s.queue.fifobuff ∧
      s'.taken = s.taken ++ [s.queue.fifobuff.slice (address s.taken.length) slotSize] := by
  obtain ⟨q, hpop, hbuff⟩ := pops_front h hlt
  generalize s.queue.fifobuff.slice (address s.taken.length) slotSize = data at hpop ⊢
  refine ⟨{ s with
    queue := { q with queuesem := s.queue.queuesem - 1 }
    taken := s.taken ++ [data] }, ?_, rfl, hbuff, rfl⟩
  rw [perform, takeFromQueue_pop hsem hpop]
  rfl

end RTPVoice.FifoQueue
