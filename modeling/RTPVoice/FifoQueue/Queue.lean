import RTPVoice.Framework.Block
import RTPVoice.Framework.Transition

namespace RTPVoice

open Framework

def slotSize : Nat := 512

def slotCount : Nat := 20

abbrev bufferSize : Nat := slotCount * slotSize

/-- The queue; an entry of `mList` is the distance of its pointer from the start of `fifobuff`. -/
structure FifoQueue where
  mList : List Nat
  fifobuff : Block bufferSize
  fifoCounter : UInt32
  queuesem : Nat
  deriving DecidableEq

namespace FifoQueue

/-- The limit `CreateSemaphore` is given. -/
def maxPermits : Nat := 100

/-- The bytes of a `uint32_t` in memory. -/
def counterBytes (n : UInt32) : List UInt8 :=
  [UInt8.ofNat n.toNat, UInt8.ofNat (n.toNat / 0x100), UInt8.ofNat (n.toNat / 0x10000),
    UInt8.ofNat (n.toNat / 0x1000000)]

def counterValue (bytes : List UInt8) : UInt32 :=
  UInt32.ofNat (bytes.foldr (fun b v => b.toNat + 256 * v) 0)

def fresh : FifoQueue := ⟨[], Block.zero bufferSize, 0, 0⟩

/-- `fifobuff` and, right behind it, `fifo_counter`. -/
def object (q : FifoQueue) : Block (bufferSize + 4) :=
  ⟨q.fifobuff.bytes ++ counterBytes q.fifoCounter, by
    rw [List.length_append, q.fifobuff.size]
    rfl⟩

/-- The locked part of `PushToQueue`. A packet longer than its slot runs into what lies behind. -/
def store (q : FifoQueue) (packet : List UInt8) : Option FifoQueue := do
  let object ← q.object.write (slotSize * q.fifoCounter.toNat) packet
  let fifobuff := ⟨object.bytes.take bufferSize, by
    rw [List.length_take, object.size]
    rfl⟩
  let fifoCounter := counterValue (object.bytes.drop bufferSize)
  let mList := q.mList ++ [slotSize * fifoCounter.toNat]
  let fifoCounter := fifoCounter + 1
  return { q with mList, fifobuff, fifoCounter := if 19 < fifoCounter then 0 else fifoCounter }

/-- `SemPost`; a semaphore at its limit stays there. -/
def semPost (q : FifoQueue) : FifoQueue :=
  { q with queuesem := min (q.queuesem + 1) maxPermits }

def pushToQueue (q : FifoQueue) (packet : List UInt8) : Option (Bool × FifoQueue) :=
  (q.store packet).map fun q => (true, q.semPost)

/-- The locked part of `TakeFromQueue`; `front` of an empty list is undefined. -/
def popFront (q : FifoQueue) : Option (List UInt8 × FifoQueue) :=
  match q.mList with
  | [] => none
  | sBuffer :: mList => do
    let packet ← q.object.read sBuffer slotSize
    return (packet, { q with mList })

def waitTimeout : Int := 258

def takeFromQueue (q : FifoQueue) : Option (Int × List UInt8 × FifoQueue) :=
  if q.queuesem = 0 then
    some (waitTimeout, [], q)
  else
    let q := { q with queuesem := q.queuesem - 1 }
    if q.mList = [] then
      some (-2, [], q)
    else
      (q.popFront).map fun (packet, q) => (0, packet, q)

/-! ### Threads on one queue -/

/-- What a thread in `PushToQueue` or `TakeFromQueue` does next. -/
inductive Action where
  | store (packet : List UInt8)
  | semPost
  | semWait
  | timeOut
  | test
  | pop
  deriving DecidableEq

/-- A queue with the threads inside its functions, and all packets stored and taken so far. -/
structure System where
  queue : FifoQueue
  /-- threads between the list append and `SemPost` -/
  posting : Nat
  /-- threads with a permit, in front of the emptiness test -/
  holding : Nat
  /-- threads behind the test, in front of the pop -/
  passed : Nat
  /-- takers that found the list empty -/
  abandoned : Nat
  pushed : List (List UInt8)
  taken : List (List UInt8)
  deriving DecidableEq

def System.fresh : System := ⟨.fresh, 0, 0, 0, 0, [], []⟩

def step (s : System) : Action → Option System
  | .store packet => (s.queue.store packet).map fun queue =>
    { s with queue, posting := s.posting + 1, pushed := s.pushed ++ [packet] }
  | .semPost =>
    if s.posting = 0 then none
    else some { s with queue := s.queue.semPost, posting := s.posting - 1 }
  | .semWait =>
    if s.queue.queuesem = 0 then none
    else some { s with
      queue := { s.queue with queuesem := s.queue.queuesem - 1 }
      holding := s.holding + 1 }
  | .timeOut => if s.queue.queuesem = 0 then some s else none
  | .test =>
    if s.holding = 0 then none
    else if s.queue.mList = [] then
      some { s with holding := s.holding - 1, abandoned := s.abandoned + 1 }
    else some { s with holding := s.holding - 1, passed := s.passed + 1 }
  | .pop =>
    if s.passed = 0 then none
    else (s.queue.popFront).map fun (packet, queue) =>
      { s with queue, passed := s.passed - 1, taken := s.taken ++ [packet] }

/-- What each action needs and does. -/
inductive StepsTo (s : System) : Action → System → Prop where
  | store {packet : List UInt8} {queue : FifoQueue} (stored : s.queue.store packet = some queue) :
    StepsTo s (.store packet)
      { s with queue, posting := s.posting + 1, pushed := s.pushed ++ [packet] }
  | semPost (posting : s.posting ≠ 0) :
    StepsTo s .semPost { s with queue := s.queue.semPost, posting := s.posting - 1 }
  | semWait (permits : s.queue.queuesem ≠ 0) :
    StepsTo s .semWait { s with
      queue := { s.queue with queuesem := s.queue.queuesem - 1 }
      holding := s.holding + 1 }
  | timeOut (permits : s.queue.queuesem = 0) : StepsTo s .timeOut s
  | abandon (holding : s.holding ≠ 0) (empty : s.queue.mList = []) :
    StepsTo s .test { s with holding := s.holding - 1, abandoned := s.abandoned + 1 }
  | test (holding : s.holding ≠ 0) (packets : s.queue.mList ≠ []) :
    StepsTo s .test { s with holding := s.holding - 1, passed := s.passed + 1 }
  | pop {packet : List UInt8} {queue : FifoQueue} (passed : s.passed ≠ 0)
    (popped : s.queue.popFront = some (packet, queue)) :
    StepsTo s .pop { s with queue, passed := s.passed - 1, taken := s.taken ++ [packet] }

theorem step_stepsTo {s s' : System} {a : Action} (h : step s a = some s') : StepsTo s a s' := by
  cases a with
  | store packet =>
    obtain ⟨queue, hstore, rfl⟩ := Option.map_eq_some_iff.mp h
    exact .store hstore
  | semPost =>
    simp only [step, Option.ite_none_left_eq_some, Option.some.injEq] at h
    exact h.2 ▸ .semPost h.1
  | semWait =>
    simp only [step, Option.ite_none_left_eq_some, Option.some.injEq] at h
    exact h.2 ▸ .semWait h.1
  | timeOut =>
    simp only [step, Option.ite_none_right_eq_some, Option.some.injEq] at h
    exact h.2 ▸ .timeOut h.1
  | test =>
    simp only [step, Option.ite_none_left_eq_some] at h
    obtain ⟨hholding, h⟩ := h
    split at h
    · next hempty => exact Option.some.inj h ▸ .abandon hholding hempty
    · next hlist => exact Option.some.inj h ▸ .test hholding hlist
  | pop =>
    simp only [step, Option.ite_none_left_eq_some, Option.map_eq_some_iff] at h
    obtain ⟨hpassed, ⟨packet, queue⟩, hpop, rfl⟩ := h
    exact .pop hpassed hpop

/-- What is popped is read through the first pointer of the list. -/
theorem popFront_eq_some {q q' : FifoQueue} {packet : List UInt8}
    (h : q.popFront = some (packet, q')) : ∃ sBuffer mList, q.mList = sBuffer :: mList ∧
      q.object.read sBuffer slotSize = some packet ∧ q' = { q with mList } := by
  unfold popFront at h
  split at h
  · cases h
  · next sBuffer mList hlist =>
    obtain ⟨packet', hread, he⟩ := Option.bind_eq_some_iff.mp h
    cases he
    exact ⟨sBuffer, mList, hlist, hread, rfl⟩

/-! ### One thread alone -/

open Transition

theorem run_pushToQueue {s : System} {packet : List UInt8} {queue : FifoQueue}
    (h : s.queue.pushToQueue packet = some (true, queue)) :
    run step s [.store packet, .semPost] =
      some { s with queue, pushed := s.pushed ++ [packet] } := by
  obtain ⟨q, hstore, he⟩ := Option.map_eq_some_iff.mp h
  obtain rfl : q.semPost = queue := by simpa using he
  rw [run_cons, step, hstore, Option.map_some, Option.bind_some, run_cons, step,
    if_neg (Nat.succ_ne_zero _)]
  rfl

theorem run_takeFromQueue {s : System} {packet : List UInt8} {queue : FifoQueue}
    (h : s.queue.takeFromQueue = some (0, packet, queue)) :
    run step s [.semWait, .test, .pop] =
      some { s with queue, taken := s.taken ++ [packet] } := by
  unfold takeFromQueue at h
  split at h
  · simp [waitTimeout] at h
  · next hpermit =>
    dsimp only at h
    split at h
    · simp at h
    · next hlist =>
      obtain ⟨⟨packet', q⟩, hpop, he⟩ := Option.map_eq_some_iff.mp h
      obtain ⟨rfl, rfl⟩ : packet' = packet ∧ q = queue := by simpa using he
      rw [run_cons, step, if_neg hpermit, Option.bind_some, run_cons, step,
        if_neg (Nat.succ_ne_zero _), if_neg hlist, Option.bind_some, run_cons, step,
        if_neg (Nat.succ_ne_zero _), hpop]
      rfl

end FifoQueue

end RTPVoice
