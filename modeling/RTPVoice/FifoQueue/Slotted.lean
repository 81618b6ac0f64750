import RTPVoice.FifoQueue.Calls

namespace RTPVoice.FifoQueue

open Framework Framework.Transition

/-- What is brought by the take that gets its permit after `k` others. -/
def takeAfter (q : FifoQueue) : Nat → Option (List UInt8)
  | 0 => q.popFront.map Prod.fst
  | k + 1 => q.popFront.bind fun (_, q') => q'.takeAfter k

/-- `fifo_counter` is the number of a slot, and every pointer in `m_list` points to one. -/
structure Slotted (q : FifoQueue) : Prop where
  counter : q.fifoCounter.toNat < slotCount
  slots : ∀ sBuffer ∈ q.mList, ∃ k, sBuffer = address k

variable {q q' : FifoQueue} {s s' : System} {op : Operation} {packet data : List UInt8}
  {sBuffer k : Nat}

theorem slotted_fresh : Slotted .fresh := ⟨by decide, by simp [fresh]⟩

/-! ### A push into its slot -/

/-- A push that fits writes its slot only, and goes on to the next one. -/
theorem Slotted.push (h : Slotted q) (hp : packet.length ≤ slotSize) :
    ∃ q', q.pushToQueue packet = some (true, q') ∧ Slotted q' ∧
      q'.mList = q.mList ++ [address q.fifoCounter.toNat] ∧
      q'.fifoCounter.toNat = (q.fifoCounter.toNat + 1) % slotCount ∧
      packet <+: q'.fifobuff.slice (address q.fifoCounter.toNat) slotSize ∧
      ∀ k < slotCount, k ≠ q.fifoCounter.toNat →
        q'.fifobuff.slice (slotSize * k) slotSize = q.fifobuff.slice (slotSize * k) slotSize := by
  have hmod := Nat.mod_eq_of_lt h.counter
  obtain ⟨buff, fifoCounter, hbuff, hnext, hstore⟩ := store_of_le hmod.symm hp
  refine ⟨_, by rw [pushToQueue, hstore]; rfl, ⟨?_, ?_⟩, rfl, hnext, ?_, ?_⟩
  · show fifoCounter.toNat < slotCount
    rw [hnext]
    exact Nat.mod_lt _ (by decide)
  · exact forall_mem_snoc.mpr ⟨h.slots, _, rfl⟩
  · show packet <+: buff.slice (address q.fifoCounter.toNat) slotSize
    rw [Block.slice_write_same hbuff hp]
    exact List.prefix_append _ _
  · intro k _ hk
    refine Block.slice_write_disjoint hbuff ?_
    simp only [address, hmod, slotSize] at *
    omega

/-! ### Runs of calls -/

theorem Slotted.tail (h : Slotted q) {mList : List Nat} (hlist : q.mList = sBuffer :: mList)
    (n : Nat) : Slotted { q with mList, queuesem := n } :=
  ⟨h.counter, fun a ha => h.slots a (hlist ▸ List.mem_cons_of_mem _ ha)⟩

theorem Slotted.take (h : Slotted q) {ret : Int}
    (htake : q.takeFromQueue = some (ret, data, q')) : Slotted q' := by
  unfold takeFromQueue at htake
  split at htake
  · cases htake
    exact h
  · dsimp only at htake
    split at htake
    · cases htake
      exact ⟨h.counter, h.slots⟩
    · obtain ⟨⟨data', q₁⟩, hpop, he⟩ := Option.map_eq_some_iff.mp htake
      cases he
      obtain ⟨sBuffer, mList, hlist, -, rfl⟩ := popFront_eq_some hpop
      exact h.tail hlist _

theorem Slotted.perform (h : Slotted s.queue)
    (hsize : ∀ packet, op = .pushToQueue packet → packet.length ≤ slotSize)
    (hs : perform s op = some s') : Slotted s'.queue := by
  cases op with
  | pushToQueue packet =>
    obtain ⟨⟨ok, q⟩, hpush, he⟩ := Option.map_eq_some_iff.mp hs
    cases he
    obtain ⟨q', hpush', hq', -⟩ := h.push (hsize packet rfl)
    cases hpush'.symm.trans hpush
    exact hq'
  | takeFromQueue =>
    obtain ⟨⟨ret, data, q⟩, htake, he⟩ := Option.map_eq_some_iff.mp hs
    cases he
    exact h.take htake
  | clearQueue =>
    cases hs
    exact ⟨h.counter, by simp [clearQueue]⟩

/-- Every call goes through. -/
theorem Slotted.performs (h : Slotted s.queue)
    (hsize : ∀ packet, op = .pushToQueue packet → packet.length ≤ slotSize) :
    ∃ s', FifoQueue.perform s op = some s' := by
  cases op with
  | pushToQueue packet =>
    obtain ⟨q, hpush, -⟩ := h.push (hsize packet rfl)
    exact ⟨_, by rw [FifoQueue.perform, hpush]; rfl⟩
  | takeFromQueue =>
    obtain ⟨taken, htake⟩ : ∃ taken, s.queue.takeFromQueue = some taken := by
      by_cases hsem : s.queue.queuesem = 0
      · exact ⟨_, if_pos hsem⟩
      cases hlist : s.queue.mList with
      | nil => exact ⟨_, (if_neg hsem).trans (if_pos hlist)⟩
      | cons sBuffer mList =>
        obtain ⟨k, rfl⟩ := h.slots sBuffer (hlist ▸ List.mem_cons_self)
        exact ⟨_, takeFromQueue_pop hsem (popFront_address hlist)⟩
    exact ⟨_, by rw [FifoQueue.perform, htake]; rfl⟩
  | clearQueue => exact ⟨_, rfl⟩

/-- However full the queue has been, its pointers point to slots. -/
theorem run_slotted {ops : List Operation}
    (hsize : ∀ packet, .pushToQueue packet ∈ ops → packet.length ≤ slotSize)
    (hrun : run perform .fresh ops = some s) : Slotted s.queue := by
  apply run_invariant (I := fun s => Slotted s.queue) slotted_fresh ?_ hrun
  intro s₁ op s₂ hop h hs
  exact h.perform (fun packet he => hsize packet (he ▸ hop)) hs

/-! ### The take that is a packet's turn -/

/-- What is taken is as long as a slot. -/
theorem takeAfter_length (h : q.takeAfter k = some data) : data.length = slotSize := by
  induction k generalizing q with
  | zero =>
    obtain ⟨⟨data', q'⟩, hpop, rfl⟩ := Option.map_eq_some_iff.mp h
    exact (popFront_mList hpop).2.2
  | succ k ih =>
    obtain ⟨⟨data', q'⟩, -, h⟩ := Option.bind_eq_some_iff.mp h
    exact ih h

/-- The takes bring the slots of the list in order. -/
theorem Slotted.takeAfter (h : Slotted q) (hk : q.mList[k]? = some sBuffer) :
    q.takeAfter k = some (q.fifobuff.slice sBuffer slotSize) := by
  induction k generalizing q with
  | zero =>
    obtain ⟨mList, hlist⟩ : ∃ mList, q.mList = sBuffer :: mList := by
      cases hl : q.mList with
      | nil => simp [hl] at hk
      | cons a mList =>
        obtain rfl : a = sBuffer := by simpa [hl] using hk
        exact ⟨mList, rfl⟩
    obtain ⟨i, rfl⟩ := h.slots sBuffer (hlist ▸ List.mem_cons_self)
    rw [FifoQueue.takeAfter, popFront_address hlist]
    rfl
  | succ k ih =>
    cases hl : q.mList with
    | nil => simp [hl] at hk
    | cons a mList =>
      obtain ⟨i, rfl⟩ := h.slots a (hl ▸ List.mem_cons_self)
      have hnext := ih (h.tail hl q.queuesem) (by simpa [hl] using hk)
      rw [FifoQueue.takeAfter, popFront_address hl]
      exact hnext

end RTPVoice.FifoQueue
