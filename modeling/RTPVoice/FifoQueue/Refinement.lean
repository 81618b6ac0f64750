import RTPVoice.FifoQueue.Permits
import RTPVoice.FifoQueue.HandOut
import RTPVoice.Framework.Fifo

namespace RTPVoice.FifoQueue

open Framework Framework.Transition

/-- The call that does what an operation of a queue of packets says. -/
def Operation.of : Fifo.Op (List UInt8) → Operation
  | .push packet => .pushToQueue packet
  | .take => .takeFromQueue

theorem Operation.push_mem_map_of {packet : List UInt8} {ops : List (Fifo.Op (List UInt8))} :
    Operation.pushToQueue packet ∈ ops.map Operation.of ↔ .push packet ∈ ops := by
  constructor
  · intro h
    obtain ⟨op, hop, he⟩ := List.mem_map.mp h
    cases op with
    | push p =>
      cases he
      exact hop
    | take => cases he
  · exact List.mem_map_of_mem

/-- The addresses of the `n` slots in front of slot `counter`, around the ring. -/
def slotsBefore (counter n : Nat) : List Nat :=
  (List.range n).map fun i => slotSize * ((counter + slotCount - n + i) % slotCount)

/-- `s` holds the queue `t`: its slots show the packets that are queued, and there is a permit for
each of them. -/
structure Refines (s : System) (t : Fifo (List UInt8)) : Prop extends Sane s where
  permits : InStep s.queue
  items : s.pushed = t.taken ++ t.queued
  given : s.taken.length = t.taken.length
  room : t.queued.length ≤ slotCount

variable {s s' : System} {t t' : Fifo (List UInt8)} {packet : List UInt8}

theorem refines_fresh : Refines .fresh .empty := ⟨sane_fresh, rfl, rfl, rfl, Nat.zero_le _⟩

theorem Refines.queued_length (h : Refines s t) :
    s.pushed.length = s.taken.length + t.queued.length := by
  rw [h.items, List.length_append, h.given]

theorem Refines.mList_length (h : Refines s t) : s.queue.mList.length = t.queued.length := by
  have hlen := h.queued_length
  rw [h.list, List.length_map, List.length_range']
  omega

theorem sane_push (h : Sane s) (hp : packet.length ≤ slotSize)
    (hroom : s.pushed.length < s.taken.length + slotCount)
    (hrun : run step s [.store packet, .semPost] = some s') : Sane s' := by
  obtain ⟨s₁, h₁, h₂⟩ := run_pair hrun
  have hu : Unaltered s (.store packet) s₁ := by
    refine (store_unaltered h hp h₁).2.mpr ?_
    intro p _
    exact SlotRing.admits_of_room (w := packets) (r := s.ring) hroom p
  exact (h.store hp h₁ hu).quiet (by simp) h₂

theorem sane_take (h : Sane s) (hrun : run step s [.semWait, .test, .pop] = some s') : Sane s' := by
  obtain ⟨s₁, h₁, hrun⟩ := Option.bind_eq_some_iff.mp hrun
  obtain ⟨s₂, h₂, h₃⟩ := run_pair hrun
  exact ((h.quiet (by simp) h₁).quiet (by simp) h₂).quiet (by simp) h₃

theorem Refines.push (h : Refines s t) (hp : packet.length ≤ slotSize)
    (hs : Fifo.step slotCount t (.push packet) = some t') :
    ∃ s', perform s (.pushToQueue packet) = some s' ∧ Refines s' t' := by
  obtain ⟨hlt, rfl⟩ := Fifo.step_push hs
  have hlen := h.queued_length
  obtain ⟨s', hperform, -, hring, htaken, -⟩ := performs_push h.toShape hp
  have hpushed : s'.pushed = s.pushed ++ [packet] := congrArg SlotRing.items hring
  have hkeeps : KeepsStep s (.pushToQueue packet) s' := by
    show s.queue.mList.length < maxPermits
    rw [h.mList_length]
    exact hlt.trans (by decide)
  refine ⟨s', hperform, sane_push h.toSane hp (by omega) (perform_push hperform),
    (inStep_perform h.permits hperform).mpr hkeeps, ?_, ?_, ?_⟩
  · rw [hpushed, h.items, List.append_assoc]
  · rw [htaken, h.given]
  · rw [List.length_append]
    exact hlt

theorem Refines.take (h : Refines s t) (hs : Fifo.step slotCount t .take = some t') :
    ∃ s', perform s .takeFromQueue = some s' ∧ Refines s' t' := by
  have hlen := h.queued_length
  have hpermits : s.queue.queuesem = t.queued.length := h.permits.trans h.mList_length
  cases Fifo.step_take hs with
  | inl hempty =>
    obtain ⟨hempty, rfl⟩ := hempty
    rw [hempty, List.length_nil] at hpermits
    exact ⟨s, perform_timeOut hpermits, h⟩
  | inr hnext =>
    obtain ⟨b, hqueued, htaken⟩ := hnext
    rw [hqueued, List.length_cons] at hpermits hlen
    obtain ⟨s', hperform, hpushed, -, htaken'⟩ :=
      performs_take h.toShape (by omega) (by omega)
    have hgiven : s'.taken.length = s.taken.length + 1 := by simp [htaken']
    have hsane : Sane s' := by
      cases perform_take hperform with
      | inl hrun => exact sane_take h.toSane hrun
      | inr hsame =>
        rw [hsame] at hgiven
        omega
    refine ⟨s', hperform, hsane, (inStep_perform h.permits hperform).mpr trivial, ?_, ?_, ?_⟩
    · rw [hpushed, h.items, htaken, hqueued, List.append_assoc]
      rfl
    · rw [hgiven, htaken, List.length_append, h.given]
      rfl
    · have hroom := h.room
      rw [hqueued, List.length_cons] at hroom
      omega

theorem Refines.operation {op : Fifo.Op (List UInt8)} (h : Refines s t)
    (hsize : ∀ packet, op = .push packet → packet.length ≤ slotSize)
    (hs : Fifo.step slotCount t op = some t') :
    ∃ s', perform s (.of op) = some s' ∧ Refines s' t' := by
  cases op with
  | push packet => exact h.push (hsize packet rfl) hs
  | take => exact h.take hs

/-- Every run of a queue of packets that keeps within twenty is a run of the code. -/
theorem run_refines {ops : List (Fifo.Op (List UInt8))}
    (hsize : ∀ packet, .push packet ∈ ops → packet.length ≤ slotSize)
    (hrun : run (Fifo.step slotCount) .empty ops = some t) :
    ∃ s, run perform .fresh (ops.map .of) = some s ∧ Refines s t := by
  apply run_simulation ?_ refines_fresh hrun
  intro s t op t' hop h hs
  exact h.operation (fun packet he => hsize packet (he ▸ hop)) hs

/-- The queued packets are in the slots in front of `fifo_counter`. -/
theorem Refines.slots (h : Refines s t) :
    s.queue.mList = slotsBefore s.queue.fifoCounter.toNat s.queue.mList.length := by
  have hlen := h.queued_length
  have hroom := h.room
  rw [h.mList_length, h.list, slotsBefore, List.range'_eq_map_range, List.map_map, h.counter]
  have hn : s.pushed.length - s.taken.length = t.queued.length := by omega
  rw [hn]
  apply List.map_congr_left
  intro i hi
  have hi := List.mem_range.mp hi
  simp only [slotCount, Function.comp_apply, address] at *
  congr 1
  omega

theorem slotsBefore_nodup {n : Nat} (counter : Nat) (hn : n ≤ slotCount) :
    (slotsBefore counter n).Nodup := by
  apply List.Nodup.map_on ?_ List.nodup_range
  intro i hi j hj he
  have hi := List.mem_range.mp hi
  have hj := List.mem_range.mp hj
  simp only [slotCount, slotSize] at *
  omega

/-- Within its capacity the queue is a queue: every run of at most twenty packets in the queue goes
through, the takes bring the packets in the order pushed and each with its own bytes, and `m_list`
is the slots in front of `fifo_counter`, none of them twice. -/
theorem fifo_refinement (ops : List (Fifo.Op (List UInt8))) (t : Fifo (List UInt8))
    (hrun : run (Fifo.step slotCount) .empty ops = some t)
    (hsize : ∀ packet, .push packet ∈ ops → packet.length ≤ 512) :
    ∃ s, run perform .fresh (ops.map .of) = some s ∧ s.taken.length = t.taken.length ∧
      (∀ (k : Nat) data, s.taken[k]? = some data →
        ∃ packet, (Fifo.pushes ops)[k]? = some packet ∧ data.take packet.length = packet) ∧
      s.queue.mList.length = t.queued.length ∧
      s.queue.mList = slotsBefore s.queue.fifoCounter.toNat s.queue.mList.length ∧
      s.queue.mList.Nodup := by
  obtain ⟨s, hperform, h⟩ := run_refines hsize hrun
  have hitems : s.pushed = Fifo.pushes ops := by
    rw [h.items, Fifo.run_items hrun]
    rfl
  refine ⟨s, hperform, h.given, ?_, h.mList_length, h.slots, ?_⟩
  · intro k data hk
    have hlt := (List.getElem?_eq_some_iff.mp hk).1
    obtain ⟨packet, hpacket⟩ : ∃ packet, s.pushed[k]? = some packet :=
      ⟨_, List.getElem?_eq_getElem (hlt.trans_le h.le)⟩
    refine ⟨packet, hitems ▸ hpacket, ?_⟩
    exact (List.prefix_iff_eq_take.mp (h.inOrder.2 k data packet hk hpacket)).symm
  · rw [h.slots]
    exact slotsBefore_nodup _ (h.mList_length ▸ h.room)

/-- Nineteen packets one at a time and then three more, which go round the end of the ring; the
last is not taken. -/
theorem fifo_refinement_round : ∃ s, run perform .fresh
      ((Fifo.each ((List.range 19).map fun i => [UInt8.ofNat i]) ++
        [Fifo.Op.push [19], .push [20, 7], .take, .push [21], .take]).map .of) = some s ∧
    s.taken.length = 21 ∧ s.queue.mList.length = 1 ∧
    ∃ data, s.taken[20]? = some data ∧ data.take 2 = [20, 7] := by
  obtain ⟨s, hperform, htaken, hdata, hlist, -⟩ := fifo_refinement
    (Fifo.each ((List.range 19).map fun i => [UInt8.ofNat i]) ++
      [Fifo.Op.push [19], .push [20, 7], .take, .push [21], .take])
    ⟨[[21]], (List.range 20).map (fun i => [UInt8.ofNat i]) ++ [[20, 7]]⟩ rfl (by
      intro packet hp
      simp only [List.mem_append, Fifo.push_mem_each, List.mem_map, List.mem_cons,
        Fifo.Op.push.injEq, reduceCtorEq, List.not_mem_nil, false_or, or_false] at hp
      rcases hp with ⟨i, -, rfl⟩ | rfl | rfl | rfl <;> simp)
  have hlen : s.taken.length = 21 := htaken
  obtain ⟨packet, hpacket, htake⟩ :=
    hdata 20 _ (List.getElem?_eq_getElem (by rw [hlen]; decide))
  cases hpacket
  exact ⟨s, hperform, hlen, hlist, _, List.getElem?_eq_getElem (by rw [hlen]; decide), htake⟩

end RTPVoice.FifoQueue
