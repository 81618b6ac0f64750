import RTPVoice.ClientObj.Requester
import RTPVoice.FifoQueue.Refinement

namespace RTPVoice.ClientObj

open Framework Framework.Transition FifoQueue

/-- The payload is queued on `q` as a record of its own: nothing but its slot is written, the next
slot is the next one round the ring, and the take that is its turn brings the whole record. -/
def Admitted (q : FifoQueue) (fd : HSocket) (buff : List UInt8) : Prop :=
  ∃ packet q' data, pushRecvBuffToQueue fd buff = some (0, some packet) ∧
    packet.length = buff.length + handleSize ∧ q.pushToQueue packet = some (true, q') ∧
    (∀ k < slotCount, k ≠ q.fifoCounter.toNat →
      q'.fifobuff.slice (slotSize * k) slotSize = q.fifobuff.slice (slotSize * k) slotSize) ∧
    q'.fifoCounter.toNat = (q.fifoCounter.toNat + 1) % slotCount ∧
    q'.takeAfter q.mList.length = some data ∧ packet <+: data

variable {q : FifoQueue} {fd : HSocket} {buff : List UInt8}

/-- A record longer than a slot is never taken whole. -/
theorem Admitted.fits (h : Admitted q fd buff) : buff.length ≤ 508 := by
  obtain ⟨packet, q', data, -, hlen, -, -, -, htake, hprefix⟩ := h
  have hle := hprefix.length_le
  rw [takeAfter_length htake, hlen] at hle
  simp only [slotSize, handleSize] at hle
  omega

theorem pushRecvBuffToQueue_record (hfd : fd ≠ invalidSocket) (hbuff : buff.length ≤ 512) :
    pushRecvBuffToQueue fd buff = some (0, some (handleField fd ++ buff)) := by
  have hguard : ¬ (512 < buff.length ∨ fd = invalidSocket) := by
    intro h
    cases h with
    | inl hlen => omega
    | inr hinvalid => exact hfd hinvalid
  rw [pushRecvBuffToQueue, if_neg hguard, envelope_eq fd hbuff]
  rfl

theorem admitted_of_fits (hq : Slotted q) (hfd : fd ≠ invalidSocket) (hbuff : buff.length ≤ 508) :
    Admitted q fd buff := by
  have hrecord : (handleField fd ++ buff).length = buff.length + handleSize := by
    rw [List.length_append, handleField_length, Nat.add_comm]
  have hsmall : (handleField fd ++ buff).length ≤ slotSize := by
    simp only [hrecord, slotSize, handleSize]
    omega
  obtain ⟨q', hpush, hq', hlist, hnext, hdata, hothers⟩ := hq.push hsmall
  have hlast : q'.mList[q.mList.length]? = some (address q.fifoCounter.toNat) := by
    rw [hlist]
    simp
  exact ⟨_, q', _, pushRecvBuffToQueue_record hfd (by omega), hrecord, hpush, hothers, hnext,
    hq'.takeAfter hlast, hdata⟩

/-- Exactly the payloads that leave room for the handle in the slot are queued as they should be,
whatever else is queued; `PushRecvBuffToQueue` accepts up to four bytes more. -/
theorem admitted_iff (q : FifoQueue) (fd : HSocket) (buff : List UInt8) (hq : Slotted q)
    (hfd : fd ≠ invalidSocket) : Admitted q fd buff ↔ buff.length ≤ 508 :=
  ⟨Admitted.fits, admitted_of_fits hq hfd⟩

/-- A payload of 509 bytes is accepted, and its last byte is not in the slot. -/
theorem accepted_not_admitted : ∃ buff packet, buff = List.replicate 509 0x7d ∧
    pushRecvBuffToQueue 7 buff = some (0, some packet) ∧ packet.length = 513 ∧
    ¬ Admitted .fresh 7 buff := by
  refine ⟨_, _, rfl, pushRecvBuffToQueue_record (by decide) ?_, ?_, ?_⟩
  · rw [List.length_replicate]
    decide
  · rw [List.length_append, handleField_length, List.length_replicate]
    rfl
  · intro h
    have hfits := h.fits
    rw [List.length_replicate] at hfits
    omega

private def threeBehindTwenty : List (Fifo.Op (List UInt8)) :=
  Fifo.each (List.replicate 20 [1, 2]) ++ [.push [3], .push [4], .push [5]]

/-- The longest such payload on a queue that has gone round and holds three packets. -/
theorem admitted_iff_longest : ∃ s, run perform .fresh (threeBehindTwenty.map .of) = some s ∧
    s.queue.fifoCounter.toNat = 3 ∧ s.queue.mList.length = 3 ∧
    Admitted s.queue 7 (List.replicate 508 0x7d) := by
  have hsize : ∀ packet, .push packet ∈ threeBehindTwenty → packet.length ≤ slotSize := by
    intro packet hp
    simp only [threeBehindTwenty, List.mem_append, Fifo.push_mem_each, List.mem_replicate,
      List.mem_cons, Fifo.Op.push.injEq, List.not_mem_nil, or_false] at hp
    rcases hp with ⟨-, rfl⟩ | rfl | rfl | rfl <;> simp [slotSize]
  obtain ⟨s, hrun, hr⟩ :=
    run_refines (t := ⟨[[3], [4], [5]], List.replicate 20 [1, 2]⟩) hsize rfl
  have hslotted : Slotted s.queue :=
    run_slotted (fun packet hp => hsize packet (Operation.push_mem_map_of.mp hp)) hrun
  refine ⟨s, hrun, ?_, hr.mList_length, ?_⟩
  · rw [hr.counter, hr.items]
    rfl
  · apply (admitted_iff s.queue 7 _ hslotted (by decide)).mpr
    rw [List.length_replicate]

end RTPVoice.ClientObj
