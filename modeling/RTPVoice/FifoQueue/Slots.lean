import RTPVoice.FifoQueue.Queue
import RTPVoice.Framework.Ring

namespace RTPVoice.FifoQueue

open Framework Framework.Transition

theorem counterValue_counterBytes (n : UInt32) : counterValue (counterBytes n) = n := by
  have hn := n.toNat_lt
  apply UInt32.toNat_inj.mp
  simp only [counterValue, counterBytes, List.foldr_cons, List.foldr_nil, UInt32.toNat_ofNat',
    UInt8.toNat_ofNat']
  omega

/-- Where the pointer of slot `k` points. -/
def address (k : Nat) : Nat := slotSize * (k % slotCount)

/-- A packet that fits its slot is copied to it and nothing else changes there. -/
theorem store_of_le {q : FifoQueue} {packet : List UInt8} {k : Nat}
    (hc : q.fifoCounter.toNat = k % slotCount) (hp : packet.length ≤ slotSize) :
    ∃ buff fifoCounter, q.fifobuff.write (address k) packet = some buff ∧
      fifoCounter.toNat = (k + 1) % slotCount ∧
      q.store packet = some { q with
        mList := q.mList ++ [address k]
        fifobuff := buff
        fifoCounter := fifoCounter } := by
  have hlt : k % slotCount < 20 := Nat.mod_lt k (by decide)
  have hsize := q.fifobuff.size
  have hfit : address k + packet.length ≤ bufferSize := by
    simp only [address, slotSize, bufferSize, slotCount] at *
    omega
  obtain ⟨buff, hbuff⟩ : ∃ buff, q.fifobuff.write (address k) packet = some buff :=
    ⟨_, dif_pos hfit⟩
  obtain ⟨-, hbytes⟩ := Block.write_eq_some.mp hbuff
  obtain ⟨obj, hobject⟩ : ∃ obj, q.object.write (address k) packet = some obj :=
    ⟨_, dif_pos (by omega)⟩
  obtain ⟨-, hwhole⟩ := Block.write_eq_some.mp hobject
  have hsplit : obj.bytes = buff.bytes ++ counterBytes q.fifoCounter := by
    rw [hwhole, hbytes, object, List.take_append_of_le_length (by omega),
      List.drop_append_of_le_length (by omega), List.append_assoc, List.append_assoc]
  have htake : obj.bytes.take bufferSize = buff.bytes := by
    rw [hsplit, List.take_left' buff.size]
  have hdrop : counterValue (obj.bytes.drop bufferSize) = q.fifoCounter := by
    rw [hsplit, List.drop_left' buff.size, counterValue_counterBytes]
  have hadd : (q.fifoCounter + 1).toNat = k % slotCount + 1 := by
    rw [UInt32.toNat_add, hc]
    have : k % slotCount + 1 < 2 ^ 32 := by omega
    exact Nat.mod_eq_of_lt this
  refine ⟨buff, if 19 < q.fifoCounter + 1 then 0 else q.fifoCounter + 1, hbuff, ?_, ?_⟩
  · have hcond : 19 < q.fifoCounter + 1 ↔ 19 < k % slotCount + 1 := by
      rw [UInt32.lt_iff_toNat_lt, hadd]
      rfl
    simp only [hcond]
    split
    · next h =>
      have : k % 20 = 19 := by
        simp only [slotCount] at *
        omega
      simp only [slotCount] at *
      simp
      omega
    · next h =>
      rw [hadd]
      simp only [slotCount] at *
      omega
  · have haddr : slotSize * q.fifoCounter.toNat = address k := by rw [hc]; rfl
    simp only [store, haddr, hobject, Option.bind_eq_bind, Option.bind_some, hdrop]
    simp only [htake]
    rfl

end RTPVoice.FifoQueue
