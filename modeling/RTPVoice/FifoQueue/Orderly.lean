import RTPVoice.FifoQueue.HandOut
import RTPVoice.FifoQueue.Wakeups

namespace RTPVoice.FifoQueue

open Framework Framework.Transition

/-- What holds of a queue while no push finds twenty packets unread. -/
structure Orderly (s : System) : Prop extends Sane s where
  backed : Backed s
  claimed : Claimed s
  room : s.pushed.length ≤ s.taken.length + slotCount

variable {s s' : System} {a : Action}

theorem orderly_fresh : Orderly .fresh := ⟨sane_fresh, backed_fresh, rfl, Nat.zero_le _⟩

theorem Orderly.mList_length (h : Orderly s) :
    s.queue.mList.length = s.pushed.length - s.taken.length := by
  rw [h.list, List.length_map, List.length_range']

/-- Twenty packets at most are queued, far from the limit of the semaphore. -/
theorem Orderly.posted (h : Orderly s) (hs : step s a = some s') : Posted s a s' := by
  intro ha
  subst ha
  have hlen := h.mList_length
  have hroom := h.room
  obtain ⟨hle, -⟩ := h.backed
  cases step_stepsTo hs with
  | semPost hposting =>
    simp only [slotCount, maxPermits] at *
    omega

theorem orderly_step (h : Orderly s) (hsmall : ∀ packet, a = .store packet →
    packet.length ≤ slotSize) (hroomy : Roomy s a s') (hs : step s a = some s') : Orderly s' := by
  have hbacked := backed_step h.backed hs
  have hclaimed := (claimed_step h.backed hs).mpr ⟨h.claimed, h.posted hs⟩
  by_cases hstore : ∃ packet, a = .store packet
  · obtain ⟨packet, rfl⟩ := hstore
    have hlt := hroomy packet rfl
    have hu : Unaltered s (.store packet) s' := by
      refine (store_unaltered h.toSane (hsmall packet rfl) hs).2.mpr fun p _ => ?_
      exact SlotRing.admits_of_room (w := packets) (r := s.ring) hlt p
    obtain ⟨-, -, htaken, hpushed⟩ := store_ring h.toShape (hsmall packet rfl) hs
    refine ⟨h.toSane.store (hsmall packet rfl) hs hu, hbacked, hclaimed, ?_⟩
    rw [htaken, hpushed, List.length_append, List.length_singleton]
    omega
  · have hquiet : ∀ packet, a ≠ .store packet := fun packet he => hstore ⟨packet, he⟩
    have hroom := h.room
    obtain ⟨-, -, hpushed, htaken⟩ := quiet_step hquiet hs
    refine ⟨h.toSane.quiet hquiet hs, hbacked, hclaimed, ?_⟩
    rw [hpushed]
    rcases htaken with ⟨ht, -⟩ | ⟨_, _, -, -, ht⟩
    · rwa [ht]
    · rw [ht, List.length_append]
      omega

end RTPVoice.FifoQueue
