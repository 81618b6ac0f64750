import RTPVoice.FifoQueue.Lag

namespace RTPVoice.FifoQueue

open Framework Framework.Transition

variable {s s' : System} {a : Action} {head : List UInt8}

/-- All packets begin alike, and so do the slots they were written to, read or not. -/
structure Headed (head : List UInt8) (s : System) : Prop extends Shape s where
  pushed : ∀ packet ∈ s.pushed, head <+: packet
  cells : ∀ i < s.pushed.length, head <+: s.ring.cells (i % slotCount)
  taken : ∀ slot ∈ s.taken, head <+: slot

theorem headed_fresh (head : List UInt8) : Headed head .fresh :=
  ⟨shape_fresh, by simp [System.fresh], by simp [System.fresh], by simp [System.fresh]⟩

/-- A packet over an unread one leaves its slot with the same beginning. -/
theorem headed_step (h : Headed head s) (hpacket : ∀ packet, a = .store packet →
    packet.length ≤ slotSize ∧ head <+: packet) (hs : step s a = some s') : Headed head s' := by
  by_cases hstore : ∃ packet, a = .store packet
  · obtain ⟨packet, rfl⟩ := hstore
    obtain ⟨hsmall, hhead⟩ := hpacket packet rfl
    obtain ⟨hshape, hring, htaken, hpushed⟩ := store_ring h.toShape hsmall hs
    refine ⟨hshape, ?_, fun i hi => ?_, htaken ▸ h.taken⟩
    · rw [hpushed]
      exact forall_mem_snoc.mpr ⟨h.pushed, hhead⟩
    · rw [hring]
      by_cases hcell : i % slotCount = s.pushed.length % slotCount
      · rw [hcell]
        exact hhead.trans (s.ring.push_shows (m := slotCount) (w := packets) packet)
      · rw [SlotRing.push_cells_ne _ _ hcell]
        refine h.cells i ?_
        rw [hpushed, List.length_append, List.length_singleton] at hi
        exact Nat.lt_of_le_of_ne (Nat.le_of_lt_succ hi) fun he => hcell (he ▸ rfl)
  · have hquiet : ∀ packet, a ≠ .store packet := fun packet he => hstore ⟨packet, he⟩
    obtain ⟨hbuff, -, hpushed, htaken⟩ := quiet_step hquiet hs
    have hcells : s'.ring.cells = s.ring.cells := by
      unfold System.ring
      rw [hbuff]
    refine ⟨h.toShape.quiet hquiet hs, hpushed ▸ h.pushed, ?_, ?_⟩
    · rw [hpushed, hcells]
      exact h.cells
    · rcases htaken with ⟨htaken, -⟩ | ⟨sBuffer, data, hlist, hread, htaken⟩
      · exact htaken ▸ h.taken
      · obtain ⟨hlt, rfl, -⟩ := h.toShape.front hlist
        rw [read_address] at hread
        rw [htaken]
        exact forall_mem_snoc.mpr ⟨h.taken, Option.some.inj hread ▸ h.cells _ hlt⟩

end RTPVoice.FifoQueue
