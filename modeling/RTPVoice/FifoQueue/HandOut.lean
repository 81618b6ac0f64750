import RTPVoice.FifoQueue.Lag

namespace RTPVoice.FifoQueue

open Framework Framework.Transition

variable {packet slot : List UInt8}

/-- In some run of the queue the packet is pushed, and taken as it was pushed; what lies behind it
in its slot is arbitrary. -/
def HandsOut (packet slot : List UInt8) : Prop :=
  ∃ (actions : List Action) (s : System) (k : Nat), run step .fresh actions = some s ∧
    s.pushed[k]? = some packet ∧ s.taken[k]? = some slot ∧ packet <+: slot

/-- A push that finds fewer than twenty packets unread. -/
def Roomy (s₁ : System) (a : Action) (_ : System) : Prop :=
  ∀ packet, a = .store packet → s₁.pushed.length < s₁.taken.length + slotCount

/-- A single packet is pushed and taken. -/
theorem handsOut_single (packet : List UInt8) (h : packet.length ≤ slotSize) :
    ∃ slot, HandsOut packet slot := by
  obtain ⟨s₁, hrun₁, hshape, hring, hpermit⟩ := run_push shape_fresh h
  have hpushed : s₁.pushed = [packet] := by
    rw [show s₁.pushed = s₁.ring.items from rfl, hring]
    rfl
  have htaken : s₁.taken = [] := by
    rw [← List.length_eq_zero_iff, show s₁.taken.length = s₁.ring.taken from rfl, hring]
    rfl
  obtain ⟨s, hrun, -, hpushed', htaken', -⟩ := run_take hshape (by rw [hpermit]; decide)
    (by simp [hpushed, htaken])
  refine ⟨_, [.store packet, .semPost] ++ [.semWait, .test, .pop], s, 0, ?_,
    by rw [hpushed', hpushed]; rfl, by rw [htaken', htaken]; rfl, ?_⟩
  · rw [run_append, hrun₁, Option.bind_some, hrun]
  · have hshows := System.fresh.ring.push_shows (m := slotCount) (w := packets) packet
    rw [← hring] at hshows
    exact hshows

end RTPVoice.FifoQueue
