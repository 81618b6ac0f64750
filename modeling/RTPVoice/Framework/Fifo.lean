import RTPVoice.Framework.Transition

namespace Framework

open Transition

/-- A queue: the items in it, oldest first, and all that were taken out of it. -/
structure Fifo (β : Type) where
  queued : List β
  taken : List β

namespace Fifo

variable {β : Type}

inductive Op (β : Type) where
  | push (b : β)
  | take

def empty : Fifo β := ⟨[], []⟩

/-- A push needs room for one more of the `n` items; a take from an empty queue brings nothing. -/
def step (n : Nat) (t : Fifo β) : Op β → Option (Fifo β)
  | .push b => if t.queued.length < n then some { t with queued := t.queued ++ [b] } else none
  | .take =>
    match t.queued with
    | [] => some t
    | b :: queued => some ⟨queued, t.taken ++ [b]⟩

/-- The items pushed, in order. -/
def pushes : List (Op β) → List β
  | [] => []
  | .push b :: ops => b :: pushes ops
  | .take :: ops => pushes ops

variable {n : Nat} {t t' : Fifo β} {ops : List (Op β)}

theorem step_push {b : β} (h : step n t (.push b) = some t') :
    t.queued.length < n ∧ t' = { t with queued := t.queued ++ [b] } := by
  simp only [step] at h
  split at h
  · next hlt => exact ⟨hlt, (Option.some.inj h).symm⟩
  · cases h

theorem step_take (h : step n t .take = some t') :
    (t.queued = [] ∧ t' = t) ∨ ∃ b, t.queued = b :: t'.queued ∧ t'.taken = t.taken ++ [b] := by
  simp only [step] at h
  split at h
  · next hempty => exact .inl ⟨hempty, (Option.some.inj h).symm⟩
  · next b queued hcons =>
    cases h
    exact .inr ⟨b, hcons, rfl⟩

/-- Nothing is lost, doubled or reordered. -/
theorem run_items (h : run (step n) t ops = some t') :
    t'.taken ++ t'.queued = t.taken ++ t.queued ++ pushes ops := by
  induction ops generalizing t with
  | nil =>
    cases h
    simp [pushes]
  | cons op ops ih =>
    obtain ⟨t₁, hs, h⟩ := Option.bind_eq_some_iff.mp h
    rw [ih h]
    cases op with
    | push b =>
      obtain ⟨-, rfl⟩ := step_push hs
      simp [pushes]
    | take =>
      cases step_take hs with
      | inl hempty => rw [hempty.2, pushes]
      | inr hnext =>
        obtain ⟨b, hqueued, htaken⟩ := hnext
        rw [htaken, hqueued, pushes]
        simp

/-- Each item pushed and at once taken. -/
def each (bs : List β) : List (Op β) := bs.flatMap fun b => [.push b, .take]

@[simp] theorem pushes_each (bs : List β) : pushes (each bs) = bs := by
  induction bs with
  | nil => rfl
  | cons b bs ih =>
    show b :: pushes (each bs) = b :: bs
    rw [ih]

@[simp] theorem push_mem_each {b : β} {bs : List β} : .push b ∈ each bs ↔ b ∈ bs := by
  simp [each]

theorem run_each (hn : 0 < n) (bs taken : List β) :
    run (step n) ⟨[], taken⟩ (each bs) = some ⟨[], taken ++ bs⟩ := by
  induction bs generalizing taken with
  | nil => simp [each]
  | cons b bs ih =>
    have hpush : step n ⟨[], taken⟩ (.push b) = some ⟨[b], taken⟩ := if_pos hn
    have htake : step n ⟨[b], taken⟩ .take = some ⟨[], taken ++ [b]⟩ := rfl
    show run (step n) ⟨[], taken⟩ (.push b :: .take :: each bs) = _
    rw [run_cons, hpush, Option.bind_some, run_cons, htake, Option.bind_some, ih]
    simp

end Fifo

end Framework
