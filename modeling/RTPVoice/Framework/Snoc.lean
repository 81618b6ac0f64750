import Mathlib.Data.List.Nodup
import Mathlib.Tactic.Common

/-! Lists that grow at their end. -/

namespace Framework

variable {α β : Type} {xs : List α} {a b : α}

theorem getElem?_snoc {i : Nat} :
    (xs ++ [a])[i]? = some b ↔ xs[i]? = some b ∨ i = xs.length ∧ b = a := by
  constructor
  · intro h
    have hlt := (List.getElem?_eq_some_iff.mp h).1
    rw [List.length_append, List.length_singleton] at hlt
    cases Nat.lt_or_eq_of_le (Nat.le_of_lt_succ hlt) with
    | inl hlt =>
      rw [List.getElem?_append_left hlt] at h
      exact .inl h
    | inr heq =>
      subst heq
      exact .inr ⟨rfl, by simpa using h.symm⟩
  · intro h
    cases h with
    | inl h => rw [List.getElem?_append_left (List.getElem?_eq_some_iff.mp h).1, h]
    | inr h =>
      obtain ⟨rfl, rfl⟩ := h
      simp

theorem forall_mem_snoc {p : α → Prop} :
    (∀ x ∈ xs ++ [a], p x) ↔ (∀ x ∈ xs, p x) ∧ p a := by
  rw [List.forall_mem_append, List.forall_mem_singleton]

theorem nodup_snoc : (xs ++ [a]).Nodup ↔ a ∉ xs ∧ xs.Nodup := by
  rw [← List.concat_eq_append, List.nodup_concat]

theorem nodup_map_snoc {f : α → β} :
    ((xs ++ [a]).map f).Nodup ↔ (∀ x ∈ xs, f x ≠ f a) ∧ (xs.map f).Nodup := by
  rw [List.map_append, List.map_singleton, nodup_snoc, List.mem_map]
  refine and_congr_left fun _ => ?_
  constructor
  · intro h x hx he
    exact h ⟨x, hx, he⟩
  · intro h hmem
    obtain ⟨x, hx, he⟩ := hmem
    exact h x hx he

end Framework
