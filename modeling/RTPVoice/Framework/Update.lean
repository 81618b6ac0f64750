import Mathlib.Algebra.GroupWithZero.Nat
import Mathlib.Data.List.Perm.Basic
import Mathlib.Tactic.Common

/-! Lists of which one element is replaced. -/

namespace Framework

variable {α β : Type} {xs : List α} {a b c : α} {i j : Nat}

theorem getElem?_replaced (h : xs[i]? = some a) :
    (xs.set i b)[j]? = some c ↔ j = i ∧ c = b ∨ j ≠ i ∧ xs[j]? = some c := by
  obtain ⟨hlt, -⟩ := List.getElem?_eq_some_iff.mp h
  by_cases hj : j = i
  · subst hj
    simp [List.getElem?_set_self hlt, eq_comm]
  · simp [List.getElem?_set_ne (Ne.symm hj), hj]

/-- `P` holds of the new element when it holds of the old one, and only then. -/
theorem exists_mem_replaced {P : α → Prop} (h : xs[i]? = some a) (hP : P b ↔ P a) :
    (∃ x ∈ xs.set i b, P x) ↔ ∃ x ∈ xs, P x := by
  constructor
  · intro hex
    obtain ⟨x, hx, hPx⟩ := hex
    rcases List.mem_or_eq_of_mem_set hx with hx | rfl
    · exact ⟨x, hx, hPx⟩
    · exact ⟨a, List.mem_of_getElem? h, hP.mp hPx⟩
  · intro hex
    obtain ⟨x, hx, hPx⟩ := hex
    obtain ⟨j, hj⟩ := List.mem_iff_getElem?.mp hx
    by_cases he : j = i
    · subst he
      obtain rfl := Option.some.inj (h.symm.trans hj)
      exact ⟨b, List.mem_of_getElem? ((getElem?_replaced h).mpr (.inl ⟨rfl, rfl⟩)), hP.mpr hPx⟩
    · exact ⟨x, List.mem_of_getElem? ((getElem?_replaced h).mpr (.inr ⟨he, hj⟩)), hPx⟩

/-- What is picked of an element is the same for the new one. -/
theorem filterMap_replaced_same {f : α → Option β} (h : xs[i]? = some a) (hf : f b = f a) :
    (xs.set i b).filterMap f = xs.filterMap f := by
  induction xs generalizing i with
  | nil => rfl
  | cons x xs ih =>
    cases i with
    | zero =>
      obtain rfl : x = a := by simpa using h
      rw [List.set_cons_zero, List.filterMap_cons, List.filterMap_cons, hf]
    | succ i => rw [List.set_cons_succ, List.filterMap_cons, List.filterMap_cons, ih h]

/-- Nothing is picked of the new element. -/
theorem filterMap_replaced_none {f : α → Option β} (hf : f b = none) :
    ((xs.set i b).filterMap f).Sublist (xs.filterMap f) := by
  induction xs generalizing i with
  | nil => exact List.Sublist.refl _
  | cons x xs ih =>
    cases i with
    | zero =>
      rw [List.set_cons_zero, List.filterMap_cons_none hf]
      exact (List.sublist_cons_self x xs).filterMap f
    | succ i =>
      rw [List.set_cons_succ, List.filterMap_cons, List.filterMap_cons]
      cases f x with
      | none => exact ih
      | some y => exact ih.cons_cons y

/-- What is picked of the new element takes the place of what was picked of the old one. -/
theorem filterMap_replaced (f : α → Option β) (h : xs[i]? = some a) :
    ((f a).toList ++ (xs.set i b).filterMap f).Perm ((f b).toList ++ xs.filterMap f) := by
  have hcons (x : α) (xs : List α) :
      (x :: xs).filterMap f = (f x).toList ++ xs.filterMap f := by
    rw [List.filterMap_cons]
    cases f x <;> rfl
  induction xs generalizing i with
  | nil => simp at h
  | cons x xs ih =>
    cases i with
    | zero =>
      obtain rfl : x = a := by simpa using h
      rw [List.set_cons_zero, hcons, hcons, ← List.append_assoc, ← List.append_assoc]
      exact List.perm_append_comm.append_right _
    | succ i =>
      rw [List.set_cons_succ, hcons, hcons]
      refine (List.perm_append_comm_assoc _ _ _).trans (((ih h).append_left _).trans ?_)
      exact List.perm_append_comm_assoc _ _ _

/-- The number of the new element takes the place of that of the old one. -/
theorem sum_replaced (f : α → Nat) (h : xs[i]? = some a) :
    ((xs.set i b).map f).sum + f a = (xs.map f).sum + f b := by
  induction xs generalizing i with
  | nil => simp at h
  | cons x xs ih =>
    cases i with
    | zero =>
      obtain rfl : x = a := by simpa using h
      simp only [List.set_cons_zero, List.map_cons, List.sum_cons]
      omega
    | succ i =>
      have hrest := ih (by simpa using h)
      simp only [List.set_cons_succ, List.map_cons, List.sum_cons]
      omega

end Framework
