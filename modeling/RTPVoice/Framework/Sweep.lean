import Mathlib.Data.List.Basic
import Mathlib.Data.List.Perm.Basic
import Mathlib.Tactic.Common

namespace Framework.Sweep

variable {α β : Type} {p : α → Bool} {items : α → List β} {l : List α} {a : α} {i j n : Nat}

/-! ### A cursor that goes over a table of lists -/

/-- The first entry from `n` on that has something. -/
def nextFrom (p : α → Bool) (l : List α) (n : Nat) : Option Nat :=
  ((l.drop n).findIdx? p).map (n + ·)

/-- A cursor is moved to the first entry from `n` on that has something, or there is none. -/
def FirstFrom (p : α → Bool) (l : List α) (n : Nat) : Option Nat → Prop
  | some j => n ≤ j ∧ j < l.length ∧ ∀ i a, n ≤ i → i < j → l[i]? = some a → p a = false
  | none => ∀ i a, n ≤ i → l[i]? = some a → p a = false

theorem firstFrom_nextFrom (p : α → Bool) (l : List α) (n : Nat) :
    FirstFrom p l n (nextFrom p l n) := by
  unfold nextFrom
  cases hk : (l.drop n).findIdx? p with
  | none =>
    intro i a hle ha
    refine List.findIdx?_eq_none_iff.mp hk a (List.mem_of_getElem? (i := i - n) ?_)
    rwa [List.getElem?_drop, Nat.add_sub_cancel' hle]
  | some k =>
    obtain ⟨hlt, -, hbefore⟩ := List.findIdx?_eq_some_iff_getElem.mp hk
    rw [List.length_drop] at hlt
    refine ⟨Nat.le_add_right n k, Nat.add_lt_of_lt_sub' hlt, fun i a hle hi ha => ?_⟩
    replace hi : i < n + k := hi
    have hnone := hbefore (i - n) (by omega)
    obtain ⟨_, rfl⟩ := List.getElem?_eq_some_iff.mp ha
    simpa [Nat.add_sub_cancel' hle] using hnone

/-- Nothing is passed over. -/
theorem FirstFrom.some (hitems : ∀ a, p a = false → items a = [])
    (h : FirstFrom p l n (some j)) :
    n ≤ j ∧ j < l.length ∧ (l.drop n).flatMap items = (l.drop j).flatMap items ∧
      (l.take j).flatMap items = (l.take n).flatMap items := by
  obtain ⟨hle, hlt, hbefore⟩ := h
  obtain ⟨k, rfl⟩ := Nat.exists_eq_add_of_le hle
  have hnone : ((l.drop n).take k).flatMap items = [] := by
    refine List.flatMap_eq_nil_iff.mpr fun a ha => hitems a ?_
    obtain ⟨m, hm, rfl⟩ := List.mem_take_iff_getElem.mp ha
    refine hbefore (n + m) _ (Nat.le_add_right n m) (by omega) ?_
    rw [List.getElem_drop]
    exact List.getElem?_eq_getElem _
  refine ⟨hle, hlt, ?_, ?_⟩
  · have hsplit := congrArg (List.flatMap items) (List.take_append_drop k (l.drop n))
    rw [List.flatMap_append, hnone, List.nil_append, List.drop_drop] at hsplit
    exact hsplit.symm
  · rw [List.take_add, List.flatMap_append, hnone, List.append_nil]

theorem FirstFrom.none (hitems : ∀ a, p a = false → items a = [])
    (h : FirstFrom p l n none) : (l.drop n).flatMap items = [] := by
  refine List.flatMap_eq_nil_iff.mpr fun a ha => hitems a ?_
  obtain ⟨i, hi⟩ := List.mem_iff_getElem?.mp ha
  rw [List.getElem?_drop] at hi
  exact h (n + i) a (Nat.le_add_right n i) hi

theorem drop_flatMap (h : l[i]? = some a) :
    (l.drop i).flatMap items = items a ++ (l.drop (i + 1)).flatMap items := by
  obtain ⟨hlt, rfl⟩ := List.getElem?_eq_some_iff.mp h
  rw [List.drop_eq_getElem_cons hlt, List.flatMap_cons]

theorem take_flatMap (h : l[i]? = some a) :
    (l.take (i + 1)).flatMap items = (l.take i).flatMap items ++ items a := by
  obtain ⟨hlt, rfl⟩ := List.getElem?_eq_some_iff.mp h
  rw [← List.take_append_getElem hlt, List.flatMap_append, List.flatMap_singleton]

/-! ### What the table holds when one entry changes -/

theorem flatMap_split (h : l[i]? = some a) (items : α → List β) :
    l.flatMap items = (l.take i).flatMap items ++ (items a ++ (l.drop (i + 1)).flatMap items) := by
  rw [← drop_flatMap h, ← List.flatMap_append, List.take_append_drop]

theorem flatMap_set (h : l[i]? = some a) (a' : α) (items : α → List β) :
    (l.set i a').flatMap items =
      (l.take i).flatMap items ++ (items a' ++ (l.drop (i + 1)).flatMap items) := by
  obtain ⟨hlt, -⟩ := List.getElem?_eq_some_iff.mp h
  rw [List.set_eq_take_append_cons_drop, if_pos hlt, List.flatMap_append, List.flatMap_cons]

theorem drop_flatMap_set (h : l[i]? = some a) (a' : α) (items : α → List β) :
    ((l.set i a').drop i).flatMap items = items a' ++ (l.drop (i + 1)).flatMap items := by
  obtain ⟨hlt, -⟩ := List.getElem?_eq_some_iff.mp h
  rw [drop_flatMap (List.getElem?_set_self hlt), List.drop_set_of_lt (Nat.lt_succ_self i)]

/-- An entry changed to one that looks alike. -/
theorem map_set {γ : Type} {f : α → γ} {a' : α} (h : l[i]? = some a) (he : f a' = f a) :
    (l.set i a').map f = l.map f := by
  obtain ⟨hlt, rfl⟩ := List.getElem?_eq_some_iff.mp h
  rw [List.map_set, he, ← List.getElem_map f (h := by simpa using hlt), List.set_getElem_self]

theorem count_set [BEq β] (h : l[i]? = some a) (a' : α) (items : α → List β) (x : β) :
    ((l.set i a').flatMap items).count x + (items a).count x =
      (l.flatMap items).count x + (items a').count x := by
  rw [flatMap_set h, flatMap_split h items]
  simp only [List.count_append]
  omega

theorem count_eraseIdx [BEq β] (h : l[i]? = some a) (items : α → List β) (x : β) :
    ((l.eraseIdx i).flatMap items).count x + (items a).count x = (l.flatMap items).count x := by
  rw [List.eraseIdx_eq_take_drop_succ, List.flatMap_append, flatMap_split h items]
  simp only [List.count_append]
  omega

end Framework.Sweep
