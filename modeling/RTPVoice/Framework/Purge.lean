import Mathlib.Data.List.Infix
import Mathlib.Tactic.Common

/-! A machine that takes note of every input and answers some. -/

namespace Framework.Purge

variable {μ ι ο : Type} (next : μ → ι → μ) (visible : ι → Bool) (output : μ → ι → Option ο)

/-- The answers to the visible inputs, up to the first that has none. -/
def outputs : μ → List ι → List ο
  | _, [] => []
  | m, x :: xs =>
    if visible x then
      match output (next m x) x with
      | none => []
      | some y => y :: outputs (next m x) xs
    else outputs (next m x) xs

/-- The inputs in front of the first visible one without an answer. -/
def served (answered : ι → Bool) (xs : List ι) : List ι :=
  xs.takeWhile fun x => !visible x || answered x

/-- Whenever an input is answered, `note` holds of the inputs up to it. -/
def AtAnswers (answered : ι → Bool) (xs : List ι) (note : List ι → Prop) : Prop :=
  ∀ seen x, seen ++ [x] <+: served visible answered xs → visible x = true → note (seen ++ [x])

variable {next visible output} {answered : ι → Bool} {x : ι} {xs : List ι} {note : List ι → Prop}

theorem atAnswers_nil : AtAnswers visible answered [] note := by
  intro seen x h
  have hlen := h.length_le
  simp [served] at hlen

theorem atAnswers_cons_hidden (hx : visible x = false) :
    AtAnswers visible answered (x :: xs) note ↔
      AtAnswers visible answered xs fun seen => note (x :: seen) := by
  have hserved : served visible answered (x :: xs) = x :: served visible answered xs := by
    simp [served, hx]
  constructor
  · intro h seen y hy
    exact h (x :: seen) y (by simpa [hserved] using hy)
  · intro h seen y hy hv
    cases seen with
    | nil =>
      obtain rfl : y = x := by simpa [hserved] using hy
      rw [hx] at hv
      cases hv
    | cons z seen =>
      rw [hserved, List.cons_append, List.cons_prefix_cons] at hy
      obtain ⟨rfl, hy⟩ := hy
      exact h seen y hy hv

theorem atAnswers_cons_visible (hx : visible x = true) (ha : answered x = true) :
    AtAnswers visible answered (x :: xs) note ↔
      note [x] ∧ AtAnswers visible answered xs fun seen => note (x :: seen) := by
  have hserved : served visible answered (x :: xs) = x :: served visible answered xs := by
    simp [served, ha]
  constructor
  · intro h
    refine ⟨h [] x (by simp [hserved]) hx, fun seen y hy => ?_⟩
    exact h (x :: seen) y (by simpa [hserved] using hy)
  · intro h seen y hy hv
    cases seen with
    | nil =>
      obtain rfl : y = x := by simpa [hserved] using hy
      exact h.1
    | cons z seen =>
      rw [hserved, List.cons_append, List.cons_prefix_cons] at hy
      obtain ⟨rfl, hy⟩ := hy
      exact h.2 seen y hy hv

theorem atAnswers_cons_stop (hx : visible x = true) (ha : answered x = false) :
    AtAnswers visible answered (x :: xs) note := by
  intro seen y hy
  have hserved : served visible answered (x :: xs) = [] := by simp [served, hx, ha]
  have hlen := (hserved ▸ hy).length_le
  simp at hlen

/-- Deleting the inputs that are not answered changes no answer exactly when, at every answer, the
notes taken are those of the answered inputs alone. -/
theorem outputs_filter_iff
    (hanswered : ∀ m x, visible x = true → (output m x).isSome = answered x)
    (hshows : ∀ m m' x y, output m x = some y → output m' x = some y → m = m') (m m' : μ) :
    outputs next visible output m xs = outputs next visible output m' (xs.filter visible) ↔
      AtAnswers visible answered xs fun seen =>
        seen.foldl next m = (seen.filter visible).foldl next m' := by
  induction xs generalizing m m' with
  | nil => simp [outputs, atAnswers_nil]
  | cons x xs ih =>
    by_cases hx : visible x = true
    · rw [List.filter_cons_of_pos hx, outputs, outputs, if_pos hx, if_pos hx]
      by_cases ha : answered x = true
      · obtain ⟨y, hy⟩ := Option.isSome_iff_exists.mp ((hanswered (next m x) x hx).trans ha)
        obtain ⟨y', hy'⟩ := Option.isSome_iff_exists.mp ((hanswered (next m' x) x hx).trans ha)
        rw [hy, hy', atAnswers_cons_visible hx ha]
        simp only [List.cons.injEq, ih, List.filter_cons_of_pos hx, List.filter_nil,
          List.foldl_cons, List.foldl_nil]
        apply and_congr_left
        intro _
        constructor
        · intro he
          exact hshows _ _ x y hy (he ▸ hy')
        · intro he
          rw [he] at hy
          exact Option.some.inj (hy.symm.trans hy')
      · rw [Bool.not_eq_true] at ha
        have hnone (m : μ) : output m x = none := by
          have := hanswered m x hx
          rw [ha] at this
          exact Option.not_isSome_iff_eq_none.mp (by simp [this])
        rw [hnone, hnone]
        simp only [true_iff]
        exact atAnswers_cons_stop hx ha
    · rw [Bool.not_eq_true] at hx
      have hx' : ¬ visible x = true := by simp [hx]
      rw [List.filter_cons_of_neg hx', outputs, if_neg hx', atAnswers_cons_hidden hx, ih]
      simp only [List.foldl_cons, List.filter_cons_of_neg hx']

/-- The answers to visible inputs alone, one for each. -/
theorem outputs_getElem? (hall : ∀ x ∈ xs, visible x = true) {m : μ} {k : Nat} {y : ο}
    (h : (outputs next visible output m xs)[k]? = some y) :
    ∃ x, xs[k]? = some x ∧ output ((xs.take (k + 1)).foldl next m) x = some y := by
  induction xs generalizing m k with
  | nil => simp [outputs] at h
  | cons x xs ih =>
    rw [outputs, if_pos (hall x List.mem_cons_self)] at h
    cases hy : output (next m x) x with
    | none => simp [hy] at h
    | some z =>
      rw [hy] at h
      cases k with
      | zero =>
        obtain rfl : z = y := by simpa using h
        exact ⟨x, rfl, hy⟩
      | succ k =>
        obtain ⟨x', hx', ho⟩ := ih (fun w hw => hall w (List.mem_cons_of_mem _ hw)) h
        exact ⟨x', hx', ho⟩

end Framework.Purge
