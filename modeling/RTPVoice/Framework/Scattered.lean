import Mathlib.Data.List.Infix
import Mathlib.Tactic.Common

namespace Framework.Framing

variable {α β : Type}

/-- The images of the items stand in `v` in their order and apart, with anything between them. -/
inductive Scattered (Image : α → List β → Prop) : List α → List β → Prop where
  | nil (v : List β) : Scattered Image [] v
  | cons {p : α} {u : List β} {ps : List α} {v : List β} (gap : List β) (image : Image p u)
      (rest : Scattered Image ps v) : Scattered Image (p :: ps) (gap ++ u ++ v)

variable {Image : α → List β → Prop} {p : α} {u v v' rest rest' : List β} {ps qs : List α}
  {whole whole' : Prop}

theorem Scattered.single (h : Image p u) : Scattered Image [p] u := by
  simpa using Scattered.cons [] h (.nil [])

theorem Scattered.skip (gap : List β) (h : Scattered Image ps v) :
    Scattered Image ps (gap ++ v) := by
  cases h with
  | nil => exact .nil _
  | cons gap' h ht =>
    rw [← List.append_assoc, ← List.append_assoc]
    exact .cons (gap ++ gap') h ht

theorem Scattered.append (h : Scattered Image ps u) (h' : Scattered Image qs v) :
    Scattered Image (ps ++ qs) (u ++ v) := by
  induction h with
  | nil w => exact h'.skip w
  | cons gap h _ ih =>
    rw [List.append_assoc]
    exact .cons gap h ih

/-- Every item's image is a part of the stream. -/
theorem Scattered.exists_image (h : Scattered Image ps v) (hp : p ∈ ps) :
    ∃ u, Image p u ∧ u <:+: v := by
  induction h with
  | nil => cases hp
  | @cons q u ps v gap h _ ih =>
    rcases List.mem_cons.mp hp with rfl | hp
    · exact ⟨u, h, gap, v, rfl⟩
    · obtain ⟨u', h', hin⟩ := ih hp
      exact ⟨u', h', hin.trans (List.suffix_append _ _).isInfix⟩

/-- Some of the items, in their order, are scattered too. -/
theorem Scattered.sublist (h : Scattered Image ps v) (hsub : qs.Sublist ps) :
    Scattered Image qs v := by
  induction h generalizing qs with
  | nil v =>
    cases hsub
    exact .nil v
  | cons gap image _ ih =>
    cases hsub with
    | cons _ hsub => exact (ih hsub).skip _
    | cons_cons _ hsub => exact .cons gap image (ih hsub)

/-! ### What is taken out of a stream, and what is left -/

/-- The items were taken out of `v` in order, and `rest` is left behind the last. Under `whole`
nothing is lost but what lies between images. -/
def Yields (Image : α → List β → Prop) (whole : Prop) (v : List β) (ps : List α) (rest : List β) :
    Prop :=
  ∃ front, Scattered Image ps front ∧ (front ++ rest).Sublist v ∧ (whole → front ++ rest = v)

theorem yields_nil (v : List β) : Yields Image whole v [] v :=
  ⟨[], .nil _, List.Sublist.refl v, fun _ => rfl⟩

theorem yields_drop (n : Nat) (v : List β) : Yields Image whole v [] (v.drop n) := by
  refine ⟨v.take n, .nil _, ?_, fun _ => List.take_append_drop n v⟩
  rw [List.take_append_drop]

/-- One item taken from the front, and part of what is behind it kept. -/
theorem yields_single (h : Image p u) (hsub : rest.Sublist v) (hwhole : whole → rest = v) :
    Yields Image whole (u ++ v) [p] rest :=
  ⟨u, .single h, (List.Sublist.refl u).append hsub, fun hw => by rw [hwhole hw]⟩

/-- What is left is given up. -/
theorem Yields.forget (h : Yields Image whole v ps rest) : Yields Image whole v ps [] := by
  obtain ⟨front, hfront, hsub, heq⟩ := h
  refine ⟨front ++ rest, ?_, by simpa using hsub, by simpa using heq⟩
  simpa using hfront.append (.nil rest)

/-- What comes behind is looked at together with what was left. -/
theorem Yields.trans (h : Yields Image whole v ps rest)
    (h' : Yields Image whole' (rest ++ v') qs rest') :
    Yields Image (whole ∧ whole') (v ++ v') (ps ++ qs) rest' := by
  obtain ⟨front, hfront, hsub, heq⟩ := h
  obtain ⟨front', hfront', hsub', heq'⟩ := h'
  refine ⟨front ++ front', hfront.append hfront', ?_, fun hw => ?_⟩
  · have hmore := (List.Sublist.refl front).append hsub'
    rw [← List.append_assoc, ← List.append_assoc] at hmore
    exact hmore.trans (hsub.append (List.Sublist.refl v'))
  · rw [List.append_assoc, heq' hw.2, ← List.append_assoc, heq hw.1]

theorem Yields.weaken (h : Yields Image whole v ps rest) (hwhole : whole' → whole) :
    Yields Image whole' v ps rest := by
  obtain ⟨front, hfront, hsub, heq⟩ := h
  exact ⟨front, hfront, hsub, fun hw => heq (hwhole hw)⟩

/-- Seen from the stream, the images stand in what was not lost. -/
theorem Yields.scattered (h : Yields Image whole v ps rest) :
    ∃ kept, Scattered Image ps kept ∧ kept.Sublist v ∧ (whole → kept = v) := by
  obtain ⟨front, hfront, hsub, heq⟩ := h
  refine ⟨front ++ rest, ?_, hsub, heq⟩
  simpa using hfront.append (.nil rest)

end Framework.Framing
