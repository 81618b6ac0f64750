import RTPVoice.Framework.Snoc
import Mathlib.Data.List.Induction

namespace Framework

/-- Cells of type `α` that items of type `β` are written over. -/
structure Overlay (α β : Type) where
  put : α → β → α
  Shows : α → β → Prop
  Agrees : β → β → Prop
  shows_put : ∀ a b, Shows (put a b) b
  shows_put_iff : ∀ a b old, Shows a old → (Shows (put a b) old ↔ Agrees b old)

/-- A ring of cells with all items ever written, of which the first `taken` were read. -/
@[ext] structure SlotRing (α β : Type) where
  cells : Nat → α
  items : List β
  taken : Nat

namespace SlotRing

variable {α β : Type} (m : Nat) (w : Overlay α β)

/-- The next item is written over the next cell, whatever is in it. -/
def push (r : SlotRing α β) (b : β) : SlotRing α β :=
  { r with
    cells := fun k => if k = r.items.length % m then w.put (r.cells k) b else r.cells k
    items := r.items ++ [b] }

/-- Every unread item is still in its cell. -/
def Intact (r : SlotRing α β) : Prop :=
  ∀ i b, r.taken ≤ i → r.items[i]? = some b → w.Shows (r.cells (i % m)) b

/-- The unread items of the next cell do not mind `b`. -/
def Admits (r : SlotRing α β) (b : β) : Prop :=
  ∀ i old, r.taken ≤ i → i % m = r.items.length % m → r.items[i]? = some old → w.Agrees b old

variable {m w} {r : SlotRing α β}

theorem push_cells_self (r : SlotRing α β) (b : β) :
    (r.push m w b).cells (r.items.length % m) = w.put (r.cells (r.items.length % m)) b := by
  simp only [push, if_true]

theorem push_cells_ne (r : SlotRing α β) (b : β) {k : Nat} (h : k ≠ r.items.length % m) :
    (r.push m w b).cells k = r.cells k := by
  simp only [push, if_neg h]

theorem push_shows (r : SlotRing α β) (b : β) :
    w.Shows ((r.push m w b).cells (r.items.length % m)) b := by
  rw [push_cells_self]
  exact w.shows_put _ _

theorem intact_push_iff (h : r.Intact m w) (b : β) :
    (r.push m w b).Intact m w ↔ r.Admits m w b := by
  constructor
  · intro hnew i old hi hcell hold
    have hlt := (List.getElem?_eq_some_iff.mp hold).1
    have hs := hnew i old hi (by rw [push, List.getElem?_append_left hlt, hold])
    rw [hcell, push_cells_self] at hs
    exact (w.shows_put_iff _ b old (hcell ▸ h i old hi hold)).mp hs
  · intro hadm i old hi hold
    cases getElem?_snoc.mp hold with
    | inl hold =>
      by_cases hcell : i % m = r.items.length % m
      · rw [hcell, push_cells_self]
        exact (w.shows_put_iff _ b old (hcell ▸ h i old hi hold)).mpr (hadm i old hi hcell hold)
      · rw [push_cells_ne r b hcell]
        exact h i old hi hold
    | inr hnew =>
      obtain ⟨rfl, rfl⟩ := hnew
      exact r.push_shows old

/-- With at most `m` items unread the next cell is free. -/
theorem admits_of_room (hm : r.items.length < r.taken + m) (b : β) : r.Admits m w b := by
  intro i old hi hcell hold
  have hlt := (List.getElem?_eq_some_iff.mp hold).1
  have hdvd := Nat.sub_mod_eq_zero_of_mod_eq hcell.symm
  rw [Nat.mod_eq_of_lt (by omega)] at hdvd
  omega

/-! ### What a cell is made of -/

/-- Cell `k` after the items have been written round the ring, each over what was in its cell. -/
def layers (m : Nat) (w : Overlay α β) (cells : Nat → α) (items : List β) (k : Nat) : α :=
  (items.zipIdx.filter fun item => item.2 % m = k).foldl (fun a item => w.put a item.1) (cells k)

variable {cells : Nat → α} {items : List β} {k : Nat}

theorem layers_snoc_self {b : β} (h : items.length % m = k) :
    layers m w cells (items ++ [b]) k = w.put (layers m w cells items k) b := by
  rw [layers, List.zipIdx_append, List.filter_append, List.foldl_append]
  simp [h, layers]

theorem layers_snoc_ne {b : β} (h : items.length % m ≠ k) :
    layers m w cells (items ++ [b]) k = layers m w cells items k := by
  rw [layers, List.zipIdx_append, List.filter_append, List.foldl_append]
  simp [h, layers]

/-- Items of other cells do not count. -/
theorem layers_append {more : List β}
    (h : ∀ i < more.length, (items.length + i) % m ≠ k) :
    layers m w cells (items ++ more) k = layers m w cells items k := by
  induction more using List.reverseRecOn with
  | nil => rw [List.append_nil]
  | append_singleton more b ih =>
    rw [← List.append_assoc, layers_snoc_ne, ih]
    · intro i hi
      exact h i (by simp only [List.length_append]; omega)
    · rw [List.length_append]
      exact h more.length (by simp)

theorem push_layers (h : r.cells = layers m w cells r.items) (b : β) :
    (r.push m w b).cells = layers m w cells (r.push m w b).items := by
  funext k
  by_cases hk : r.items.length % m = k
  · subst hk
    rw [push_cells_self, h]
    exact (layers_snoc_self rfl).symm
  · rw [push_cells_ne r b (Ne.symm hk), h]
    exact (layers_snoc_ne hk).symm

end SlotRing

end Framework
