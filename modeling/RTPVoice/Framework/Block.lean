import Mathlib.Data.List.Infix
import Mathlib.Tactic.Common

namespace Framework

/-- A memory object of `n` bytes; accesses are checked against its bounds. -/
@[ext] structure Block (n : Nat) where
  bytes : List UInt8
  size : bytes.length = n
  deriving DecidableEq

namespace Block

variable {n : Nat}

def zero (n : Nat) : Block n := ⟨List.replicate n 0, List.length_replicate⟩

/-- One byte; pointer arithmetic is signed. -/
def get (b : Block n) (i : Int) : Option UInt8 :=
  if 0 ≤ i then b.bytes[i.toNat]? else none

/-- The `len` bytes at `off`. A negative length is a huge unsigned one, never in bounds. -/
def read (b : Block n) (off len : Int) : Option (List UInt8) :=
  if 0 ≤ off ∧ 0 ≤ len ∧ off + len ≤ n then
    some ((b.bytes.drop off.toNat).take len.toNat)
  else none

/-- `memcpy` of `src` to offset `off`. -/
def write (b : Block n) (off : Nat) (src : List UInt8) : Option (Block n) :=
  if h : off + src.length ≤ n then
    some ⟨b.bytes.take off ++ (src ++ b.bytes.drop (off + src.length)), by
      have := b.size
      simp only [List.length_append, List.length_take, List.length_drop]
      omega⟩
  else none

/-- `memset` of everything from `off` to the end to zero. -/
def zeroFrom (b : Block n) (off : Int) : Option (Block n) :=
  if h : 0 ≤ off ∧ off ≤ n then
    some ⟨b.bytes.take off.toNat ++ List.replicate (n - off.toNat) 0, by
      have := b.size
      simp only [List.length_append, List.length_take, List.length_replicate]
      omega⟩
  else none

/-- The object begins with the bytes `w`. -/
def Holds (b : Block n) (w : List UInt8) : Prop := w <+: b.bytes

theorem holds_nil (b : Block n) : b.Holds [] := List.nil_prefix

theorem Holds.length_le {b : Block n} {w : List UInt8} (h : b.Holds w) : w.length ≤ n := by
  rw [← b.size]
  exact List.IsPrefix.length_le h

theorem Holds.get {b : Block n} {w : List UInt8} (h : b.Holds w) {i : Int} (h0 : 0 ≤ i)
    (hi : i < w.length) : b.get i = w[i.toNat]? := by
  obtain ⟨t, ht⟩ := h
  rw [Block.get, if_pos h0, ← ht]
  exact List.getElem?_append_left (by omega)

theorem Holds.read {b : Block n} {w : List UInt8} (h : b.Holds w) {off len : Int}
    (h0 : 0 ≤ off) (hl : 0 ≤ len) (he : off + len ≤ w.length) :
    b.read off len = some ((w.drop off.toNat).take len.toNat) := by
  have hn := h.length_le
  obtain ⟨t, ht⟩ := h
  rw [Block.read, if_pos ⟨h0, hl, by omega⟩, ← ht, List.drop_append_of_le_length (by omega),
    List.take_append_of_le_length (by simp only [List.length_drop]; omega)]

theorem read_eq_some {b : Block n} {off len : Int} {r : List UInt8} : b.read off len = some r ↔
    (0 ≤ off ∧ 0 ≤ len ∧ off + len ≤ n) ∧ (b.bytes.drop off.toNat).take len.toNat = r := by
  unfold read
  split
  · next h => simp [h]
  · next h => simp [h]

theorem write_eq_some {b b' : Block n} {off : Nat} {src : List UInt8} :
    b.write off src = some b' ↔ off + src.length ≤ n ∧
      b'.bytes = b.bytes.take off ++ (src ++ b.bytes.drop (off + src.length)) := by
  unfold write
  split
  · next h =>
    rw [Option.some.injEq, Block.ext_iff]
    exact ⟨fun e => ⟨h, e.symm⟩, fun e => e.2.symm⟩
  · next h => simp [h]

/-- Copying in right behind the bytes held so far appends to them. -/
theorem Holds.write {b : Block n} {w : List UInt8} (h : b.Holds w) (src : List UInt8)
    (he : w.length + src.length ≤ n) :
    ∃ b', b.write w.length src = some b' ∧ b'.Holds (w ++ src) := by
  have ht : b.bytes.take w.length = w := (List.prefix_iff_eq_take.mp h).symm
  refine ⟨_, dif_pos he, b.bytes.drop (w.length + src.length), ?_⟩
  simp only [ht, List.append_assoc]

/-- The object is `w` and zeros. -/
def Filled (b : Block n) (w : List UInt8) : Prop :=
  b.bytes = w ++ List.replicate (n - w.length) 0

theorem filled_zero (n : Nat) : (zero n).Filled [] := by simp [Filled, zero]

theorem Filled.write {b : Block n} {w : List UInt8} (h : b.Filled w) (src : List UInt8)
    (he : w.length + src.length ≤ n) :
    ∃ b', b.write w.length src = some b' ∧ b'.Filled (w ++ src) := by
  refine ⟨_, dif_pos he, ?_⟩
  have hdrop : n - w.length - src.length = n - (w.length + src.length) := by omega
  simp only [Filled, (show b.bytes = _ from h), List.take_left, List.drop_append,
    List.length_append, hdrop, Nat.add_sub_cancel_left, List.drop_replicate,
    List.drop_eq_nil_of_le (Nat.le_add_right _ _), List.nil_append, List.append_assoc]

theorem zeroFrom_holds {b : Block n} {w : List UInt8} (h : b.Holds w) (off : Int)
    (ho : off = w.length) : ∃ b', b.zeroFrom off = some b' ∧ b'.Holds w := by
  have hn := h.length_le
  have ht : b.bytes.take w.length = w := (List.prefix_iff_eq_take.mp h).symm
  subst ho
  refine ⟨_, dif_pos ⟨by omega, by omega⟩, List.replicate (n - w.length) 0, ?_⟩
  simp only [Int.toNat_natCast, ht]

theorem Filled.holds {b : Block n} {w : List UInt8} (h : b.Filled w) : b.Holds w := ⟨_, h.symm⟩

theorem Filled.unique {b b' : Block n} {w : List UInt8} (h : b.Filled w) (h' : b'.Filled w) :
    b = b' :=
  Block.ext (Eq.trans h h'.symm)

/-- Bytes moved from the front to the front stay, and everything behind them is cleared. -/
theorem Holds.keep {b : Block n} {w : List UInt8} (h : b.Holds w) : ∃ b₁ b₂,
    b.read 0 w.length = some w ∧ b.write 0 w = some b₁ ∧ b₁.zeroFrom w.length = some b₂ ∧
      b₂.Filled w := by
  have hn := h.length_le
  have hread := h.read (Int.le_refl 0) (Int.natCast_nonneg w.length) (by omega)
  refine ⟨_, _, by simpa using hread, dif_pos (by omega), dif_pos ⟨by omega, by omega⟩, ?_⟩
  simp [Filled]

/-- The `len` bytes at `off`, where both are known to be in bounds. -/
def slice (b : Block n) (off len : Nat) : List UInt8 := (b.bytes.drop off).take len

theorem read_eq_slice (b : Block n) {off len : Nat} (h : off + len ≤ n) :
    b.read off len = some (b.slice off len) := by
  rw [read, if_pos ⟨by omega, by omega, by omega⟩]
  rfl

theorem slice_getElem? (b : Block n) (off len i : Nat) :
    (b.slice off len)[i]? = if i < len then b.bytes[off + i]? else none := by
  rw [slice, List.getElem?_take, List.getElem?_drop]

theorem write_getElem? {b b' : Block n} {off : Nat} {src : List UInt8}
    (h : b.write off src = some b') (i : Nat) :
    b'.bytes[i]? = if off ≤ i ∧ i < off + src.length then src[i - off]? else b.bytes[i]? := by
  obtain ⟨hle, hb⟩ := write_eq_some.mp h
  have hs := b.size
  have ht : (b.bytes.take off).length = off := by rw [List.length_take]; omega
  rw [hb, List.getElem?_append, ht]
  by_cases hi : i < off
  · rw [if_pos hi, if_neg (by omega), List.getElem?_take_of_lt hi]
  · rw [if_neg hi, List.getElem?_append]
    by_cases hj : i - off < src.length
    · rw [if_pos hj, if_pos (by omega)]
    · rw [if_neg hj, if_neg (by omega), List.getElem?_drop]
      congr 1
      omega

/-- Bytes outside the written range are unchanged. -/
theorem slice_write_disjoint {b b' : Block n} {off : Nat} {src : List UInt8}
    (h : b.write off src = some b') {o l : Nat} (hd : o + l ≤ off ∨ off + src.length ≤ o) :
    b'.slice o l = b.slice o l := by
  apply List.ext_getElem?
  intro i
  rw [slice_getElem?, slice_getElem?]
  by_cases hi : i < l
  · rw [if_pos hi, if_pos hi, write_getElem? h, if_neg (by omega)]
  · rw [if_neg hi, if_neg hi]

/-- A range that begins where the write began holds the written bytes, then its old tail. -/
theorem slice_write_same {b b' : Block n} {off : Nat} {src : List UInt8}
    (h : b.write off src = some b') {l : Nat} (hl : src.length ≤ l) :
    b'.slice off l = src ++ (b.slice off l).drop src.length := by
  apply List.ext_getElem?
  intro i
  rw [slice_getElem?, write_getElem? h, List.getElem?_append, List.getElem?_drop, slice_getElem?]
  by_cases hi : i < src.length
  · rw [if_pos (by omega), if_pos (by omega), if_pos hi]
    congr 1
    omega
  · rw [if_neg (show ¬ (off ≤ off + i ∧ off + i < off + src.length) by omega), if_neg hi]
    by_cases hil : i < l
    · rw [if_pos hil, if_pos (by omega)]
      congr 1
      omega
    · rw [if_neg hil, if_neg (by omega)]

end Block

end Framework
