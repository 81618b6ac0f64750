import Mathlib.Data.List.Induction
import Mathlib.Tactic.IntervalCases
import Mathlib.Tactic.Ring

namespace Framework.Decimal

def isSpace (b : UInt8) : Bool := b == 32 || (9 ≤ b && b ≤ 13)

def isDigit (b : UInt8) : Bool := 48 ≤ b && b ≤ 57

/-- Positional value of a list of ASCII digits. -/
def value (ds : List UInt8) : Nat := ds.foldl (fun v b => 10 * v + (b.toNat - 48)) 0

/-- What `%d` prints for a natural number. -/
def text (n : Nat) : List UInt8 := (Nat.toDigits 10 n).map Char.toUInt8

/-- What `%d` prints. -/
def intText : Int → List UInt8
  | .ofNat n => text n
  | .negSucc n => 45 :: text (n + 1)

/-- `text n` with zeros in front up to the width `w`. -/
def padded (w n : Nat) : List UInt8 := List.replicate (w - (text n).length) 48 ++ text n

def scanUnsigned (s : List UInt8) : Option Nat :=
  if s.takeWhile isDigit = [] then none else some (value (s.takeWhile isDigit))

def scanSigned (s : List UInt8) : Option Int :=
  if s.head? = some 45 then (scanUnsigned s.tail).map fun v : Nat => -(v : Int)
  else if s.head? = some 43 then (scanUnsigned s.tail).map Int.ofNat
  else (scanUnsigned s).map Int.ofNat

/-- The `%d` conversion: blanks, a sign, then at least one digit, up to the first byte that is not
one; `none` when nothing matches, and the target keeps its value. -/
def scan (s : List UInt8) : Option Int := scanSigned (s.dropWhile isSpace)

/-- The same with a field width, counted behind the blanks. -/
def scanWidth (w : Nat) (s : List UInt8) : Option Int := scanSigned ((s.dropWhile isSpace).take w)

theorem isDigit_iff (b : UInt8) : isDigit b = true ↔ 48 ≤ b.toNat ∧ b.toNat ≤ 57 := by
  simp only [isDigit, Bool.and_eq_true, decide_eq_true_eq, UInt8.le_iff_toNat_le]
  rfl

theorem not_isSpace_of_isDigit {b : UInt8} (h : isDigit b = true) : isSpace b = false := by
  have hb := (isDigit_iff b).mp h
  simp only [isSpace, Bool.or_eq_false_iff, beq_eq_false_iff_ne, ne_eq, Bool.and_eq_false_iff,
    decide_eq_false_iff_not, UInt8.le_iff_toNat_le, ← UInt8.toNat_inj]
  constructor
  · intro e
    have : b.toNat = 32 := e
    omega
  · right
    intro e
    have : b.toNat ≤ 13 := e
    omega

theorem value_append (xs ys : List UInt8) :
    value (xs ++ ys) = 10 ^ ys.length * value xs + value ys := by
  have shift (l : List UInt8) (v : Nat) : l.foldl (fun v b => 10 * v + (b.toNat - 48)) v =
      10 ^ l.length * v + value l := by
    induction l generalizing v with
    | nil => simp [value]
    | cons b l ih =>
      simp only [value, List.foldl_cons, List.length_cons, pow_succ] at ih ⊢
      rw [ih, ih (10 * 0 + (b.toNat - 48))]
      ring
  rw [value, List.foldl_append, shift ys]
  rfl

theorem value_singleton (b : UInt8) : value [b] = b.toNat - 48 := by simp [value]

theorem value_zeros (k : Nat) : value (List.replicate k 48) = 0 := by
  induction k with
  | zero => rfl
  | succ k ih => simp [List.replicate_succ', value_append, ih, value_singleton]

/-- The value of `k` digits is below `10 ^ k`. -/
theorem value_lt {ds : List UInt8} (h : ∀ b ∈ ds, isDigit b = true) :
    value ds < 10 ^ ds.length := by
  induction ds using List.reverseRecOn with
  | nil => simp [value]
  | append_singleton ds b ih =>
    have hb := (isDigit_iff b).mp (h b (by simp))
    have hv := ih (fun c hc => h c (by simp [hc]))
    simp only [value_append, value_singleton, List.length_append, List.length_singleton, pow_succ]
    omega

private theorem digitChar_toUInt8 {d : Nat} (h : d < 10) :
    isDigit d.digitChar.toUInt8 = true ∧ d.digitChar.toUInt8.toNat - 48 = d := by
  interval_cases d <;> decide

theorem text_eq_if (n : Nat) : text n =
    if n < 10 then [n.digitChar.toUInt8] else text (n / 10) ++ [(n % 10).digitChar.toUInt8] := by
  rw [text, Nat.toDigits_eq_if (by decide)]
  split
  · rfl
  · simp [text]

theorem text_ne_nil (n : Nat) : text n ≠ [] := by simp [text]

theorem text_digits (n : Nat) : ∀ b ∈ text n, isDigit b = true := by
  induction n using Nat.strongRecOn with
  | ind n ih =>
    intro b hb
    rw [text_eq_if] at hb
    split at hb
    · next h =>
      rw [List.mem_singleton.mp hb]
      exact (digitChar_toUInt8 h).1
    · cases List.mem_append.mp hb with
      | inl hb => exact ih (n / 10) (by omega) b hb
      | inr hb =>
        rw [List.mem_singleton.mp hb]
        exact (digitChar_toUInt8 (Nat.mod_lt n (by decide))).1

@[simp] theorem value_text (n : Nat) : value (text n) = n := by
  induction n using Nat.strongRecOn with
  | ind n ih =>
    rw [text_eq_if]
    split
    · next h => rw [value_singleton, (digitChar_toUInt8 h).2]
    · rw [value_append, ih (n / 10) (by omega), value_singleton,
        (digitChar_toUInt8 (Nat.mod_lt n (by decide))).2, List.length_singleton]
      omega

theorem length_text_le {n k : Nat} (hk : 0 < k) : (text n).length ≤ k ↔ n < 10 ^ k := by
  rw [text, List.length_map]
  exact Nat.length_toDigits_le_iff (by decide) hk

theorem length_intText_le {n : Int} {k : Nat} (hk : 0 < k) (h : n.natAbs < 10 ^ k) :
    (intText n).length ≤ k + 1 := by
  have htext := (length_text_le hk).mpr h
  cases n with
  | ofNat n =>
    simp only [intText, Int.natAbs_natCast, Int.ofNat_eq_natCast] at htext ⊢
    omega
  | negSucc n =>
    rw [Int.natAbs_negSucc, Nat.succ_eq_add_one] at htext
    rw [intText, List.length_cons]
    omega

/-- A value of 32 bits has at most eleven characters. -/
theorem length_intText_int32 (v : Int32) : (intText v.toInt).length ≤ 11 := by
  have hlo := v.le_toInt
  have hhi := v.toInt_lt
  exact length_intText_le (k := 10) (by decide) (by omega)

theorem padded_length {w n : Nat} (hw : 0 < w) (h : n < 10 ^ w) : (padded w n).length = w := by
  have := (length_text_le hw).mpr h
  simp only [padded, List.length_append, List.length_replicate]
  omega

theorem padded_digits (w n : Nat) : ∀ b ∈ padded w n, isDigit b = true := by
  intro b hb
  cases List.mem_append.mp hb with
  | inl hb =>
    rw [(List.mem_replicate.mp hb).2]
    decide
  | inr hb => exact text_digits n b hb

@[simp] theorem value_padded (w n : Nat) : value (padded w n) = n := by
  simp [padded, value_append, value_zeros]

/-! ### Scanning -/

theorem takeWhile_digits {ds s : List UInt8} (h : ∀ b ∈ ds, isDigit b = true) :
    (ds ++ s).takeWhile isDigit = ds ++ s.takeWhile isDigit :=
  List.takeWhile_append_of_pos h

theorem scanUnsigned_digits {ds s : List UInt8} (hne : ds ≠ []) (h : ∀ b ∈ ds, isDigit b = true)
    (hs : s.takeWhile isDigit = []) : scanUnsigned (ds ++ s) = some (value ds) := by
  rw [scanUnsigned, takeWhile_digits h, hs, List.append_nil, if_neg hne]

private theorem head_digit {ds : List UInt8} (hne : ds ≠ []) (h : ∀ b ∈ ds, isDigit b = true) :
    ∃ b t, ds = b :: t ∧ isDigit b = true := by
  cases ds with
  | nil => exact absurd rfl hne
  | cons b t => exact ⟨b, t, rfl, h b (by simp)⟩

theorem dropWhile_space {ds : List UInt8} (s : List UInt8) (hne : ds ≠ [])
    (h : ∀ b ∈ ds, isDigit b = true) : (ds ++ s).dropWhile isSpace = ds ++ s := by
  obtain ⟨b, t, rfl, hb⟩ := head_digit hne h
  simp [not_isSpace_of_isDigit hb]

theorem scanSigned_digits {ds s : List UInt8} (hne : ds ≠ []) (h : ∀ b ∈ ds, isDigit b = true)
    (hs : s.takeWhile isDigit = []) : scanSigned (ds ++ s) = some (value ds : Int) := by
  have hu := scanUnsigned_digits hne h hs
  obtain ⟨b, t, rfl, hb⟩ := head_digit hne h
  have hd := (isDigit_iff b).mp hb
  have h45 : b ≠ 45 := by
    intro hb
    subst hb
    exact absurd hd (by decide)
  have h43 : b ≠ 43 := by
    intro hb
    subst hb
    exact absurd hd (by decide)
  rw [scanSigned, if_neg (by simpa using h45), if_neg (by simpa using h43), hu]
  rfl

theorem scanSigned_neg {ds s : List UInt8} (hne : ds ≠ []) (h : ∀ b ∈ ds, isDigit b = true)
    (hs : s.takeWhile isDigit = []) : scanSigned (45 :: (ds ++ s)) = some (-(value ds : Int)) := by
  rw [scanSigned, List.head?_cons, if_pos rfl, List.tail_cons, scanUnsigned_digits hne h hs]
  rfl

theorem scan_digits {ds : List UInt8} (hne : ds ≠ []) (h : ∀ b ∈ ds, isDigit b = true) :
    scan ds = some (value ds : Int) := by
  have hd := dropWhile_space [] hne h
  have hs := scanSigned_digits (s := []) hne h rfl
  rw [List.append_nil] at hd hs
  rw [scan, hd, hs]

/-- A fixed-width decimal field is read back. -/
theorem scan_padded (w n : Nat) : scan (padded w n) = some (n : Int) := by
  rw [scan_digits _ (padded_digits w n), value_padded]
  simp only [padded, ne_eq, List.append_eq_nil_iff, not_and]
  exact fun _ => text_ne_nil n

/-- A number in a field of `w` bytes: its text, cut at the width or filled up with NULs. -/
def field (w : Nat) (n : Int) : List UInt8 := (intText n ++ List.replicate w 0).take w

theorem field_length (w : Nat) (n : Int) : (field w n).length = w := by
  simp only [field, List.length_take, List.length_append, List.length_replicate]
  omega

private theorem zeros_digits (w k : Nat) :
    ((List.replicate w (0 : UInt8)).take k).takeWhile isDigit = [] := by
  cases w <;> cases k <;> simp [List.replicate_succ, isDigit]

/-- The value read back from a field, whatever follows it, has at most `w` characters and is the
number itself when that has no more. -/
theorem scanWidth_field {w : Nat} (hw : 2 ≤ w) (n : Int) (s : List UInt8) :
    ∃ v : Int, scanWidth w (field w n ++ s) = some v ∧ -(10 ^ (w - 1) : Nat) < v ∧
      v < (10 ^ w : Nat) ∧ (-(10 ^ (w - 1) : Nat) < n → n < (10 ^ w : Nat) → v = n) := by
  have hlen := field_length w n
  cases n with
  | ofNat n =>
    have hf : field w (.ofNat n) =
        (text n).take w ++ (List.replicate w 0).take (w - (text n).length) := by
      rw [field, List.take_append]
      rfl
    have hne : (text n).take w ≠ [] := by
      rw [ne_eq, List.take_eq_nil_iff, not_or]
      exact ⟨by omega, text_ne_nil n⟩
    have hds : ∀ b ∈ (text n).take w, isDigit b = true :=
      fun b hb => text_digits n b (List.mem_of_mem_take hb)
    have hlt := value_lt hds
    have hle : 10 ^ ((text n).take w).length ≤ 10 ^ w :=
      Nat.pow_le_pow_right (by decide) (List.length_take_le _ _)
    have hpos : 0 < 10 ^ (w - 1) := Nat.pow_pos (by decide)
    refine ⟨value ((text n).take w), ?_, by omega, by omega, fun _ hn => ?_⟩
    · rw [scanWidth, hf, List.append_assoc, dropWhile_space _ hne hds, ← List.append_assoc, ← hf,
        List.take_left' hlen, hf]
      exact scanSigned_digits hne hds (zeros_digits w _)
    · have hn' : n < 10 ^ w := Int.ofNat_lt.mp hn
      rw [List.take_of_length_le ((length_text_le (by omega)).mpr hn'), value_text]
      rfl
  | negSucc m =>
    obtain ⟨k, rfl⟩ : ∃ k, w = k + 1 := ⟨w - 1, by omega⟩
    have hf : field (k + 1) (.negSucc m) = 45 :: ((text (m + 1)).take k ++
        (List.replicate (k + 1) 0).take (k - (text (m + 1)).length)) := by
      rw [field, intText, List.cons_append, List.take_succ_cons, List.take_append]
    have hne : (text (m + 1)).take k ≠ [] := by
      rw [ne_eq, List.take_eq_nil_iff, not_or]
      exact ⟨by omega, text_ne_nil (m + 1)⟩
    have hds : ∀ b ∈ (text (m + 1)).take k, isDigit b = true :=
      fun b hb => text_digits (m + 1) b (List.mem_of_mem_take hb)
    have hlt := value_lt hds
    have hle : 10 ^ ((text (m + 1)).take k).length ≤ 10 ^ k :=
      Nat.pow_le_pow_right (by decide) (List.length_take_le _ _)
    have hpos : 0 < 10 ^ (k + 1) := Nat.pow_pos (by decide)
    rw [Nat.add_sub_cancel]
    refine ⟨-(value ((text (m + 1)).take k) : Int), ?_, by omega, by omega, fun hn _ => ?_⟩
    · have hdrop : (field (k + 1) (.negSucc m) ++ s).dropWhile isSpace =
          field (k + 1) (.negSucc m) ++ s := by
        rw [hf]
        rfl
      rw [scanWidth, hdrop, List.take_left' hlen, hf]
      exact scanSigned_neg hne hds (zeros_digits (k + 1) _)
    · have hn' : m + 1 < 10 ^ k := by
        rw [Int.negSucc_eq] at hn
        omega
      rw [List.take_of_length_le ((length_text_le (by omega)).mpr hn'), value_text,
        Int.negSucc_eq]
      rfl

end Framework.Decimal
