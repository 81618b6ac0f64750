import RTPVoice.Framework.Decimal
import RTPVoice.Json.Conversions

namespace Json

open Framework

/-- A character that stands for itself in a quoted string. -/
def isPlain (c : Char) : Bool := 0x20 ≤ c.toNat && c.toNat < 0x7F && c != '"' && c != '\\'

/-- A control character without a short escape. -/
def isControl (c : Char) : Bool := c.toNat < 0x20 && !([8, 9, 10, 12, 13].contains c.toNat)

/-- What the program calls of `StyledWriter`, and how it writes a character inside quotes. -/
structure StyledWriter where
  write : Value → List UInt8
  escape : Char → List UInt8

/-! ### The layout -/

section Layout

variable (escape : Char → List UInt8) (indentSize : Nat)

def quoted (s : String) : List UInt8 := 0x22 :: (s.toList.flatMap escape ++ [0x22])

/-- A line break, and the indentation of the next line. -/
def lineBreak (level : Nat) : List UInt8 := 0x0A :: List.replicate (indentSize * level) 0x20

def comma {α : Type} (rest : List α) : List UInt8 := if rest.isEmpty then [] else [0x2C]

mutual

/-- The text of a value, with one member or element on a line. -/
def styled : Nat → Value → List UInt8
  | _, .nullValue => asciiBytes "null"
  | _, .intValue n => Decimal.intText n
  | _, .uintValue n => Decimal.text n
  | _, .realValue _ text => asciiBytes text
  | _, .stringValue s => quoted escape s
  | _, .booleanValue b => asciiBytes (toString b)
  | level, .arrayValue elements =>
    0x5B :: (styledElements (level + 1) elements ++ lineBreak indentSize level ++ [0x5D])
  | level, .objectValue members =>
    0x7B :: (styledMembers (level + 1) members ++ lineBreak indentSize level ++ [0x7D])

def styledElements : Nat → List Value → List UInt8
  | _, [] => []
  | level, v :: vs =>
    lineBreak indentSize level ++ styled level v ++ comma vs ++ styledElements level vs

def styledMembers : Nat → List (String × Value) → List UInt8
  | _, [] => []
  | level, (key, v) :: ms =>
    lineBreak indentSize level ++ quoted escape key ++ asciiBytes " : " ++ styled level v ++
      comma ms ++ styledMembers level ms

end

end Layout

mutual

/-- No array or object is empty, and arrays are of objects: nothing is put on one line. -/
def Value.isSpread : Value → Bool
  | .arrayValue elements => !elements.isEmpty && elementsSpread elements
  | .objectValue members => !members.isEmpty && membersSpread members
  | _ => true

def elementsSpread : List Value → Bool
  | [] => true
  | .objectValue members :: vs => !members.isEmpty && membersSpread members && elementsSpread vs
  | _ :: _ => false

def membersSpread : List (String × Value) → Bool
  | [] => true
  | (_, v) :: ms => v.isSpread && membersSpread ms

end

/-- The documented output. -/
structure StyledWriter.Documented (w : StyledWriter) (indentSize : Nat) : Prop where
  plain : ∀ c, isPlain c = true → w.escape c = [c.toUInt8]
  control : ∀ c, isControl c = true → (w.escape c).length = 6
  write : ∀ v : Value, v.isSpread = true → w.write v = styled w.escape indentSize 0 v ++ [0x0A]

/-! ### Lengths -/

variable {escape : Char → List UInt8} {indentSize level : Nat}

theorem quoted_length (s : String) :
    (quoted escape s).length = (s.toList.map fun c => (escape c).length).sum + 2 := by
  simp [quoted, List.length_flatMap]

theorem quoted_length_of {k : Nat} {s : String} (h : ∀ c ∈ s.toList, (escape c).length = k) :
    (quoted escape s).length = k * s.toList.length + 2 := by
  have hmap : s.toList.map (fun c => (escape c).length) = List.replicate s.toList.length k := by
    rw [List.eq_replicate_iff]
    simpa using h
  rw [quoted_length, hmap, List.sum_replicate_nat, Nat.mul_comm]

@[simp] theorem lineBreak_length :
    (lineBreak indentSize level).length = indentSize * level + 1 := by
  simp [lineBreak]

/-- A text of plain characters is as long as it is, and its quotes. -/
theorem StyledWriter.Documented.quoted_plain {w : StyledWriter} (hw : w.Documented indentSize)
    {s : String} (h : s.toList.all isPlain = true) :
    (quoted w.escape s).length = s.toList.length + 2 := by
  rw [quoted_length_of (k := 1), Nat.one_mul]
  intro c hc
  rw [hw.plain c (List.all_eq_true.mp h c hc)]
  rfl

/-- Control characters take six bytes each. -/
theorem StyledWriter.Documented.quoted_control {w : StyledWriter} (hw : w.Documented indentSize)
    {s : String} (h : s.toList.all isControl = true) :
    (quoted w.escape s).length = 6 * s.toList.length + 2 :=
  quoted_length_of fun c hc => hw.control c (List.all_eq_true.mp h c hc)

/-! ### A writer as documented -/

def hexDigit (n : Nat) : UInt8 := (Nat.digitChar n).toUInt8

/-- The escapes of the characters below 0x80. -/
def escapeChar (c : Char) : List UInt8 :=
  if c = '"' then asciiBytes "\\\""
  else if c = '\\' then asciiBytes "\\\\"
  else if 0x20 ≤ c.toNat then [c.toUInt8]
  else
    match [(8, "\\b"), (9, "\\t"), (10, "\\n"), (12, "\\f"), (13, "\\r")].lookup c.toNat with
    | some text => asciiBytes text
    | none => asciiBytes "\\u00" ++ [hexDigit (c.toNat / 16), hexDigit (c.toNat % 16)]

def StyledWriter.standard (indentSize : Nat) : StyledWriter where
  write v := styled escapeChar indentSize 0 v ++ [0x0A]
  escape := escapeChar

theorem StyledWriter.standard_documented (indentSize : Nat) :
    (standard indentSize).Documented indentSize where
  plain c h := by
    simp only [isPlain, Bool.and_eq_true, decide_eq_true_eq, bne_iff_ne] at h
    show escapeChar c = _
    rw [escapeChar, if_neg h.1.2, if_neg h.2, if_pos h.1.1.1]
  control c h := by
    simp only [isControl, Bool.and_eq_true, decide_eq_true_eq, Bool.not_eq_true',
      List.contains_eq_mem, decide_eq_false_iff_not] at h
    obtain ⟨hlt, hshort⟩ := h
    have hquote : c ≠ '"' := by
      rintro rfl
      exact absurd hlt (by decide)
    have hslash : c ≠ '\\' := by
      rintro rfl
      exact absurd hlt (by decide)
    have hnone : [(8, "\\b"), (9, "\\t"), (10, "\\n"), (12, "\\f"), (13, "\\r")].lookup c.toNat =
        none := by
      rw [List.lookup_eq_none_iff]
      simp only [List.mem_cons, List.not_mem_nil, or_false, not_or] at hshort
      simpa using hshort
    show (escapeChar c).length = 6
    rw [escapeChar, if_neg hquote, if_neg hslash, if_neg (by omega), hnone]
    rfl
  write v _ := rfl

end Json
