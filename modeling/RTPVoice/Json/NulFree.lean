import RTPVoice.Json.StyledWriter

namespace Json

open Framework

/-- No byte of the text is zero. -/
def NulFree (text : List UInt8) : Prop := ∀ b ∈ text, b ≠ 0

instance (text : List UInt8) : Decidable (NulFree text) :=
  decidable_of_iff (text.all (· != 0) = true) (by simp [NulFree])

mutual

/-- No part of the value is a real number, which has a text of its own. -/
def Value.isExact : Value → Bool
  | .realValue .. => false
  | .arrayValue elements => elementsExact elements
  | .objectValue members => membersExact members
  | _ => true

def elementsExact : List Value → Bool
  | [] => true
  | v :: vs => v.isExact && elementsExact vs

def membersExact : List (String × Value) → Bool
  | [] => true
  | (_, v) :: ms => v.isExact && membersExact ms

end

variable {s t : List UInt8} {escape : Char → List UInt8} {indentSize : Nat}

theorem nulFree_nil : NulFree [] := by simp [NulFree]

@[simp] theorem nulFree_cons {b : UInt8} : NulFree (b :: s) ↔ b ≠ 0 ∧ NulFree s :=
  List.forall_mem_cons

@[simp] theorem nulFree_append : NulFree (s ++ t) ↔ NulFree s ∧ NulFree t :=
  List.forall_mem_append

theorem nulFree_digits (h : ∀ b ∈ s, Decimal.isDigit b = true) : NulFree s := by
  intro b hb h0
  subst h0
  exact absurd (h 0 hb) (by decide)

theorem nulFree_intText (n : Int) : NulFree (Decimal.intText n) := by
  cases n with
  | ofNat n => exact nulFree_digits (Decimal.text_digits n)
  | negSucc n => exact nulFree_cons.mpr ⟨by decide, nulFree_digits (Decimal.text_digits _)⟩

theorem nulFree_lineBreak (level : Nat) : NulFree (lineBreak indentSize level) := by
  refine nulFree_cons.mpr ⟨by decide, fun b hb => ?_⟩
  rw [(List.mem_replicate.mp hb).2]
  decide

theorem nulFree_comma {α : Type} (rest : List α) : NulFree (comma rest) := by
  unfold comma
  split <;> simp [nulFree_nil]

theorem nulFree_quoted (hescape : ∀ c, NulFree (escape c)) (text : String) :
    NulFree (quoted escape text) := by
  have hbody : NulFree (text.toList.flatMap escape) := by
    intro b hb
    obtain ⟨c, -, hb⟩ := List.mem_flatMap.mp hb
    exact hescape c b hb
  simp [quoted, hbody, nulFree_nil]

mutual

/-- A value is written without a zero byte, whatever its texts, when none is escaped with one. -/
theorem nulFree_styled (hescape : ∀ c, NulFree (escape c)) (level : Nat) (v : Value)
    (h : v.isExact = true) : NulFree (styled escape indentSize level v) := by
  match v with
  | .nullValue => simp only [styled]; decide
  | .intValue n => exact nulFree_intText n
  | .uintValue n => exact nulFree_digits (Decimal.text_digits n)
  | .realValue .. => simp [Value.isExact] at h
  | .stringValue s => exact nulFree_quoted hescape s
  | .booleanValue b => cases b <;> (simp only [styled]; decide)
  | .arrayValue elements =>
    have hbody := nulFree_styledElements hescape (level + 1) elements
      (by simpa [Value.isExact] using h)
    simp [styled, hbody, nulFree_lineBreak, nulFree_nil]
  | .objectValue members =>
    have hbody := nulFree_styledMembers hescape (level + 1) members
      (by simpa [Value.isExact] using h)
    simp [styled, hbody, nulFree_lineBreak, nulFree_nil]

theorem nulFree_styledElements (hescape : ∀ c, NulFree (escape c)) (level : Nat)
    (vs : List Value) (h : elementsExact vs = true) :
    NulFree (styledElements escape indentSize level vs) := by
  match vs with
  | [] => simp [styledElements, nulFree_nil]
  | v :: vs =>
    obtain ⟨hv, hvs⟩ := Bool.and_eq_true_iff.mp h
    have hfirst := nulFree_styled hescape level v hv
    have hrest := nulFree_styledElements hescape level vs hvs
    simp [styledElements, hfirst, hrest, nulFree_lineBreak, nulFree_comma]

theorem nulFree_styledMembers (hescape : ∀ c, NulFree (escape c)) (level : Nat)
    (ms : List (String × Value)) (h : membersExact ms = true) :
    NulFree (styledMembers escape indentSize level ms) := by
  match ms with
  | [] => simp [styledMembers, nulFree_nil]
  | (key, v) :: ms =>
    obtain ⟨hv, hms⟩ := Bool.and_eq_true_iff.mp h
    have hfirst := nulFree_styled hescape level v hv
    have hrest := nulFree_styledMembers hescape level ms hms
    have hsep : NulFree (asciiBytes " : ") := by decide
    simp [styledMembers, hfirst, hrest, hsep, nulFree_quoted hescape, nulFree_lineBreak,
      nulFree_comma]

end

/-! ### A writer without a zero byte -/

/-- Characters outside ASCII are written as question marks. -/
def asciiWriter : StyledWriter where
  write v := styled (fun c => if c.toNat < 128 then escapeChar c else [0x3F]) 3 0 v ++ [0x0A]
  escape c := if c.toNat < 128 then escapeChar c else [0x3F]

theorem asciiWriter_escape (c : Char) : NulFree (asciiWriter.escape c) := by
  have hall : ∀ n < 128, NulFree (escapeChar (Char.ofNat n)) := by decide
  unfold asciiWriter
  dsimp only
  split
  · next hlt =>
    have h := hall c.toNat hlt
    rwa [Char.ofNat_toNat] at h
  · decide

theorem asciiWriter_documented : asciiWriter.Documented 3 where
  plain c h := by
    have hlt : c.toNat < 128 := by
      simp only [isPlain, Bool.and_eq_true, decide_eq_true_eq] at h
      omega
    exact (if_pos hlt).trans ((StyledWriter.standard_documented 3).plain c h)
  control c h := by
    have hlt : c.toNat < 128 := by
      simp only [isControl, Bool.and_eq_true, decide_eq_true_eq] at h
      omega
    have hlen := (StyledWriter.standard_documented 3).control c h
    rw [← hlen]
    exact congrArg List.length (if_pos hlt)
  write _ _ := rfl

end Json
