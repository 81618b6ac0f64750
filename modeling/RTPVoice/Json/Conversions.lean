import RTPVoice.Json.Value

namespace Json

/-- The bytes of a text of ASCII characters. -/
def asciiBytes (s : String) : List UInt8 := s.toList.map Char.toUInt8

namespace Value

/-- `operator[]` with a string key takes the value: an object, or null, which counts as one without
members. -/
def isKeyed : Value → Bool
  | .nullValue | .objectValue _ => true
  | _ => false

/-- The member `key`, null where there is none. -/
def get (v : Value) (key : String) : Value :=
  match v with
  | .objectValue members => (members.lookup key).getD .nullValue
  | _ => .nullValue

/-- `asString` takes the value. -/
def isTextual : Value → Bool
  | .arrayValue _ | .objectValue _ => false
  | _ => true

def text : Value → String
  | .intValue n => toString n
  | .uintValue n => toString n
  | .realValue _ text => text
  | .stringValue s => s
  | .booleanValue b => toString b
  | _ => ""

/-- `asInt` takes the value. -/
def isIntegral : Value → Bool
  | .nullValue | .booleanValue _ => true
  | .intValue n => Library.minInt ≤ n && n ≤ Library.maxInt
  | .uintValue n => n ≤ Library.maxInt
  | .realValue r _ => Library.minInt ≤ r && r ≤ Library.maxInt
  | _ => false

/-- `clear` takes the value. -/
def isClearable : Value → Bool
  | .nullValue | .arrayValue _ | .objectValue _ => true
  | _ => false

theorem isClearable_of_isKeyed {v : Value} (h : v.isKeyed = true) : v.isClearable = true := by
  cases v <;> simp_all [isKeyed, isClearable]

end Value

/-- The documented results on every value; what a call does not take it throws on. -/
structure Library.Strict (lib : Library) : Prop where
  member : ∀ v key, lib.member v key = if v.isKeyed then some (v.get key) else none
  asString : ∀ v, lib.asString v = if v.isTextual then some v.text else none
  asInt : ∀ v, (lib.asInt v).isSome = v.isIntegral

namespace Library

theorem isSome_toInt? (n : Int) : (toInt? n).isSome = (minInt ≤ n && n ≤ maxInt : Bool) := by
  unfold toInt?
  split <;> simp_all

theorem withParser_strict (parse : List UInt8 → Option Value) : (withParser parse).Strict where
  member v key := by cases v <;> rfl
  asString v := by cases v <;> rfl
  asInt v := by
    cases v with
    | intValue n => exact isSome_toInt? n
    | uintValue n =>
      have hmin : minInt ≤ (n : Int) := Int.le_trans (by decide) (Int.natCast_nonneg n)
      show (toInt? n).isSome = _
      simp [isSome_toInt?, hmin, Value.isIntegral]
    | realValue r text =>
      simp only [withParser, Value.isIntegral]
      split <;> simp_all
    | _ => rfl

end Library

end Json
