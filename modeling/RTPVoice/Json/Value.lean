import Mathlib.Data.List.Basic
import Mathlib.Tactic.Common

namespace Json

/-- `Json::Value`. The members of an object are in the order of their keys. A real number has the
text it is printed as. -/
inductive Value where
  | nullValue
  | intValue (n : Int)
  | uintValue (n : Nat)
  | realValue (r : Rat) (text : String)
  | stringValue (s : String)
  | booleanValue (b : Bool)
  | arrayValue (elements : List Value)
  | objectValue (members : List (String × Value))

namespace Value

/-- `v` is an object with the member `key` of value `x`. -/
def Has (v : Value) (key : String) (x : Value) : Prop :=
  ∃ members, v = .objectValue members ∧ members.lookup key = some x

def Lacks (v : Value) (key : String) : Prop :=
  ∃ members, v = .objectValue members ∧ members.lookup key = none

/-- The value without its member `key`. -/
def without (key : String) : Value → Value
  | .objectValue members => .objectValue (members.filter fun m => m.1 != key)
  | v => v

end Value

/-- What the program calls of the library to read a text; `none` where a call throws, and where
`Reader::parse` returns false. -/
structure Library where
  parse : List UInt8 → Option Value
  /-- `operator[]` -/
  member : Value → String → Option Value
  asString : Value → Option String
  asInt : Value → Option Int32

/-- The documented results on values of the kind a call is meant for. -/
structure Library.Documented (lib : Library) : Prop where
  member_has : ∀ {v key x}, v.Has key x → lib.member v key = some x
  member_lacks : ∀ {v key}, v.Lacks key → lib.member v key = some .nullValue
  asString_string : ∀ s, lib.asString (.stringValue s) = some s
  asString_null : lib.asString .nullValue = some ""
  asInt_int : ∀ n : Int32, lib.asInt (.intValue n.toInt) = some n

namespace Library

def minInt : Int := -2147483648

def maxInt : Int := 2147483647

/-- `n` as an `int`, when it is in range. -/
def toInt? (n : Int) : Option Int32 :=
  if minInt ≤ n ∧ n ≤ maxInt then some (Int32.ofInt n) else none

/-- The documented operations, over a parser. -/
def withParser (parse : List UInt8 → Option Value) : Library where
  parse := parse
  member v key := match v with
    | .nullValue => some .nullValue
    | .objectValue members => some ((members.lookup key).getD .nullValue)
    | _ => none
  asString v := match v with
    | .nullValue => some ""
    | .intValue n => some (toString n)
    | .uintValue n => some (toString n)
    | .realValue _ text => some text
    | .stringValue s => some s
    | .booleanValue b => some (toString b)
    | _ => none
  asInt v := match v with
    | .nullValue => some 0
    | .intValue n => toInt? n
    | .uintValue n => toInt? n
    | .realValue r _ =>
      if minInt ≤ r ∧ r ≤ maxInt then some (Int32.ofInt (r.num.tdiv r.den)) else none
    | .booleanValue b => some (if b then 1 else 0)
    | _ => none

theorem toInt?_toInt (n : Int32) : toInt? n.toInt = some n := by
  have hle : n.toInt ≤ maxInt := n.toInt_le
  rw [toInt?, if_pos ⟨n.le_toInt, hle⟩, Int32.ofInt_toInt]

theorem withParser_documented (parse : List UInt8 → Option Value) :
    (withParser parse).Documented where
  member_has := by
    intro v key x hx
    obtain ⟨members, rfl, h⟩ := hx
    simp [withParser, h]
  member_lacks := by
    intro v key hlacks
    obtain ⟨members, rfl, h⟩ := hlacks
    simp [withParser, h]
  asString_string _ := rfl
  asString_null := rfl
  asInt_int := toInt?_toInt

end Library

end Json
