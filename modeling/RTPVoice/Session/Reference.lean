import RTPVoice.Json.Value

namespace RTPVoice.Session

open Json

/-- The requests a client sends. -/
inductive Request where
  | connect
  | listening (channel1 channel2 : Int32)
  | query
  | callRequest (src dst : Int32) (channel : String)
  | callRelease (src dst : Int32) (channel : String)
  | callStart (src dst : Int32) (channel : String)
  deriving DecidableEq

/-- Reduction to a signed 16-bit value. -/
def signed16 (c : Int32) : Int := c.toInt.bmod 65536

/-- What a message tells the client, identifiers aside. -/
inductive Message where
  | reply (name status reason : String)
  | listening (channel1 channel2 : Int)
  | query (channel1 channel2 : Int)
  | notification (name : String) (src dst : Int) (channel : String)
  deriving DecidableEq

/-- The values of the latest listening request, zero before the first. -/
structure Channels where
  channel1 : Int
  channel2 : Int
  deriving DecidableEq

def Request.next (latest : Channels) : Request → Channels
  | .listening c₁ c₂ => ⟨signed16 c₁, signed16 c₂⟩
  | _ => latest

def Request.answer (latest : Channels) : Request → List Message
  | .connect => [.reply "Connect" "success" "fine!"]
  | .listening c₁ c₂ => [.listening (signed16 c₁) (signed16 c₂)]
  | .query => [.query latest.channel1 latest.channel2]
  | .callRequest src dst channel =>
    [.reply "CallRequest" "fail" "Unconnect", .notification "CallStart" src.toInt dst.toInt channel]
  | .callRelease src dst channel =>
    [.reply "CallRelease" "fail" "Unconnect", .notification "CallEnd" src.toInt dst.toInt channel]
  | .callStart .. => []

/-- The answers to a sequence of requests, request by request. -/
def answers : Channels → List Request → List (List Message)
  | _, [] => []
  | latest, r :: rs => r.answer latest :: answers (r.next latest) rs

/-- The numbers of the channels that are zero. -/
def zeroChannels (c₁ c₂ : Int) : List Nat :=
  [(1, c₁), (2, c₂)].filterMap fun (k, c) => if c = 0 then some k else none

/-- A reason that names the channels `ks`. -/
def unsetReason : List Nat → String
  | [] => ""
  | ks => "channel" ++ ",".intercalate (ks.map toString) ++ " is unset"

def channelStatus (c : Int) : Value :=
  .objectValue [("reason", .stringValue (if c = 0 then "unset" else "")),
    ("status", .stringValue (if c = 0 then "fail" else "success")), ("value", .intValue c)]

def Message.type : Message → String
  | .notification .. => "Noitify"
  | _ => "Reply"

def Message.name : Message → String
  | .reply name _ _ => name
  | .listening .. => "Listening"
  | .query .. => "Query"
  | .notification name _ _ _ => name

def Message.param : Message → Value
  | .reply _ status reason =>
    .objectValue [("reason", .stringValue reason), ("status", .stringValue status)]
  | .listening c₁ c₂ =>
    .objectValue [("channel1", .arrayValue [channelStatus c₁]),
      ("channel2", .arrayValue [channelStatus c₂])]
  | .query c₁ c₂ =>
    .objectValue [
      ("listening", .arrayValue
        [.objectValue [("channel1", .intValue c₁), ("channel2", .intValue c₂)]]),
      ("reason", .stringValue (unsetReason (zeroChannels c₁ c₂))),
      ("status", .stringValue (if c₁ ≠ 0 ∧ c₂ ≠ 0 then "success" else "fail"))]
  | .notification _ src dst channel =>
    .objectValue [("channel", .stringValue channel), ("dst", .intValue dst),
      ("src", .intValue src)]

/-- The message as it is written, without an identifier. -/
def Message.document (m : Message) : Value :=
  .objectValue [("name", .stringValue m.name), ("param", .arrayValue [m.param]),
    ("type", .stringValue m.type)]

def Request.name : Request → String
  | .connect => "Connect"
  | .listening .. => "Listening"
  | .query => "Query"
  | .callRequest .. => "CallRequest"
  | .callRelease .. => "CallRelease"
  | .callStart .. => "CallStart"

/-- The members of a well-typed message that carry the values of the request. -/
def Request.Carried (val : Value) : Request → Prop
  | .connect => (∃ key, val.Has "key" (.stringValue key)) ∨ val.Lacks "key"
  | .listening c₁ c₂ => ∃ param listening, val.Has "param" param ∧
      param.Has "listening" listening ∧ listening.Has "channel1" (.intValue c₁.toInt) ∧
      listening.Has "channel2" (.intValue c₂.toInt)
  | .query => True
  | .callRequest src dst channel | .callRelease src dst channel | .callStart src dst channel =>
    ∃ param, val.Has "param" param ∧ param.Has "src" (.intValue src.toInt) ∧
      param.Has "dst" (.intValue dst.toInt) ∧ param.Has "channel" (.stringValue channel)

/-- `val` is a well-typed message of type "Request" for `r`. -/
structure WellTyped (val : Value) (r : Request) : Prop where
  identifier : ∃ id, val.Has "identifier" (.stringValue id)
  type : val.Has "type" (.stringValue "Request")
  name : val.Has "name" (.stringValue r.name)
  carried : r.Carried val

end RTPVoice.Session
