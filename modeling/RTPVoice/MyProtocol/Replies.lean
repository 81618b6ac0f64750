import RTPVoice.Common
import RTPVoice.Json.Value

namespace RTPVoice.MyProtocol

open Json

/-- `send_root`: an identifier from `CreateGuid`, a type, a name and the parameters. -/
def message (guid type name : String) (param : Value) : Value :=
  .objectValue [("identifier", .stringValue guid), ("name", .stringValue name), ("param", param),
    ("type", .stringValue type)]

/-- A reply that carries a status and a reason only. -/
def statusReply (name guid status reason : String) : Value :=
  message guid "Reply" name (.arrayValue
    [.objectValue [("reason", .stringValue reason), ("status", .stringValue status)]])

/-- A notification of a call. -/
def callNotify (name guid : String) (src dst : Int32) (channel : String) : Value :=
  message guid "Noitify" name (.arrayValue
    [.objectValue [("channel", .stringValue channel), ("dst", .intValue dst.toInt),
      ("src", .intValue src.toInt)]])

def connectReply (guid status reason : String) : Value := statusReply "Connect" guid status reason

/-- `send_item1` and `send_item2` of `ConfigReply`. -/
def channelItem (value : Int32) : Value :=
  let (status, reason) := if value ≠ 0 then ("success", "") else ("fail", "unset")
  .objectValue [("reason", .stringValue reason), ("status", .stringValue status),
    ("value", .intValue value.toInt)]

def configReply (guid : String) (channel1Value channel2Value : Int32) : Value :=
  message guid "Reply" "Listening" (.arrayValue
    [.objectValue [("channel1", .arrayValue [channelItem channel1Value]),
      ("channel2", .arrayValue [channelItem channel2Value])]])

def queryReply (guid : String) (channel1Value channel2Value : Int32) : Value :=
  let listening := .objectValue
    [("channel1", .intValue channel1Value.toInt), ("channel2", .intValue channel2Value.toInt)]
  let (status, reason) :=
    if channel1Value ≠ 0 ∧ channel2Value ≠ 0 then ("success", "")
    else ("fail",
      if channel1Value = 0 ∧ channel2Value = 0 then "channel1,2 is unset"
      else if channel1Value = 0 ∧ channel2Value ≠ 0 then "channel1 is unset"
      else "channel2 is unset")
  message guid "Reply" "Query" (.arrayValue
    [.objectValue [("listening", .arrayValue [listening]), ("reason", .stringValue reason),
      ("status", .stringValue status)]])

def callRequestReply (guid status reason : String) : Value :=
  statusReply "CallRequest" guid status reason

def callReleaseReply (guid status reason : String) : Value :=
  statusReply "CallRelease" guid status reason

def callStartNotify (guid : String) (src dst : Int32) (channel : String) : Value :=
  callNotify "CallStart" guid src dst channel

def callEndNotify (guid : String) (src dst : Int32) (channel : String) : Value :=
  callNotify "CallEnd" guid src dst channel

/-- Everything but the identifier. -/
theorem without_identifier_message (guid type name : String) (param : Value) :
    (message guid type name param).without "identifier" =
      .objectValue
        [("name", .stringValue name), ("param", param), ("type", .stringValue type)] := by
  simp [message, Value.without]

end RTPVoice.MyProtocol
