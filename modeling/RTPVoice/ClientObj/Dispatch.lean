import RTPVoice.ClientObj.Envelope
import RTPVoice.Json.Value

namespace RTPVoice.ClientObj

open Json

/-- The fields of `PROTOCOL_Ctrlr` that handling a message reads or sets. -/
structure ProtocolCtrlr where
  clientfd : HSocket
  identifier : String
  type : String
  name : String
  key : String
  src : UInt32
  dst : UInt32
  channel : String
  channel1GroupId : UInt32
  channel2GroupId : UInt32
  channel1ListeningGroupId : UInt32
  channel2ListeningGroupId : UInt32
  deriving DecidableEq

/-- What `InitProtocolData` sets. -/
def ProtocolCtrlr.initial : ProtocolCtrlr where
  clientfd := invalidSocket
  identifier := ""
  type := "Request"
  name := "Connect"
  key := ""
  src := 9
  dst := 65536
  channel := ""
  channel1GroupId := 0
  channel2GroupId := 0
  channel1ListeningGroupId := 0
  channel2ListeningGroupId := 0

def statemap : List (String × ProtocolNames) :=
  [("Connect", .connect), ("Listening", .listening), ("Query", .query),
    ("CallRequest", .callRequest), ("CallRelease", .callRelease), ("CallStart", .callStart),
    ("CallEND", .callEnd)]

/-- The names of the messages with `src`, `dst` and `channel`. -/
def callNames : List String := ["CallRequest", "CallRelease", "CallStart", "CallEnd"]

variable (lib : Library)

/-- The value of `val[key].asString()`. -/
def stringMember (val : Value) (key : String) : Option String :=
  (lib.member val key).bind lib.asString

/-- The value of `val[key].asInt()`. -/
def intMember (val : Value) (key : String) : Option Int32 :=
  (lib.member val key).bind lib.asInt

/-- What a parsed message sets in `thePROTOCOL_Ctrlr`. -/
def ProtocolCtrlr.read (c : ProtocolCtrlr) (clientfd : HSocket) (val : Value) :
    Option ProtocolCtrlr := do
  let identifier ← stringMember lib val "identifier"
  let type ← stringMember lib val "type"
  let name ← stringMember lib val "name"
  let c := { c with clientfd, identifier, type, name }
  if name = "Connect" then
    let key ← stringMember lib val "key"
    return { c with key }
  else if name = "Listening" then
    let listening ← (lib.member val "param").bind (lib.member · "listening")
    let channel1 ← intMember lib listening "channel1"
    let c := { c with
      channel1GroupId := channel1.toUInt32
      channel1ListeningGroupId := channel1.toUInt32 }
    let channel2 ← intMember lib listening "channel2"
    return { c with
      channel2GroupId := channel2.toUInt32
      channel2ListeningGroupId := channel2.toUInt32 }
  else if name = "Query" then
    return c
  else if name = "CallRequest" ∨ name = "CallRelease" ∨ name = "CallStart" ∨ name = "CallEnd" then
    let param ← lib.member val "param"
    let src ← intMember lib param "src"
    let dst ← intMember lib param "dst"
    let channel ← stringMember lib param "channel"
    return { c with src := src.toUInt32, dst := dst.toUInt32, channel }
  else
    return c

/-- What `RequestCallBackFunc` is called with; a name that is not in `statemap` makes the iterator
past its end be followed. -/
def ProtocolCtrlr.dataProcessFunc (c : ProtocolCtrlr) : Option (ProtocolNames × ResponeData) := do
  let command ← statemap.lookup c.name
  return (command, {
    socketFd := c.clientfd
    identifier := c.identifier
    key := c.key
    channelId := c.channel
    channel1GroupId := c.channel1GroupId.toUInt16.toInt16
    channel2GroupId := c.channel2GroupId.toUInt16.toInt16
    srcId := c.src.toInt32
    dstId := c.dst.toInt32
    status := ""
    reason := "" })

/-- One round of `ProtocolParseThreadFunc` with a packet taken from the queue. -/
def ProtocolCtrlr.takePacket (c : ProtocolCtrlr) (slot : List UInt8) :
    Option (ProtocolCtrlr × Option (ProtocolNames × ResponeData)) :=
  match lib.parse (cString (jsonData slot)) with
  | none => some (c, none)
  | some val => do
    let c ← c.read lib (clientFd slot) val
    if c.type = "Request" then
      let call ← c.dataProcessFunc
      return (c, some call)
    else
      return (c, none)

variable {lib}

/-- `c` has what was read from `val`, and from which of its members. -/
structure ProtocolCtrlr.ReadFrom (lib : Library) (clientfd : HSocket) (val : Value)
    (c : ProtocolCtrlr) : Prop where
  clientfd : c.clientfd = clientfd
  type : stringMember lib val "type" = some c.type
  name : stringMember lib val "name" = some c.name
  call : c.name ∈ callNames → ∃ param src dst, lib.member val "param" = some param ∧
    intMember lib param "src" = some src ∧ intMember lib param "dst" = some dst ∧
    stringMember lib param "channel" = some c.channel ∧ c.src = src.toUInt32 ∧
    c.dst = dst.toUInt32

theorem ProtocolCtrlr.read_from {c c' : ProtocolCtrlr} {fd : HSocket} {val : Value}
    (h : c.read lib fd val = some c') : c'.ReadFrom lib fd val := by
  simp only [read, Option.bind_eq_bind, Option.bind_eq_some_iff] at h
  obtain ⟨_, -, type, htype, name, hname, h⟩ := h
  repeat' split at h
  all_goals simp only [Option.bind_eq_some_iff, Option.pure_def, Option.some.injEq] at h
  · next hn =>
    obtain ⟨_, -, rfl⟩ := h
    exact ⟨rfl, htype, hname, fun hc => absurd hc (by simp [hn, callNames])⟩
  · next hn =>
    obtain ⟨_, -, _, -, _, -, rfl⟩ := h
    exact ⟨rfl, htype, hname, fun hc => absurd hc (by simp [hn, callNames])⟩
  · next hn =>
    subst h
    exact ⟨rfl, htype, hname, fun hc => absurd hc (by simp [hn, callNames])⟩
  · obtain ⟨param, hparam, src, hsrc, dst, hdst, channel, hchannel, rfl⟩ := h
    exact ⟨rfl, htype, hname,
      fun _ => ⟨param, src, dst, hparam, hsrc, hdst, hchannel, rfl, rfl⟩⟩
  · next hn =>
    subst h
    exact ⟨rfl, htype, hname, fun hc => absurd hc (by simpa [callNames] using hn)⟩

theorem ProtocolCtrlr.dataProcessFunc_socketFd {c : ProtocolCtrlr} {command : ProtocolNames}
    {data : ResponeData} (h : c.dataProcessFunc = some (command, data)) :
    data.socketFd = c.clientfd := by
  obtain ⟨_, -, h⟩ := Option.bind_eq_some_iff.mp h
  obtain ⟨-, rfl⟩ := Prod.mk.inj (Option.some.inj h)
  rfl

/-- The callback gets the handle that was read from the packet. -/
theorem ProtocolCtrlr.takePacket_socketFd {c c' : ProtocolCtrlr} {slot : List UInt8}
    {command : ProtocolNames} {data : ResponeData}
    (h : c.takePacket lib slot = some (c', some (command, data))) :
    data.socketFd = clientFd slot := by
  unfold takePacket at h
  split at h
  · simp at h
  · next val _ =>
    obtain ⟨c₁, hread, h⟩ := Option.bind_eq_some_iff.mp h
    split at h
    · obtain ⟨call, hcall, h⟩ := Option.bind_eq_some_iff.mp h
      obtain ⟨-, rfl⟩ := by simpa using h
      rw [dataProcessFunc_socketFd hcall, (read_from hread).clientfd]
    · simp at h

end RTPVoice.ClientObj
