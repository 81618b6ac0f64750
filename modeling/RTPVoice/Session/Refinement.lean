import RTPVoice.ClientObj.Dispatch
import RTPVoice.MyMasterServer.OnData
import RTPVoice.Session.Reference

namespace RTPVoice.Session

open Json ClientObj MyMasterServer MyProtocol

variable {lib : Library}

/-- The messages composed for the packets taken, packet by packet; `guid n k` is what `CreateGuid`
returns for message `k` of packet `n`. -/
def serve (lib : Library) (guid : Nat → Nat → String) :
    Nat → ProtocolCtrlr → List (List UInt8) → Option (List (List (HSocket × Value)))
  | _, _, [] => some []
  | n, c, slot :: slots => do
    let (c, call) ← c.takePacket lib slot
    let composed := match call with
      | none => []
      | some (command, data) => masterOnDataFunc (guid n) command data
    let rest ← serve lib guid (n + 1) c slots
    return composed :: rest

/-- The messages composed for one packet. -/
def composedFor (guid : Nat → String) :
    Option (ProtocolNames × ResponeData) → List (HSocket × Value)
  | none => []
  | some (command, data) => masterOnDataFunc guid command data

theorem serve_cons {guid : Nat → Nat → String} {n : Nat} {c : ProtocolCtrlr}
    {slot : List UInt8} {slots : List (List UInt8)} {composed : List (List (HSocket × Value))}
    (h : serve lib guid n c (slot :: slots) = some composed) :
    ∃ c' call rest, c.takePacket lib slot = some (c', call) ∧
      serve lib guid (n + 1) c' slots = some rest ∧
      composed = composedFor (guid n) call :: rest := by
  obtain ⟨⟨c', call⟩, htake, h⟩ := Option.bind_eq_some_iff.mp h
  obtain ⟨rest, hrest, h⟩ := Option.bind_eq_some_iff.mp h
  refine ⟨c', call, rest, htake, hrest, (Option.some.inj h).symm.trans ?_⟩
  cases call <;> rfl

/-- The packet is a well-typed message for the request. -/
def Brings (lib : Library) (slot : List UInt8) (r : Request) : Prop :=
  ∃ val, lib.parse (cString (jsonData slot)) = some val ∧ WellTyped val r

/-- `ResponeData` shows the channels the reference machine remembers. -/
def Tracks (c : ProtocolCtrlr) (latest : Channels) : Prop :=
  c.channel1GroupId.toUInt16.toInt16.toInt = latest.channel1 ∧
  c.channel2GroupId.toUInt16.toInt16.toInt = latest.channel2

theorem tracks_initial : Tracks .initial ⟨0, 0⟩ := ⟨rfl, rfl⟩

theorem Tracks.same {c c' : ProtocolCtrlr} {latest : Channels} (ht : Tracks c latest)
    (h₁ : c'.channel1GroupId = c.channel1GroupId) (h₂ : c'.channel2GroupId = c.channel2GroupId) :
    Tracks c' latest := by
  rw [Tracks, h₁, h₂]
  exact ht

def Request.command : Request → ProtocolNames
  | .connect => .connect
  | .listening .. => .listening
  | .query => .query
  | .callRequest .. => .callRequest
  | .callRelease .. => .callRelease
  | .callStart .. => .callStart

/-- The names of requests are in `statemap`. -/
theorem lookup_name (r : Request) : statemap.lookup r.name = some r.command := by
  cases r <;> rfl

/-- From `int` to `uint32_t` to `int16_t`. -/
theorem toInt_groupId (c : Int32) : c.toUInt32.toUInt16.toInt16.toInt = signed16 c := by
  have h : c.toUInt32.toUInt16.toInt16 = c.toInt16 := by
    apply Int16.toBitVec_inj.mp
    rw [Int32.toBitVec_toInt16, BitVec.signExtend_eq_setWidth_of_le _ (by decide)]
    rfl
  rw [h, Int32.toInt_toInt16]
  rfl

/-- What a request leaves in `thePROTOCOL_Ctrlr`: its own values, and the rest as it was. -/
def Request.Leaves (c : ProtocolCtrlr) (c' : ProtocolCtrlr) : Request → Prop
  | .listening c₁ c₂ => c'.channel1GroupId = c₁.toUInt32 ∧ c'.channel2GroupId = c₂.toUInt32
  | .callRequest src dst channel | .callRelease src dst channel | .callStart src dst channel =>
    c'.src = src.toUInt32 ∧ c'.dst = dst.toUInt32 ∧ c'.channel = channel ∧
      c'.channel1GroupId = c.channel1GroupId ∧ c'.channel2GroupId = c.channel2GroupId
  | _ => c'.channel1GroupId = c.channel1GroupId ∧ c'.channel2GroupId = c.channel2GroupId

section Reading

variable {val : Value} {key : String} (hlib : lib.Documented)
include hlib

theorem stringMember_has {s : String} (h : val.Has key (.stringValue s)) :
    stringMember lib val key = some s := by
  rw [stringMember, hlib.member_has h, Option.bind_some, hlib.asString_string]

theorem stringMember_lacks (h : val.Lacks key) : stringMember lib val key = some "" := by
  rw [stringMember, hlib.member_lacks h, Option.bind_some, hlib.asString_null]

theorem intMember_has {n : Int32} (h : val.Has key (.intValue n.toInt)) :
    intMember lib val key = some n := by
  rw [intMember, hlib.member_has h, Option.bind_some, hlib.asInt_int]

theorem read_wellTyped {r : Request} (h : WellTyped val r) (c : ProtocolCtrlr) (fd : HSocket) :
    ∃ c', c.read lib fd val = some c' ∧ c'.clientfd = fd ∧ c'.type = "Request" ∧
      c'.name = r.name ∧ r.Leaves c c' := by
  obtain ⟨id, hid⟩ := h.identifier
  have hname := stringMember_has hlib h.name
  have hcarried := h.carried
  unfold ProtocolCtrlr.read
  simp only [stringMember_has hlib hid, stringMember_has hlib h.type, hname, Option.bind_eq_bind,
    Option.bind_some]
  cases r with
  | connect =>
    obtain ⟨key, hkey⟩ : ∃ key, stringMember lib val "key" = some key := by
      cases hcarried with
      | inl hkey =>
        obtain ⟨key, hkey⟩ := hkey
        exact ⟨key, stringMember_has hlib hkey⟩
      | inr hkey => exact ⟨"", stringMember_lacks hlib hkey⟩
    simp [Request.name, hkey, Request.Leaves]
  | listening c₁ c₂ =>
    obtain ⟨param, listening, hparam, hlistening, h₁, h₂⟩ := hcarried
    simp [Request.name, hlib.member_has hparam, hlib.member_has hlistening,
      intMember_has hlib h₁, intMember_has hlib h₂, Request.Leaves]
  | query => simp [Request.name, Request.Leaves]
  | callRequest src dst channel | callRelease src dst channel | callStart src dst channel =>
    obtain ⟨param, hparam, hsrc, hdst, hchannel⟩ := hcarried
    simp [Request.name, hlib.member_has hparam, intMember_has hlib hsrc, intMember_has hlib hdst,
      stringMember_has hlib hchannel, Request.Leaves]

end Reading

/-! ### Answering -/

theorem toInt_eq_zero (v : Int32) : v.toInt = 0 ↔ v = 0 := by
  rw [← Int32.toInt_inj]
  rfl

theorem channelItem_eq (v : Int32) : channelItem v = channelStatus v.toInt := by
  unfold channelItem channelStatus
  by_cases h : v = 0
  · subst h
    rfl
  · have h' : v.toInt ≠ 0 := mt (toInt_eq_zero v).mp h
    simp [h, h']

theorem statusReply_document (name guid status reason : String) :
    (statusReply name guid status reason).without "identifier" =
      (Message.reply name status reason).document := without_identifier_message ..

theorem callNotify_document (name guid : String) (src dst : Int32) (channel : String) :
    (callNotify name guid src dst channel).without "identifier" =
      (Message.notification name src.toInt dst.toInt channel).document :=
  without_identifier_message ..

theorem configReply_document (guid : String) (v₁ v₂ : Int32) :
    (configReply guid v₁ v₂).without "identifier" =
      (Message.listening v₁.toInt v₂.toInt).document := by
  rw [configReply, without_identifier_message, channelItem_eq, channelItem_eq]
  rfl

/-- The reason names exactly the channels that are zero. -/
theorem queryReply_document (guid : String) (v₁ v₂ : Int32) :
    (queryReply guid v₁ v₂).without "identifier" =
      (Message.query v₁.toInt v₂.toInt).document := by
  have h₁ := toInt_eq_zero v₁
  have h₂ := toInt_eq_zero v₂
  have unset : unsetReason [] = "" := rfl
  have unset₁ : unsetReason [1] = "channel1 is unset" := by decide
  have unset₂ : unsetReason [2] = "channel2 is unset" := by decide
  have unset₁₂ : unsetReason [1, 2] = "channel1,2 is unset" := by decide
  rw [queryReply, without_identifier_message]
  by_cases e₁ : v₁ = 0 <;> by_cases e₂ : v₂ = 0 <;>
    simp [e₁, e₂, h₁, h₂, Message.document, Message.name, Message.param, Message.type,
      zeroChannels, unset, unset₁, unset₂, unset₁₂]

/-- The callback's data, for a message with the name of a request. -/
theorem dataProcessFunc_name {c : ProtocolCtrlr} {r : Request} (hname : c.name = r.name) :
    ∃ data, c.dataProcessFunc = some (r.command, data) ∧
      data.channel1GroupId = c.channel1GroupId.toUInt16.toInt16 ∧
      data.channel2GroupId = c.channel2GroupId.toUInt16.toInt16 ∧
      data.srcId = c.src.toInt32 ∧ data.dstId = c.dst.toInt32 ∧ data.channelId = c.channel := by
  rw [ProtocolCtrlr.dataProcessFunc, hname, lookup_name]
  exact ⟨_, rfl, rfl, rfl, rfl, rfl, rfl⟩

/-- One request, read into `c'`, is answered as the reference machine answers it. -/
theorem answer_request {c c' : ProtocolCtrlr} {latest : Channels} {r : Request}
    (hname : c'.name = r.name) (hleaves : r.Leaves c c') (ht : Tracks c latest)
    (guid : Nat → String) :
    ∃ data, c'.dataProcessFunc = some (r.command, data) ∧
      (masterOnDataFunc guid r.command data).map (fun m => m.2.without "identifier") =
        (r.answer latest).map Message.document ∧
      Tracks c' (r.next latest) := by
  obtain ⟨data, hdata, hchannel1, hchannel2, hsrc, hdst, hchannel⟩ := dataProcessFunc_name hname
  refine ⟨data, hdata, ?_⟩
  cases r with
  | connect =>
    refine ⟨?_, ht.same hleaves.1 hleaves.2⟩
    simp [Request.command, masterOnDataFunc, connectReply, statusReply_document, Request.answer]
  | listening c₁ c₂ =>
    obtain ⟨h₁, h₂⟩ := hleaves
    constructor
    · simp [Request.command, masterOnDataFunc, configReply_document, hchannel1, hchannel2, h₁, h₂,
        toInt_groupId, Request.answer]
    · simp [Tracks, h₁, h₂, toInt_groupId, Request.next]
  | query =>
    obtain ⟨h₁, h₂⟩ := hleaves
    refine ⟨?_, ht.same h₁ h₂⟩
    simp [Request.command, masterOnDataFunc, queryReply_document, hchannel1, hchannel2, h₁, h₂,
      ht.1, ht.2, Request.answer]
  | callRequest src dst channel =>
    obtain ⟨h₁, h₂, h₃, hg₁, hg₂⟩ := hleaves
    refine ⟨?_, ht.same hg₁ hg₂⟩
    simp [Request.command, masterOnDataFunc, callRequestReply, callStartNotify,
      statusReply_document, callNotify_document, hsrc, hdst, hchannel, h₁, h₂, h₃, Request.answer]
  | callRelease src dst channel =>
    obtain ⟨h₁, h₂, h₃, hg₁, hg₂⟩ := hleaves
    refine ⟨?_, ht.same hg₁ hg₂⟩
    simp [Request.command, masterOnDataFunc, callReleaseReply, callEndNotify,
      statusReply_document, callNotify_document, hsrc, hdst, hchannel, h₁, h₂, h₃, Request.answer]
  | callStart src dst channel =>
    obtain ⟨-, -, -, hg₁, hg₂⟩ := hleaves
    exact ⟨rfl, ht.same hg₁ hg₂⟩

/-! ### A session -/

/-- One packet: the messages composed are the reference machine's, for the handle read from it. -/
theorem takePacket_brings (hlib : lib.Documented) {slot : List UInt8} {r : Request}
    (h : Brings lib slot r) {c : ProtocolCtrlr} {latest : Channels} (ht : Tracks c latest)
    (guid : Nat → String) :
    ∃ c' command data, c.takePacket lib slot = some (c', some (command, data)) ∧
      (masterOnDataFunc guid command data).map (fun m => m.2.without "identifier") =
        (r.answer latest).map Message.document ∧
      Tracks c' (r.next latest) := by
  obtain ⟨val, hparse, hval⟩ := h
  obtain ⟨c', hread, -, htype, hname, hleaves⟩ := read_wellTyped hlib hval c (clientFd slot)
  obtain ⟨data, hcall, hanswer, ht'⟩ := answer_request hname hleaves ht guid
  refine ⟨c', r.command, data, ?_, hanswer, ht'⟩
  simp only [ProtocolCtrlr.takePacket, hparse, hread, Option.bind_eq_bind, Option.bind_some,
    if_pos htype, hcall]
  rfl

theorem serve_brings (hlib : lib.Documented) (guid : Nat → Nat → String) {slots : List (List UInt8)}
    {requests : List Request} (h : List.Forall₂ (Brings lib) slots requests) {n : Nat}
    {c : ProtocolCtrlr} {latest : Channels} (ht : Tracks c latest) :
    ∃ composed, serve lib guid n c slots = some composed ∧
      composed.map (fun ms => ms.map fun m => m.2.without "identifier") =
        (answers latest requests).map (fun ms => ms.map Message.document) ∧
      List.Forall₂ (fun slot ms => ∀ m ∈ ms, m.1 = clientFd slot) slots composed := by
  induction h generalizing n c latest with
  | nil => exact ⟨[], rfl, rfl, .nil⟩
  | @cons slot r slots requests hslot _ ih =>
    obtain ⟨c', command, data, htake, hanswer, ht'⟩ := takePacket_brings hlib hslot ht (guid n)
    obtain ⟨composed, hserve, hanswers, hdst⟩ := ih (n := n + 1) ht'
    refine ⟨masterOnDataFunc (guid n) command data :: composed, ?_, ?_, .cons ?_ hdst⟩
    · simp only [serve, htake, hserve, Option.bind_eq_bind, Option.bind_some]
      rfl
    · rw [List.map_cons, hanswer, hanswers, answers, List.map_cons]
    · intro m hm
      rw [masterOnDataFunc_dst hm, ProtocolCtrlr.takePacket_socketFd htake]

/-- The messages composed for a sequence of well-typed requests are, request by request and
identifiers aside, those of the reference machine, and all go to the handle of their request. -/
theorem session_refines_reference (lib : Library) (hlib : lib.Documented)
    (guid : Nat → Nat → String) (slots : List (List UInt8)) (requests : List Request)
    (h : List.Forall₂ (Brings lib) slots requests) :
    ∃ composed, serve lib guid 0 .initial slots = some composed ∧
      composed.map (fun ms => ms.map fun m => m.2.without "identifier") =
        (answers ⟨0, 0⟩ requests).map (fun ms => ms.map Message.document) ∧
      List.Forall₂ (fun slot ms => ∀ m ∈ ms, m.1 = clientFd slot) slots composed :=
  serve_brings hlib guid h tracks_initial

private def bytes (s : String) : List UInt8 := s.toList.map Char.toUInt8

private def listeningText : List UInt8 :=
  bytes ("\x7b\"identifier\":\"1\",\"name\":\"Listening\",\"type\":\"Request\",\"param\":" ++
    "\x7b\"listening\":\x7b\"channel1\":65536,\"channel2\":7\x7d\x7d\x7d")

private def listeningValue : Value :=
  .objectValue [("identifier", .stringValue "1"), ("name", .stringValue "Listening"),
    ("param", .objectValue
      [("listening", .objectValue [("channel1", .intValue 65536), ("channel2", .intValue 7)])]),
    ("type", .stringValue "Request")]

private def queryText : List UInt8 :=
  bytes "\x7b\"identifier\":\"2\",\"name\":\"Query\",\"type\":\"Request\"\x7d"

private def queryValue : Value :=
  .objectValue [("identifier", .stringValue "2"), ("name", .stringValue "Query"),
    ("type", .stringValue "Request")]

private def sampleLibrary : Library :=
  .withParser fun text => [(listeningText, listeningValue), (queryText, queryValue)].lookup text

private def handle : List UInt8 := [0x35, 0, 0, 0]

private theorem brings_of (text : List UInt8) (val : Value) {r : Request}
    (hle : text.length ≤ 508) (hnul : ∀ b ∈ text, b ≠ 0)
    (hparse : sampleLibrary.parse text = some val)
    (h : WellTyped val r) : Brings sampleLibrary (handle ++ text) r :=
  ⟨val, by rw [cString_jsonData rfl hle hnul, hparse], h⟩

/-- A listening request whose first channel is a multiple of 65536, then a query. -/
theorem session_refines_reference_query : ∃ composed,
    serve sampleLibrary (fun _ _ => "") 0 .initial [handle ++ listeningText, handle ++ queryText] =
      some composed ∧
    composed.map (fun ms => ms.map fun m => m.2.without "identifier") =
      [[(Message.listening 0 7).document], [(Message.query 0 7).document]] := by
  have hlistening : WellTyped listeningValue (.listening 65536 7) :=
    ⟨⟨_, _, rfl, rfl⟩, ⟨_, rfl, rfl⟩, ⟨_, rfl, rfl⟩,
      _, _, ⟨_, rfl, rfl⟩, ⟨_, rfl, rfl⟩, ⟨_, rfl, rfl⟩, ⟨_, rfl, rfl⟩⟩
  have hquery : WellTyped queryValue .query :=
    ⟨⟨_, _, rfl, rfl⟩, ⟨_, rfl, rfl⟩, ⟨_, rfl, rfl⟩, trivial⟩
  obtain ⟨composed, hserve, hanswers, -⟩ := session_refines_reference sampleLibrary
    (Library.withParser_documented _) (fun _ _ => "") _ _
    (.cons (brings_of listeningText _ (by decide) (by decide +kernel) rfl hlistening)
      (.cons (brings_of queryText _ (by decide) (by decide +kernel) rfl hquery) .nil))
  exact ⟨composed, hserve, hanswers⟩

end RTPVoice.Session
