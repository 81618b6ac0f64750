import RTPVoice.MyProtocol.ReplySizes
import RTPVoice.Session.Refinement

namespace RTPVoice.Session

open Framework Json ClientObj MyMasterServer MyProtocol

/-- The text has a size that `SendDataToTheThirdParty` is made for, and is sent without an access
outside its fragment. -/
def WithinFrame (text : List UInt8) : Prop :=
  text.length ≤ 1018 ∧
    ∀ fd clientmap, (sendDataToTheThirdParty fd text clientmap).isSome

/-- The packet is a request `name` with these parameters of a call. -/
structure Asks (lib : Library) (slot : List UInt8) (name : String) (src dst : Int32)
    (channel : String) : Prop where
  request : ∃ val param, lib.parse (cString (jsonData slot)) = some val ∧
    stringMember lib val "type" = some "Request" ∧ stringMember lib val "name" = some name ∧
    lib.member val "param" = some param ∧ intMember lib param "src" = some src ∧
    intMember lib param "dst" = some dst ∧ stringMember lib param "channel" = some channel

/-- What the parameters of a call take in a text. -/
def callSize (w : StyledWriter) (src dst : Int32) (channel : String) : Nat :=
  (quoted w.escape channel).length + (Decimal.intText src.toInt).length +
    (Decimal.intText dst.toInt).length

/-- If the packet asks for a call or its release, the parameters leave room for the rest of the
notification. -/
def CallFits (lib : Library) (w : StyledWriter) (indentSize : Nat) (slot : List UInt8) : Prop :=
  ∀ src dst channel,
    (Asks lib slot "CallRequest" src dst channel →
      callSize w src dst channel + 18 * indentSize ≤ 870) ∧
    (Asks lib slot "CallRelease" src dst channel →
      callSize w src dst channel + 18 * indentSize ≤ 872)

variable {lib : Library} {w : StyledWriter} {indentSize : Nat} {slot : List UInt8}

theorem withinFrame_iff {text : List UInt8} : WithinFrame text ↔ text.length ≤ 1018 :=
  ⟨fun h => h.1, fun h => ⟨h, fun _ _ => isSome_sendDataToTheThirdParty h⟩⟩

/-- A name is mapped to the command that is entered for it. -/
theorem lookup_statemap {name : String} {command : ProtocolNames} :
    statemap.lookup name = some command ↔ (name, command) ∈ statemap := by
  constructor
  · intro h
    obtain ⟨l₁, l₂, he, -⟩ := List.lookup_eq_some_iff.mp h
    rw [he]
    exact List.mem_append_right _ List.mem_cons_self
  · intro h
    have hall : ∀ entry ∈ statemap, statemap.lookup entry.1 = some entry.2 := by decide
    exact hall _ h

theorem Asks.name_eq {val : Value} {name name' : String} {src dst : Int32} {channel : String}
    (h : Asks lib slot name src dst channel)
    (hparse : lib.parse (cString (jsonData slot)) = some val)
    (hname : stringMember lib val "name" = some name') : name = name' := by
  obtain ⟨val', _, hparse', -, hname', -⟩ := h.request
  obtain rfl : val = val' := Option.some.inj (hparse.symm.trans hparse')
  exact Option.some.inj (hname'.symm.trans hname)

theorem callFits_of_silent (h : ∀ name src dst channel, ¬ Asks lib slot name src dst channel) :
    CallFits lib w indentSize slot :=
  fun _ _ _ => ⟨fun ha => absurd ha (h _ _ _ _), fun ha => absurd ha (h _ _ _ _)⟩

/-- What is kept of a request for a call is what the packet asks for. -/
theorem asks_of_read {c c' : ProtocolCtrlr} {val : Value}
    (hparse : lib.parse (cString (jsonData slot)) = some val)
    (h : c.read lib (clientFd slot) val = some c') (hrequest : c'.type = "Request")
    (hname : c'.name ∈ callNames) :
    Asks lib slot c'.name c'.src.toInt32 c'.dst.toInt32 c'.channel := by
  obtain ⟨-, htype, hread, hcall⟩ := ProtocolCtrlr.read_from h
  obtain ⟨param, src, dst, hparam, hsrc, hdst, hchannel, hsrc', hdst'⟩ := hcall hname
  rw [hrequest] at htype
  rw [hsrc', hdst', Int32.toInt32_toUInt32, Int32.toInt32_toUInt32]
  exact ⟨val, param, hparse, htype, hread, hparam, hsrc, hdst, hchannel⟩

theorem Asks.unique {name : String} {src src' dst dst' : Int32} {channel channel' : String}
    (h : Asks lib slot name src dst channel) (h' : Asks lib slot name src' dst' channel') :
    src = src' ∧ dst = dst' ∧ channel = channel' := by
  obtain ⟨val, param, hparse, -, -, hparam, hsrc, hdst, hchannel⟩ := h.request
  obtain ⟨val', param', hparse', -, -, hparam', hsrc', hdst', hchannel'⟩ := h'.request
  obtain rfl : val = val' := Option.some.inj (hparse.symm.trans hparse')
  obtain rfl : param = param' := Option.some.inj (hparam.symm.trans hparam')
  exact ⟨Option.some.inj (hsrc.symm.trans hsrc'), Option.some.inj (hdst.symm.trans hdst'),
    Option.some.inj (hchannel.symm.trans hchannel')⟩

/-- Where `name` alone is entered for `known`, what holds of the values kept of a request with that
command holds of the values it asks for under that name. -/
theorem forall_asks_iff {c c' : ProtocolCtrlr} {val : Value} {name : String}
    {command known : ProtocolNames} {P : Int32 → Int32 → String → Prop}
    (hparse : lib.parse (cString (jsonData slot)) = some val)
    (h : c.read lib (clientFd slot) val = some c') (hrequest : c'.type = "Request")
    (hlookup : statemap.lookup c'.name = some command) (hname : name ∈ callNames)
    (hentered : ∀ n, (n, known) ∈ statemap ↔ n = name) :
    (command = known → P c'.src.toInt32 c'.dst.toInt32 c'.channel) ↔
      ∀ src dst channel, Asks lib slot name src dst channel → P src dst channel := by
  have hasks := asks_of_read hparse h hrequest
  constructor
  · intro hP src dst channel ha
    have hn : name = c'.name := ha.name_eq hparse (ProtocolCtrlr.read_from h).name
    have hcommand := lookup_statemap.mpr ((hentered _).mpr hn.symm)
    obtain ⟨rfl, rfl, rfl⟩ := ha.unique (hn ▸ hasks (hn ▸ hname))
    exact hP (Option.some.inj (hlookup.symm.trans hcommand))
  · intro hP hcommand
    subst hcommand
    have hn : c'.name = name := (hentered _).mp (lookup_statemap.mp hlookup)
    exact hP _ _ _ (hn ▸ hasks (hn ▸ hname))

section Sizes

variable (hw : w.Documented indentSize) (hindent : indentSize ≤ 8)
include hw

theorem callNotify_fits (rand : Nat → Nat) {name : String}
    (hname : name.toList.all isPlain = true) (src dst : Int32) (channel : String) :
    WithinFrame (w.write (callNotify name (createGuid rand) src dst channel)) ↔
      callSize w src dst channel + 18 * indentSize + name.toList.length ≤ 879 := by
  rw [withinFrame_iff, callNotify_length hw rand hname, callSize]
  omega

/-- Of a reply and the notification of a call, if the reply fits, the notification decides. -/
theorem callMessages_fit {fd : HSocket} {reply : Value} (hreply : WithinFrame (w.write reply))
    (rand : Nat → Nat) {name : String} (hname : name.toList.all isPlain = true) (src dst : Int32)
    (channel : String) :
    (∀ m ∈ [(fd, reply), (fd, callNotify name (createGuid rand) src dst channel)],
      WithinFrame (w.write m.2)) ↔
    callSize w src dst channel + 18 * indentSize + name.toList.length ≤ 879 := by
  rw [List.forall_mem_cons, List.forall_mem_singleton, callNotify_fits hw rand hname]
  exact and_iff_right hreply

include hindent

theorem statusReply_fits {rand : Nat → Nat} {name status reason : String}
    (hname : name.toList.all isPlain = true) (hstatus : status.toList.all isPlain = true)
    (hreason : reason.toList.all isPlain = true)
    (hlen : name.toList.length + status.toList.length + reason.toList.length ≤ 700) :
    WithinFrame (w.write (statusReply name (createGuid rand) status reason)) := by
  rw [withinFrame_iff, statusReply_length hw hname hstatus hreason]
  omega

/-- Of the messages for one request only the notification of a call can be too long. -/
theorem masterOnDataFunc_fits (rand : Nat → Nat → Nat) (command : ProtocolNames)
    (data : ResponeData) :
    (∀ m ∈ masterOnDataFunc (fun k => createGuid (rand k)) command data,
      WithinFrame (w.write m.2)) ↔
    (command = .callRequest →
      callSize w data.srcId data.dstId data.channelId + 18 * indentSize ≤ 870) ∧
    (command = .callRelease →
      callSize w data.srcId data.dstId data.channelId + 18 * indentSize ≤ 872) := by
  cases command with
  | connect =>
    have hreply : WithinFrame (w.write (connectReply (createGuid (rand 0)) "success" "fine!")) :=
      statusReply_fits hw hindent rfl rfl rfl (by decide)
    simpa [masterOnDataFunc] using hreply
  | listening =>
    have hle := configReply_length_le hw (rand 0) data.channel1GroupId.toInt32
      data.channel2GroupId.toInt32
    simp only [masterOnDataFunc, List.forall_mem_singleton, withinFrame_iff, reduceCtorEq,
      false_imp_iff, and_self, iff_true]
    omega
  | query =>
    have hle := queryReply_length_le hw (rand 0) data.channel1GroupId.toInt32
      data.channel2GroupId.toInt32
    simp only [masterOnDataFunc, List.forall_mem_singleton, withinFrame_iff, reduceCtorEq,
      false_imp_iff, and_self, iff_true]
    omega
  | callRequest =>
    have hreply :
        WithinFrame (w.write (callRequestReply (createGuid (rand 0)) "fail" "Unconnect")) :=
      statusReply_fits hw hindent rfl rfl rfl (by decide)
    have hlen : "CallStart".toList.length = 9 := rfl
    refine (callMessages_fit hw hreply (rand 1) rfl data.srcId data.dstId data.channelId).trans ?_
    simp only [hlen, reduceCtorEq, false_imp_iff, and_true, forall_const]
    omega
  | callRelease =>
    have hreply :
        WithinFrame (w.write (callReleaseReply (createGuid (rand 0)) "fail" "Unconnect")) :=
      statusReply_fits hw hindent rfl rfl rfl (by decide)
    have hlen : "CallEnd".toList.length = 7 := rfl
    refine (callMessages_fit hw hreply (rand 1) rfl data.srcId data.dstId data.channelId).trans ?_
    simp only [hlen, reduceCtorEq, false_imp_iff, true_and, forall_const]
    omega
  | callStart => simp [masterOnDataFunc]
  | callEnd => simp [masterOnDataFunc]

/-- The messages for one packet fit if what it brings for the notification of a call does. -/
theorem takePacket_fits (rand : Nat → Nat → Nat) {c c' : ProtocolCtrlr}
    {call : Option (ProtocolNames × ResponeData)}
    (h : c.takePacket lib slot = some (c', call)) :
    (∀ m ∈ composedFor (fun k => createGuid (rand k)) call, WithinFrame (w.write m.2)) ↔
      CallFits lib w indentSize slot := by
  unfold ProtocolCtrlr.takePacket at h
  split at h
  · next hparse =>
    cases h
    refine iff_of_true (by simp [composedFor])
      (callFits_of_silent fun name src dst channel ha => ?_)
    obtain ⟨val, _, hval, -⟩ := ha.request
    rw [hparse] at hval
    cases hval
  · next val hparse =>
    obtain ⟨c₁, hread, h⟩ := Option.bind_eq_some_iff.mp h
    have htype := (ProtocolCtrlr.read_from hread).type
    split at h
    · next hrequest =>
      obtain ⟨⟨command, data⟩, hdata, h⟩ := Option.bind_eq_some_iff.mp h
      cases h
      obtain ⟨command', hlookup, he⟩ := Option.bind_eq_some_iff.mp hdata
      cases he
      rw [composedFor, masterOnDataFunc_fits hw hindent]
      simp only [CallFits, forall_and]
      apply and_congr
      · exact forall_asks_iff
          (P := fun src dst channel => callSize w src dst channel + 18 * indentSize ≤ 870)
          hparse hread hrequest hlookup (by decide) (by simp [statemap])
      · exact forall_asks_iff
          (P := fun src dst channel => callSize w src dst channel + 18 * indentSize ≤ 872)
          hparse hread hrequest hlookup (by decide) (by simp [statemap])
    · next hother =>
      cases h
      refine iff_of_true (by simp [composedFor])
        (callFits_of_silent fun name src dst channel ha => ?_)
      obtain ⟨val', _, hval, hrequest, -⟩ := ha.request
      obtain rfl : val = val' := Option.some.inj (hparse.symm.trans hval)
      exact hother (Option.some.inj (htype.symm.trans hrequest))

/-- The texts of a run fit when every packet of it does. -/
theorem serve_fits (rand : Nat → Nat → Nat → Nat) {n : Nat} {c : ProtocolCtrlr}
    {slots : List (List UInt8)} {composed : List (List (HSocket × Value))}
    (h : serve lib (fun n k => createGuid (rand n k)) n c slots = some composed) :
    (∀ ms ∈ composed, ∀ m ∈ ms, WithinFrame (w.write m.2)) ↔
      ∀ slot ∈ slots, CallFits lib w indentSize slot := by
  induction slots generalizing n c composed with
  | nil =>
    cases h
    simp
  | cons slot slots ih =>
    obtain ⟨c', call, rest, htake, hrest, rfl⟩ := serve_cons h
    rw [List.forall_mem_cons, List.forall_mem_cons, takePacket_fits hw hindent (rand n) htake,
      ih hrest]

end Sizes

/-- The replies of a run fit their frames exactly when, for each request for a call or its release,
the channel as it is quoted and the two numbers leave room for the notification's fixed text. -/
theorem replies_fit_iff (lib : Library) (w : StyledWriter) (indentSize : Nat)
    (rand : Nat → Nat → Nat → Nat) (slots : List (List UInt8))
    (composed : List (List (HSocket × Value))) (hw : w.Documented indentSize)
    (hindent : indentSize ≤ 8)
    (h : serve lib (fun n k => createGuid (rand n k)) 0 .initial slots = some composed) :
    (∀ ms ∈ composed, ∀ m ∈ ms, WithinFrame (w.write m.2)) ↔
      ∀ slot ∈ slots, CallFits lib w indentSize slot :=
  serve_fits hw hindent rand h

/-! ### A request for a call on a channel -/

def callText (channel : List UInt8) : List UInt8 :=
  asciiBytes ("\x7b\"identifier\":\"1\",\"name\":\"CallRequest\",\"param\":" ++
    "\x7b\"channel\":\"") ++ channel ++
  asciiBytes "\",\"dst\":2,\"src\":1\x7d,\"type\":\"Request\"\x7d"

def callValue (channel : String) : Value :=
  .objectValue [("identifier", .stringValue "1"), ("name", .stringValue "CallRequest"),
    ("param", .objectValue
      [("channel", .stringValue channel), ("dst", .intValue 2), ("src", .intValue 1)]),
    ("type", .stringValue "Request")]

private def oneCall (text : List UInt8) (channel : String) : Library :=
  .withParser fun t => if t = text then some (callValue channel) else none

private theorem parse_call {text : List UInt8} (channel : String) (hlen : text.length ≤ 508)
    (hnul : ∀ b ∈ text, b ≠ 0) :
    (oneCall text channel).parse (cString (jsonData ([0x35, 0, 0, 0] ++ text))) =
      some (callValue channel) := by
  rw [cString_jsonData rfl hlen hnul]
  exact if_pos rfl

private theorem serve_call {text : List UInt8} (channel : String) (hlen : text.length ≤ 508)
    (hnul : ∀ b ∈ text, b ≠ 0) (guid : Nat → Nat → String) :
    ∃ composed, serve (oneCall text channel) guid 0 .initial [[0x35, 0, 0, 0] ++ text] =
      some composed := by
  have hwell : WellTyped (callValue channel) (.callRequest 1 2 channel) :=
    ⟨⟨_, _, rfl, rfl⟩, ⟨_, rfl, rfl⟩, ⟨_, rfl, rfl⟩, _, ⟨_, rfl, rfl⟩, ⟨_, rfl, rfl⟩,
      ⟨_, rfl, rfl⟩, ⟨_, rfl, rfl⟩⟩
  obtain ⟨composed, hserve, -⟩ := serve_brings (Library.withParser_documented _) guid
    (.cons ⟨_, parse_call channel hlen hnul, hwell⟩ .nil) tracks_initial (n := 0)
  exact ⟨composed, hserve⟩

private theorem asks_call {text : List UInt8} (channel : String) (hlen : text.length ≤ 508)
    (hnul : ∀ b ∈ text, b ≠ 0) :
    Asks (oneCall text channel) ([0x35, 0, 0, 0] ++ text) "CallRequest" 1 2 channel :=
  ⟨_, _, parse_call channel hlen hnul, rfl, rfl, rfl, rfl, rfl, rfl⟩

/-- A channel of 160 control characters, in a payload of 255 bytes: they are written six times as
long. -/
theorem control_characters_overflow : ∃ (lib : Library) (w : StyledWriter) (text : List UInt8)
    (channel : String) (composed : List (List (HSocket × Value))), w.Documented 3 ∧
    text = callText (List.replicate 160 1) ∧ text.length ≤ 508 ∧
    channel = String.ofList (List.replicate 160 (Char.ofNat 1)) ∧
    lib.parse (cString (jsonData ([0x35, 0, 0, 0] ++ text))) = some (callValue channel) ∧
    serve lib (fun _ _ => createGuid fun _ => 0) 0 .initial [[0x35, 0, 0, 0] ++ text] =
      some composed ∧
    ¬ ∀ ms ∈ composed, ∀ m ∈ ms, WithinFrame (w.write m.2) := by
  have hlen : (callText (List.replicate 160 1)).length ≤ 508 := by decide +kernel
  have hnul : ∀ b ∈ callText (List.replicate 160 1), b ≠ 0 := by decide +kernel
  have hw := StyledWriter.standard_documented 3
  obtain ⟨composed, hserve⟩ := serve_call (String.ofList (List.replicate 160 (Char.ofNat 1))) hlen
    hnul (fun _ _ => createGuid fun _ => 0)
  refine ⟨_, _, _, _, composed, hw, rfl, hlen, rfl, parse_call _ hlen hnul, hserve, fun hall => ?_⟩
  have hfits := (serve_fits hw (by decide) (fun _ _ _ => 0) hserve).mp hall _ List.mem_cons_self
  have hroom := (hfits 1 2 _).1 (asks_call _ hlen hnul)
  rw [callSize, hw.quoted_control, String.toList_ofList, List.length_replicate] at hroom
  · omega
  · rw [String.toList_ofList]
    exact List.all_eq_true.mpr fun c hc => (List.mem_replicate.mp hc).2 ▸ by decide

/-- A request for a call on "channel1". -/
theorem replies_fit_iff_channel1 : ∃ (lib : Library) (composed : List (List (HSocket × Value))),
    serve lib (fun _ _ => createGuid fun _ => 0) 0 .initial
      [[0x35, 0, 0, 0] ++ callText (asciiBytes "channel1")] = some composed ∧
    ∀ ms ∈ composed, ∀ m ∈ ms, WithinFrame ((StyledWriter.standard 3).write m.2) := by
  have hlen : (callText (asciiBytes "channel1")).length ≤ 508 := by decide +kernel
  have hnul : ∀ b ∈ callText (asciiBytes "channel1"), b ≠ 0 := by decide +kernel
  obtain ⟨composed, hserve⟩ := serve_call "channel1" hlen hnul (fun _ _ => createGuid fun _ => 0)
  refine ⟨_, composed, hserve, ?_⟩
  apply (replies_fit_iff _ (.standard 3) 3 (fun _ _ _ => 0) _ composed
    (StyledWriter.standard_documented 3) (by decide) hserve).mpr
  intro slot hslot src dst channel
  obtain rfl := List.mem_singleton.mp hslot
  have hasks := asks_call "channel1" hlen hnul
  constructor
  · intro ha
    obtain ⟨rfl, rfl, rfl⟩ := hasks.unique ha
    decide
  · intro ha
    have hname := ha.name_eq (parse_call "channel1" hlen hnul) rfl
    exact absurd hname (by decide)

end RTPVoice.Session
