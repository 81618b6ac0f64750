import RTPVoice.ClientObj.Survival
import RTPVoice.MyMasterServer.Texts
import RTPVoice.Server.Client
import RTPVoice.Session.WithinFrame

namespace RTPVoice.Server

open Framework Json ClientObj MyMasterServer MyProtocol Session

section Rounds

variable (lib : Library) (w : StyledWriter) (rand : Nat → Nat → Nat → Nat)
  (clientmap : List SocketParams) (clear : Value → Option Unit)

/-- One round of the loop: a packet is handled, with the callback that `onData` makes on this very
thread, and `val` cleared; `none` where something throws, an iterator past the end is followed or
the callback leaves its fragment. A text that is refused leaves nothing in `val` that cannot be
cleared. -/
def round (handled : Nat) (c : ProtocolCtrlr) (slot : List UInt8) :
    Option (ProtocolCtrlr × List (HSocket × List UInt8)) := do
  let done ← parsePacket lib w rand clientmap handled c slot
  match lib.parse (cString (jsonData slot)) with
  | none => return done
  | some val =>
    clear val
    return done

/-- The rounds on the packets taken, with what their callbacks hand to `PhySocketSendData`. -/
def protocolParseThreadFunc : Nat → ProtocolCtrlr → List (List UInt8) →
    Option (ProtocolCtrlr × List (HSocket × List UInt8))
  | _, c, [] => some (c, [])
  | handled, c, slot :: slots => do
    let (c, toSend) ← round lib w rand clientmap clear handled c slot
    let (c, rest) ← protocolParseThreadFunc (handled + 1) c slots
    return (c, toSend ++ rest)

end Rounds

variable {lib : Library} {w : StyledWriter} {indentSize : Nat} {rand : Nat → Nat → Nat → Nat}
  {clientmap : List SocketParams} {clear : Value → Option Unit}

/-! ### The callback -/

theorem isSome_outgoing_iff (composed : List (HSocket × Value)) :
    (outgoing w clientmap composed).isSome ↔
      ∀ m ∈ composed, (sendDataToTheThirdParty m.1 (w.write m.2) clientmap).isSome := by
  rw [outgoing, Option.isSome_map]
  induction composed with
  | nil => simp
  | cons m composed ih =>
    rw [List.forall_mem_cons, ← ih, List.mapM_cons, Option.bind_eq_bind, isSome_bind_iff]
    constructor
    · intro h
      obtain ⟨sends, hsends, h⟩ := h
      obtain ⟨rest, hrest, -⟩ := isSome_bind_iff.mp h
      exact ⟨by rw [hsends]; rfl, by rw [hrest]; rfl⟩
    · intro h
      obtain ⟨hsends, hrest⟩ := h
      obtain ⟨sends, hsends⟩ := Option.isSome_iff_exists.mp hsends
      obtain ⟨rest, hrest⟩ := Option.isSome_iff_exists.mp hrest
      exact ⟨sends, hsends, by simp [hrest]⟩

section Writing

variable (hw : w.Documented indentSize) (hescape : ∀ ch, NulFree (w.escape ch))
include hw hescape

/-- A message of the callback is sent without an access outside its fragment precisely when its
text has a size that the fragment is made for. -/
theorem isSome_send_iff {n : Nat} {call : Option (ProtocolNames × ResponeData)}
    {m : HSocket × Value} (hm : m ∈ composed rand n call) :
    (sendDataToTheThirdParty m.1 (w.write m.2) clientmap).isSome ↔ WithinFrame (w.write m.2) := by
  have hcomposed : Composed m.2 := by
    cases call with
    | none => simp [composed] at hm
    | some call => exact masterOnDataFunc_composed hm
  rw [isSome_sendDataToTheThirdParty_iff (hcomposed.text hw hescape).2, withinFrame_iff]

variable (hlib : lib.Strict) (hindent : indentSize ≤ 8)
include hlib hindent

/-- A packet is handled, its callback included, when its value is survivable and a call it asks for
fits. -/
theorem isSome_parsePacket_iff (n : Nat) (c : ProtocolCtrlr) (slot : List UInt8) :
    (parsePacket lib w rand clientmap n c slot).isSome ↔
      (∀ val, lib.parse (cString (jsonData slot)) = some val → Survivable val) ∧
        CallFits lib w indentSize slot := by
  rw [← isSome_takePacket_iff hlib c, parsePacket, Option.bind_eq_bind, isSome_bind_iff]
  have hcallback (c' : ProtocolCtrlr) (call : Option (ProtocolNames × ResponeData))
      (htake : c.takePacket lib slot = some (c', call)) :
      (outgoing w clientmap (composed rand n call)).isSome ↔ CallFits lib w indentSize slot := by
    rw [isSome_outgoing_iff, ← takePacket_fits hw hindent (rand n) htake]
    have hsame : composedFor (fun k => createGuid (rand n k)) call = composed rand n call := by
      cases call <;> rfl
    rw [hsame]
    exact forall₂_congr fun m hm => isSome_send_iff hw hescape hm
  constructor
  · intro h
    obtain ⟨⟨c', call⟩, htake, h⟩ := h
    obtain ⟨toSend, hsend, -⟩ := isSome_bind_iff.mp h
    exact ⟨by rw [htake]; rfl, (hcallback c' call htake).mp (by rw [hsend]; rfl)⟩
  · intro h
    obtain ⟨htake, hfits⟩ := h
    obtain ⟨⟨c', call⟩, htake⟩ := Option.isSome_iff_exists.mp htake
    obtain ⟨toSend, hsend⟩ := Option.isSome_iff_exists.mp ((hcallback c' call htake).mpr hfits)
    exact ⟨(c', call), htake, by simp [hsend]⟩

variable (hclear : ∀ v, (clear v).isSome = v.isClearable)
include hclear

/-- What is read from can be cleared. -/
theorem isSome_round_iff (n : Nat) (c : ProtocolCtrlr) (slot : List UInt8) :
    (round lib w rand clientmap clear n c slot).isSome ↔
      (∀ val, lib.parse (cString (jsonData slot)) = some val → Survivable val) ∧
        CallFits lib w indentSize slot := by
  rw [← isSome_parsePacket_iff hw hescape hlib hindent n c, round, Option.bind_eq_bind,
    isSome_bind_iff]
  constructor
  · intro h
    obtain ⟨done, hparse, -⟩ := h
    rw [hparse]
    rfl
  · intro h
    obtain ⟨done, hdone⟩ := Option.isSome_iff_exists.mp h
    refine ⟨done, hdone, ?_⟩
    cases hparse : lib.parse (cString (jsonData slot)) with
    | none => rfl
    | some val =>
      have hval :=
        ((isSome_parsePacket_iff hw hescape hlib hindent n c slot).mp h).1 val hparse
      have hcleared := hclear val
      rw [Value.isClearable_of_isKeyed hval.root] at hcleared
      obtain ⟨u, hu⟩ := Option.isSome_iff_exists.mp hcleared
      simp [hu]

end Writing

/-- The thread survives all packets exactly when the value of each that is accepted is survivable
and each call asked for leaves room for its notification. -/
theorem survives_iff (lib : Library) (w : StyledWriter) (indentSize : Nat)
    (rand : Nat → Nat → Nat → Nat) (clientmap : List SocketParams) (clear : Value → Option Unit)
    (handled : Nat) (c : ProtocolCtrlr) (slots : List (List UInt8)) (hlib : lib.Strict)
    (hclear : ∀ v, (clear v).isSome = v.isClearable) (hw : w.Documented indentSize)
    (hindent : indentSize ≤ 8) (hescape : ∀ ch, NulFree (w.escape ch)) :
    (protocolParseThreadFunc lib w rand clientmap clear handled c slots).isSome ↔
      ∀ slot ∈ slots, (∀ val, lib.parse (cString (jsonData slot)) = some val → Survivable val) ∧
        CallFits lib w indentSize slot := by
  induction slots generalizing handled c with
  | nil => simp [protocolParseThreadFunc]
  | cons slot slots ih =>
    rw [List.forall_mem_cons, ← isSome_round_iff hw hescape hlib hindent hclear handled c,
      protocolParseThreadFunc, Option.bind_eq_bind, isSome_bind_iff]
    constructor
    · intro h
      obtain ⟨⟨c', toSend⟩, hround, h⟩ := h
      obtain ⟨rest, hrest, -⟩ := isSome_bind_iff.mp h
      exact ⟨by rw [hround]; rfl, (ih (handled + 1) c').mp (by rw [hrest]; rfl)⟩
    · intro h
      obtain ⟨hround, hslots⟩ := h
      obtain ⟨⟨c', toSend⟩, hround⟩ := Option.isSome_iff_exists.mp hround
      obtain ⟨rest, hrest⟩ := Option.isSome_iff_exists.mp ((ih (handled + 1) c').mpr hslots)
      exact ⟨_, hround, by simp [hrest]⟩

/-- What `clear` is documented to take. -/
private def clearValue (v : Value) : Option Unit := if v.isClearable then some () else none

private theorem isSome_clearValue (v : Value) : (clearValue v).isSome = v.isClearable := by
  unfold clearValue
  split <;> simp_all

/-- The document of two brackets: the first access to it throws. -/
theorem array_root_throws : ∃ (lib : Library) (clear : Value → Option Unit), lib.Strict ∧
    (∀ v, (clear v).isSome = v.isClearable) ∧
    lib.parse (cString (jsonData ([0x37, 0, 0, 0] ++ [0x5B, 0x5D]))) = some (.arrayValue []) ∧
    protocolParseThreadFunc lib asciiWriter (fun _ _ _ => 0) [] clear 0 .initial
      [[0x37, 0, 0, 0] ++ [0x5B, 0x5D]] = none := by
  have hparse := parse_only [0x5B, 0x5D] (.arrayValue []) (by decide) (by simp)
  refine ⟨_, clearValue, Library.withParser_strict _, isSome_clearValue, hparse, ?_⟩
  simp only [protocolParseThreadFunc, round, parsePacket, ProtocolCtrlr.takePacket, hparse]
  rfl

private def arrayQueryText : List UInt8 :=
  asciiBytes "\x7b\"name\":\"Query\",\"param\":[],\"type\":\"Request\"\x7d"

private def arrayQueryValue : Value :=
  .objectValue [("name", .stringValue "Query"), ("param", .arrayValue []),
    ("type", .stringValue "Request")]

private def parseTwo (t : List UInt8) : Option Value :=
  if t = arrayQueryText then some arrayQueryValue
  else if t = callText (asciiBytes "channel1") then some (callValue "channel1") else none

private def twoTexts : Library := .withParser parseTwo

private theorem parse_arrayQuery :
    twoTexts.parse (cString (jsonData ([0x35, 0, 0, 0] ++ arrayQueryText))) =
      some arrayQueryValue := by
  rw [cString_jsonData rfl (by decide +kernel) (by decide +kernel)]
  show parseTwo arrayQueryText = _
  rw [parseTwo, if_pos rfl]

private theorem parse_channel1 :
    twoTexts.parse (cString (jsonData ([0x35, 0, 0, 0] ++ callText (asciiBytes "channel1")))) =
      some (callValue "channel1") := by
  have hne : callText (asciiBytes "channel1") ≠ arrayQueryText := by decide +kernel
  rw [cString_jsonData rfl (by decide +kernel) (by decide +kernel)]
  show parseTwo (callText (asciiBytes "channel1")) = _
  rw [parseTwo, if_neg hne, if_pos rfl]

/-- A query that has its parameters in an array, which are not looked at, and a request for a call
on "channel1", which is answered and notified. -/
theorem survives_iff_channel1 :
    (protocolParseThreadFunc twoTexts asciiWriter (fun _ _ _ => 0) [⟨5, 50000⟩] clearValue 0
      .initial [[0x35, 0, 0, 0] ++ arrayQueryText,
        [0x35, 0, 0, 0] ++ callText (asciiBytes "channel1")]).isSome := by
  apply (survives_iff _ asciiWriter 3 _ _ clearValue 0 .initial _ (Library.withParser_strict _)
    isSome_clearValue asciiWriter_documented (by decide) asciiWriter_escape).mpr
  rw [List.forall_mem_cons, List.forall_mem_singleton]
  constructor
  · constructor
    · intro val hval
      obtain rfl : arrayQueryValue = val := Option.some.inj (parse_arrayQuery.symm.trans hval)
      exact ⟨rfl, by decide, readableParam_other (by decide) (by decide) (by decide),
        fun _ => by decide⟩
    · have hother (name : String) (src dst : Int32) (channel : String) (hname : name ≠ "Query") :
          ¬ Asks twoTexts ([0x35, 0, 0, 0] ++ arrayQueryText) name src dst channel :=
        fun ha => hname (ha.name_eq parse_arrayQuery rfl)
      exact fun src dst channel => ⟨fun ha => absurd ha (hother _ _ _ _ (by decide)),
        fun ha => absurd ha (hother _ _ _ _ (by decide))⟩
  · constructor
    · intro val hval
      obtain rfl : callValue "channel1" = val := Option.some.inj (parse_channel1.symm.trans hval)
      exact ⟨rfl, by decide, (readableParam_call (by decide)).mpr (by decide),
        fun _ => by decide⟩
    · have hasks : Asks twoTexts ([0x35, 0, 0, 0] ++ callText (asciiBytes "channel1"))
          "CallRequest" 1 2 "channel1" :=
        ⟨_, _, parse_channel1, rfl, rfl, rfl, rfl, rfl, rfl⟩
      refine fun src dst channel => ⟨fun ha => ?_, fun ha => ?_⟩
      · obtain ⟨rfl, rfl, rfl⟩ := hasks.unique ha
        decide
      · exact absurd (ha.name_eq parse_channel1 rfl) (by decide)

end RTPVoice.Server
