import RTPVoice.ClientObj.Survival

namespace RTPVoice.ClientObj

open Json

/-- The names the parser tells apart, with their codes. -/
def parserNames : List (String × ProtocolNames) :=
  [("Connect", .connect), ("Listening", .listening), ("Query", .query),
    ("CallRequest", .callRequest), ("CallRelease", .callRelease), ("CallStart", .callStart),
    ("CallEnd", .callEnd)]

/-- The names that are spelt alike in `statemap`. -/
def sharedNames : List String :=
  ["Connect", "Listening", "Query", "CallRequest", "CallRelease", "CallStart"]

/-- `val` is a message of type "Request" with the name, and what is read for that name can be
read. -/
structure RequestNamed (val : Value) (name : String) : Prop where
  root : val.isKeyed
  header : ∀ key ∈ ["identifier", "type", "name"], (val.get key).isTextual
  type : (val.get "type").text = "Request"
  named : (val.get "name").text = name
  param : ReadableParam val name

/-- The packet is handled, with one callback under the code of a name the parser knows and none for
any other name. -/
def Dispatched (lib : Library) (c : ProtocolCtrlr) (slot : List UInt8) (name : String) : Prop :=
  ∃ c' call, c.takePacket lib slot = some (c', call) ∧
    call.map Prod.fst = parserNames.lookup name

variable {lib : Library} {c : ProtocolCtrlr} {slot : List UInt8} {val : Value} {name : String}

/-! ### The tables -/

/-- A name in both tables with one code. -/
theorem tables_agree_iff (name : String) :
    (∃ command, statemap.lookup name = some command ∧ parserNames.lookup name = some command) ↔
      name ∈ sharedNames := by
  constructor
  · intro h
    obtain ⟨command, hmap, hparser⟩ := h
    have hmem : name ∈ statemap.map Prod.fst := by
      obtain ⟨before, after, hsplit, -⟩ := List.lookup_eq_some_iff.mp hmap
      simp [hsplit]
    simp only [statemap, List.map_cons, List.map_nil, List.mem_cons, List.not_mem_nil,
      or_false] at hmem
    rcases hmem with rfl | rfl | rfl | rfl | rfl | rfl | rfl
    case inr.inr.inr.inr.inr.inr =>
      have hnone : parserNames.lookup "CallEND" = none := by decide
      rw [hnone] at hparser
      cases hparser
    all_goals decide
  · intro h
    simp only [sharedNames, List.mem_cons, List.not_mem_nil, or_false] at h
    rcases h with rfl | rfl | rfl | rfl | rfl | rfl
    all_goals exact ⟨_, rfl, rfl⟩

/-! ### The lookup -/

theorem dataProcessFunc_command (c : ProtocolCtrlr) :
    c.dataProcessFunc.map Prod.fst = statemap.lookup c.name := by
  unfold ProtocolCtrlr.dataProcessFunc
  cases statemap.lookup c.name <;> rfl

/-- What becomes of a request depends on its name alone: the callback has the code `statemap` gives
the name, and without one the iterator past the end is followed. -/
theorem takePacket_command (hlib : lib.Strict) (c : ProtocolCtrlr)
    (hparse : lib.parse (cString (jsonData slot)) = some val) (hval : RequestNamed val name) :
    (c.takePacket lib slot).map (fun r => r.2.map Prod.fst) =
      (statemap.lookup name).map some := by
  obtain ⟨c', hread⟩ := Option.isSome_iff_exists.mp ((isSome_read_iff hlib c (clientFd slot)).mpr
    ⟨hval.root, hval.header, hval.named ▸ hval.param⟩)
  obtain ⟨htype, hname⟩ := ProtocolCtrlr.read_header hlib hread
  have hcommand := dataProcessFunc_command c'
  rw [hname, hval.named] at hcommand
  simp only [ProtocolCtrlr.takePacket, hparse, hread, Option.bind_eq_bind, Option.bind_some,
    if_pos (htype.trans hval.type), ← hcommand]
  cases c'.dataProcessFunc <;> rfl

/-- A name that is not in `statemap`, known to the parser or not. -/
theorem takePacket_unlisted (hlib : lib.Strict) (c : ProtocolCtrlr)
    (hparse : lib.parse (cString (jsonData slot)) = some val) (hval : RequestNamed val name)
    (hlookup : statemap.lookup name = none) : c.takePacket lib slot = none := by
  have hcommand := takePacket_command hlib c hparse hval
  rw [hlookup, Option.map_none] at hcommand
  exact Option.map_eq_none_iff.mp hcommand

/-- A request is dispatched as the parser's names ask exactly when its name is spelt alike in both
tables: the seventh name of `statemap` is none of the parser's, and the other way round. -/
theorem dispatched_iff (lib : Library) (hlib : lib.Strict) (c : ProtocolCtrlr) (slot : List UInt8)
    (val : Value) (name : String) (hparse : lib.parse (cString (jsonData slot)) = some val)
    (hval : RequestNamed val name) : Dispatched lib c slot name ↔ name ∈ sharedNames := by
  rw [← tables_agree_iff]
  have hcommand := takePacket_command hlib c hparse hval
  constructor
  · intro h
    obtain ⟨c', call, htake, hcall⟩ := h
    rw [htake, Option.map_some] at hcommand
    obtain ⟨command, hlookup, hsome⟩ := Option.map_eq_some_iff.mp hcommand.symm
    exact ⟨command, hlookup, by rw [← hcall, ← hsome]⟩
  · intro h
    obtain ⟨command, hlookup, hparser⟩ := h
    rw [hlookup, Option.map_some] at hcommand
    obtain ⟨⟨c', call⟩, htake, hcall⟩ := Option.map_eq_some_iff.mp hcommand
    exact ⟨c', call, htake, hcall.trans hparser.symm⟩

private def namedText : List UInt8 :=
  asciiBytes "\x7b\"identifier\":\"1\",\"name\":\"Query\",\"type\":\"Request\"\x7d"

private def namedValue : Value :=
  .objectValue [("identifier", .stringValue "1"), ("name", .stringValue "Query"),
    ("type", .stringValue "Request")]

/-- A query. -/
theorem dispatched_iff_query : ∃ lib : Library,
    lib.parse (cString (jsonData ([0x37, 0, 0, 0] ++ namedText))) = some namedValue ∧
    Dispatched lib .initial ([0x37, 0, 0, 0] ++ namedText) "Query" := by
  have hparse := parse_only namedText namedValue (by decide) (by decide +kernel)
  refine ⟨_, hparse, (dispatched_iff _ (Library.withParser_strict _) .initial _ _ "Query" hparse
    ⟨rfl, by decide, rfl, rfl, ?_⟩).mpr (by decide)⟩
  exact readableParam_other (by decide) (by decide) (by decide)

private def callEndText : List UInt8 :=
  asciiBytes ("\x7b\"identifier\":\"1\",\"name\":\"CallEnd\",\"param\":" ++
    "\x7b\"channel\":\"1\",\"dst\":2,\"src\":3\x7d,\"type\":\"Request\"\x7d")

private def callEndValue : Value :=
  .objectValue [("identifier", .stringValue "1"), ("name", .stringValue "CallEnd"),
    ("param", .objectValue [("channel", .stringValue "1"), ("dst", .intValue 2),
      ("src", .intValue 3)]),
    ("type", .stringValue "Request")]

/-- A well-typed "CallEnd" follows the iterator past the end. -/
theorem call_end_not_dispatched : ∃ lib : Library, lib.Strict ∧
    lib.parse (cString (jsonData ([0x37, 0, 0, 0] ++ callEndText))) = some callEndValue ∧
    RequestNamed callEndValue "CallEnd" ∧
    ProtocolCtrlr.initial.takePacket lib ([0x37, 0, 0, 0] ++ callEndText) = none ∧
    ¬ Dispatched lib .initial ([0x37, 0, 0, 0] ++ callEndText) "CallEnd" := by
  have hparse := parse_only callEndText callEndValue (by decide) (by decide +kernel)
  have hval : RequestNamed callEndValue "CallEnd" :=
    ⟨rfl, by decide, rfl, rfl, (readableParam_call (by decide)).mpr ⟨rfl, rfl, rfl, rfl⟩⟩
  have hnone := takePacket_unlisted (Library.withParser_strict _) .initial hparse hval (by decide)
  refine ⟨_, Library.withParser_strict _, hparse, hval, hnone, fun h => ?_⟩
  obtain ⟨c', call, htake, -⟩ := h
  rw [hnone] at htake
  cases htake

end RTPVoice.ClientObj
