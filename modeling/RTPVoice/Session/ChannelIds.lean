import RTPVoice.Json.Conversions
import RTPVoice.Session.Refinement

namespace RTPVoice.Session

open Json ClientObj MyMasterServer MyProtocol

variable {lib : Library} {slot : List UInt8} {c c' : ProtocolCtrlr}

/-- A message in the packet has another name than "Listening". -/
def OtherName (lib : Library) (slot : List UInt8) : Prop :=
  ∀ val, lib.parse (cString (jsonData slot)) = some val →
    stringMember lib val "name" ≠ some "Listening"

/-- The first messages composed are the reply to a listening request for `c₁` and `c₂`, the last
ones the reply to a query, and both show these values. -/
def Echoed (composed : List (List (HSocket × Value))) (c₁ c₂ : Int32) : Prop :=
  (composed.head?.map fun ms => ms.map fun m => m.2.without "identifier") =
    some [(Message.listening c₁.toInt c₂.toInt).document] ∧
  (composed.getLast?.map fun ms => ms.map fun m => m.2.without "identifier") =
    some [(Message.query c₁.toInt c₂.toInt).document]

/-- A value that 16 bits with a sign can hold. -/
def Fits16 (c : Int32) : Prop := -32768 ≤ c.toInt ∧ c.toInt ≤ 32767

instance (c : Int32) : Decidable (Fits16 c) := inferInstanceAs (Decidable (_ ∧ _))

theorem signed16_eq_iff (c : Int32) : signed16 c = c.toInt ↔ Fits16 c := by
  rw [signed16, Fits16, Int.bmod_def]
  split <;> omega

/-- Replies that show different values are different. -/
theorem listening_document_inj {a₁ a₂ b₁ b₂ : Int} :
    (Message.listening a₁ a₂).document = (Message.listening b₁ b₂).document ↔
      a₁ = b₁ ∧ a₂ = b₂ := by
  constructor
  · intro h
    simp only [Message.document, Message.param, channelStatus, Value.objectValue.injEq,
      Value.arrayValue.injEq, Value.intValue.injEq, List.cons.injEq, Prod.mk.injEq] at h
    obtain ⟨-, ⟨-, ⟨⟨-, ⟨-, -, ⟨-, h₁⟩, -⟩, -⟩, ⟨-, ⟨-, -, ⟨-, h₂⟩, -⟩, -⟩, -⟩, -⟩, -⟩ := h
    exact ⟨h₁, h₂⟩
  · intro h
    obtain ⟨rfl, rfl⟩ := h
    rfl

/-! ### What other messages leave alone -/

theorem read_other {val : Value} {fd : HSocket}
    (hname : stringMember lib val "name" ≠ some "Listening") (h : c.read lib fd val = some c') :
    c'.channel1GroupId = c.channel1GroupId ∧ c'.channel2GroupId = c.channel2GroupId := by
  simp only [ProtocolCtrlr.read, Option.bind_eq_bind, Option.bind_eq_some_iff] at h
  obtain ⟨_, -, _, -, name, hn, h⟩ := h
  have hne : name ≠ "Listening" := by
    rintro rfl
    exact hname hn
  rw [if_neg hne] at h
  repeat' split at h
  all_goals simp only [Option.bind_eq_some_iff, Option.pure_def, Option.some.injEq] at h
  · obtain ⟨_, -, rfl⟩ := h
    exact ⟨rfl, rfl⟩
  · subst h
    exact ⟨rfl, rfl⟩
  · obtain ⟨_, -, _, -, _, -, _, -, rfl⟩ := h
    exact ⟨rfl, rfl⟩
  · subst h
    exact ⟨rfl, rfl⟩

theorem takePacket_other {call : Option (ProtocolNames × ResponeData)}
    (hother : OtherName lib slot) (h : c.takePacket lib slot = some (c', call))
    {latest : Channels} (ht : Tracks c latest) : Tracks c' latest := by
  unfold ProtocolCtrlr.takePacket at h
  split at h
  · cases h
    exact ht
  · next val hparse =>
    obtain ⟨c₁, hread, h⟩ := Option.bind_eq_some_iff.mp h
    obtain ⟨h₁, h₂⟩ := read_other (hother val hparse) hread
    have hc : c' = c₁ := by
      split at h
      · obtain ⟨_, -, h⟩ := Option.bind_eq_some_iff.mp h
        cases h
        rfl
      · cases h
        rfl
    subst hc
    exact ht.same h₁ h₂

/-! ### From the listening request to the query -/

theorem getLast?_map_cons {α β : Type} {f : α → β} {a : α} {l : List α} {b : β}
    (h : l.getLast?.map f = some b) : (a :: l).getLast?.map f = some b := by
  obtain ⟨last, hlast, rfl⟩ := Option.map_eq_some_iff.mp h
  rw [List.getLast?_cons, hlast]
  rfl

/-- Behind packets with other messages a query shows the channels remembered before them. -/
theorem serve_query (hlib : lib.Documented) (guid : Nat → Nat → String)
    {between : List (List UInt8)} (hbetween : ∀ slot ∈ between, OtherName lib slot)
    (hquery : Brings lib slot .query) {latest : Channels} (ht : Tracks c latest) {n : Nat}
    {composed : List (List (HSocket × Value))}
    (h : serve lib guid n c (between ++ [slot]) = some composed) :
    (composed.getLast?.map fun ms => ms.map fun m => m.2.without "identifier") =
      some [(Message.query latest.channel1 latest.channel2).document] := by
  induction between generalizing n c composed with
  | nil =>
    obtain ⟨c', call, rest, htake, hrest, rfl⟩ := serve_cons h
    cases hrest
    obtain ⟨c₁, command, data, htake', hanswer, -⟩ :=
      takePacket_brings hlib hquery ht (guid n)
    obtain ⟨-, rfl⟩ := Prod.mk.inj (Option.some.inj (htake.symm.trans htake'))
    exact congrArg some hanswer
  | cons other between ih =>
    obtain ⟨c', call, rest, htake, hrest, rfl⟩ := serve_cons h
    have ht' := takePacket_other (hbetween other (by simp)) htake ht
    exact getLast?_map_cons (ih (fun s hs => hbetween s (by simp [hs])) ht' hrest)

/-- The replies to a listening request and to a later query show the values asked for exactly when
these fit in 16 bits: `ResponeData` has no more room for them. -/
theorem channel_ids_echoed_iff (lib : Library) (hlib : lib.Documented)
    (guid : Nat → Nat → String) (n : Nat) (c : ProtocolCtrlr) (c₁ c₂ : Int32)
    (listening query : List UInt8) (between : List (List UInt8))
    (hlistening : Brings lib listening (.listening c₁ c₂)) (hquery : Brings lib query .query)
    (hbetween : ∀ slot ∈ between, OtherName lib slot)
    (composed : List (List (HSocket × Value)))
    (h : serve lib guid n c (listening :: (between ++ [query])) = some composed) :
    Echoed composed c₁ c₂ ↔ Fits16 c₁ ∧ Fits16 c₂ := by
  obtain ⟨c', call, rest, htake, hrest, rfl⟩ := serve_cons h
  have hbefore : Tracks c ⟨c.channel1GroupId.toUInt16.toInt16.toInt,
      c.channel2GroupId.toUInt16.toInt16.toInt⟩ := ⟨rfl, rfl⟩
  obtain ⟨c'', command, data, htake', hanswer, ht⟩ :=
    takePacket_brings hlib hlistening hbefore (guid n)
  obtain ⟨rfl, rfl⟩ := Prod.mk.inj (Option.some.inj (htake.symm.trans htake'))
  have hlast := serve_query hlib guid hbetween hquery ht hrest
  have hfirst : (composedFor (guid n) (some (command, data))).map
      (fun m => m.2.without "identifier") =
      [(Message.listening (signed16 c₁) (signed16 c₂)).document] := hanswer
  rw [← signed16_eq_iff, ← signed16_eq_iff]
  constructor
  · intro hecho
    have hhead := hecho.1
    rw [List.head?_cons, Option.map_some, hfirst] at hhead
    have hdoc := (List.cons.inj (Option.some.inj hhead)).1
    exact listening_document_inj.mp hdoc
  · intro hids
    obtain ⟨h₁, h₂⟩ := hids
    refine ⟨?_, ?_⟩
    · rw [List.head?_cons, Option.map_some, hfirst, h₁, h₂]
    · rw [← h₁, ← h₂]
      exact getLast?_map_cons hlast

private def idsText (channel1 : String) : List UInt8 :=
  asciiBytes ("\x7b\"identifier\":\"1\",\"name\":\"Listening\",\"type\":\"Request\"," ++
    "\"param\":\x7b\"listening\":\x7b\"channel1\":" ++ channel1 ++ ",\"channel2\":7\x7d\x7d\x7d")

private def idsValue (channel1 : Int) : Value :=
  .objectValue [("identifier", .stringValue "1"), ("name", .stringValue "Listening"),
    ("param", .objectValue
      [("listening",
        .objectValue [("channel1", .intValue channel1), ("channel2", .intValue 7)])]),
    ("type", .stringValue "Request")]

private def askText : List UInt8 :=
  asciiBytes "\x7b\"identifier\":\"2\",\"name\":\"Query\",\"type\":\"Request\"\x7d"

private def askValue : Value :=
  .objectValue [("identifier", .stringValue "2"), ("name", .stringValue "Query"),
    ("type", .stringValue "Request")]

private def idsLibrary (text : String) (channel1 : Int32) : Library :=
  .withParser fun t => if t = idsText text then some (idsValue channel1.toInt)
    else if t = askText then some askValue else none

private theorem brings_ids (text : String) (channel1 : Int32)
    (hle : (idsText text).length ≤ 508) (hnul : ∀ b ∈ idsText text, b ≠ 0) :
    Brings (idsLibrary text channel1) ([0x37, 0, 0, 0] ++ idsText text)
      (.listening channel1 7) :=
  ⟨idsValue channel1.toInt, by rw [cString_jsonData rfl hle hnul]; exact if_pos rfl,
    ⟨_, _, rfl, rfl⟩, ⟨_, rfl, rfl⟩, ⟨_, rfl, rfl⟩,
    _, _, ⟨_, rfl, rfl⟩, ⟨_, rfl, rfl⟩, ⟨_, rfl, rfl⟩, ⟨_, rfl, rfl⟩⟩

private theorem brings_ask (text : String) (channel1 : Int32) (hne : askText ≠ idsText text) :
    Brings (idsLibrary text channel1) ([0x37, 0, 0, 0] ++ askText) .query :=
  ⟨askValue, by
    rw [cString_jsonData rfl (by decide +kernel) (by decide +kernel)]
    exact (if_neg hne).trans (if_pos rfl),
    ⟨_, _, rfl, rfl⟩, ⟨_, rfl, rfl⟩, ⟨_, rfl, rfl⟩, trivial⟩

/-- A negative value that fits. -/
theorem channel_ids_echoed_iff_negative : ∃ composed,
    serve (idsLibrary "-300" (-300)) (fun _ _ => "") 0 .initial
      (([0x37, 0, 0, 0] ++ idsText "-300") :: ([] ++ [[0x37, 0, 0, 0] ++ askText])) =
      some composed ∧ Echoed composed (-300) 7 := by
  have hids := brings_ids "-300" (-300) (by decide +kernel) (by decide +kernel)
  have hask := brings_ask "-300" (-300) (by decide +kernel)
  obtain ⟨composed, hserve, -⟩ := serve_brings (Library.withParser_documented _) (fun _ _ => "")
    (.cons hids (.cons hask .nil)) tracks_initial
  exact ⟨composed, hserve, (channel_ids_echoed_iff _ (Library.withParser_documented _)
    (fun _ _ => "") 0 .initial (-300) 7 _ _ [] hids hask (by simp) composed hserve).mpr
    (by decide)⟩

/-- A value of 17 bits comes back as zero, a channel that is unset. -/
theorem wide_id_not_echoed : ∃ (lib : Library) (listening query : List UInt8)
    (composed : List (List (HSocket × Value))), lib.Documented ∧
    Brings lib listening (.listening 65536 7) ∧ Brings lib query .query ∧
    serve lib (fun _ _ => "") 0 .initial [listening, query] = some composed ∧
    ¬ Echoed composed 65536 7 := by
  have hids := brings_ids "65536" 65536 (by decide +kernel) (by decide +kernel)
  have hask := brings_ask "65536" 65536 (by decide +kernel)
  obtain ⟨composed, hserve, hanswers, -⟩ := serve_brings (Library.withParser_documented _)
    (fun _ _ => "") (.cons hids (.cons hask .nil)) tracks_initial
  refine ⟨_, _, _, composed, Library.withParser_documented _, hids, hask, hserve,
    fun hecho => ?_⟩
  have hhead := hecho.1
  rw [← List.head?_map, hanswers] at hhead
  have hdoc := (List.cons.inj (Option.some.inj hhead)).1
  exact absurd (listening_document_inj.mp hdoc) (by decide)

end RTPVoice.Session
