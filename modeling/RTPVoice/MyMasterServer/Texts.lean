import RTPVoice.Json.NulFree
import RTPVoice.MyMasterServer.OnData
import RTPVoice.MyProtocol.ReplySizes

namespace RTPVoice.MyMasterServer

open Framework Json MyProtocol

/-- A message under an identifier of its own, with a name and parameters of the program's. -/
def Composed (v : Value) : Prop :=
  ∃ rand type name param, v = message (createGuid rand) type name param ∧
    (type.toList.all isPlain = true ∧ 5 ≤ type.toList.length) ∧
    (name.toList.all isPlain = true ∧ 5 ≤ name.toList.length) ∧
    param.isSpread = true ∧ param.isExact = true

variable {rand : Nat → Nat → Nat} {command : ProtocolNames} {data : ResponeData}
  {m : HSocket × Value} {w : StyledWriter} {indentSize : Nat} {v : Value}

theorem composed_statusReply (rand : Nat → Nat) {name : String} (status reason : String)
    (hname : name.toList.all isPlain = true) (hlen : 5 ≤ name.toList.length) :
    Composed (statusReply name (createGuid rand) status reason) :=
  ⟨rand, "Reply", name, _, rfl, ⟨rfl, by decide⟩, ⟨hname, hlen⟩, rfl, rfl⟩

theorem composed_callNotify (rand : Nat → Nat) {name : String} (src dst : Int32)
    (channel : String) (hname : name.toList.all isPlain = true) (hlen : 5 ≤ name.toList.length) :
    Composed (callNotify name (createGuid rand) src dst channel) :=
  ⟨rand, "Noitify", name, _, rfl, ⟨rfl, by decide⟩, ⟨hname, hlen⟩, rfl, rfl⟩

theorem composed_configReply (rand : Nat → Nat) (v₁ v₂ : Int32) :
    Composed (configReply (createGuid rand) v₁ v₂) := by
  obtain ⟨_, _, heq₁, -⟩ := channelItem_cases v₁
  obtain ⟨_, _, heq₂, -⟩ := channelItem_cases v₂
  refine ⟨rand, "Reply", "Listening", _, rfl, ⟨rfl, by decide⟩, ⟨rfl, by decide⟩, ?_, ?_⟩ <;>
    · rw [heq₁, heq₂]
      rfl

theorem composed_queryReply (rand : Nat → Nat) (v₁ v₂ : Int32) :
    Composed (queryReply (createGuid rand) v₁ v₂) := by
  obtain ⟨_, _, heq, -⟩ := queryReply_cases (createGuid rand) v₁ v₂
  exact ⟨rand, "Reply", "Query", _, heq, ⟨rfl, by decide⟩, ⟨rfl, by decide⟩, rfl, rfl⟩

/-- Every message of the callback is such a message. -/
theorem masterOnDataFunc_composed
    (h : m ∈ masterOnDataFunc (fun k => createGuid (rand k)) command data) : Composed m.2 := by
  cases command <;> simp only [masterOnDataFunc, List.mem_cons, List.not_mem_nil, or_false] at h
  case connect =>
    subst h
    exact composed_statusReply _ _ _ rfl (by decide)
  case listening =>
    subst h
    exact composed_configReply _ _ _
  case query =>
    subst h
    exact composed_queryReply _ _ _
  case callRequest =>
    rcases h with rfl | rfl
    · exact composed_statusReply _ _ _ rfl (by decide)
    · exact composed_callNotify _ _ _ _ rfl (by decide)
  case callRelease =>
    rcases h with rfl | rfl
    · exact composed_statusReply _ _ _ rfl (by decide)
    · exact composed_callNotify _ _ _ _ rfl (by decide)

/-- The text of such a message is one that `SendDataToTheThirdParty` is made for: its size has
three digits or more, and no byte ends it early. -/
theorem Composed.text (h : Composed v) (hw : w.Documented indentSize)
    (hescape : ∀ c, NulFree (w.escape c)) : 100 ≤ (w.write v).length ∧ NulFree (w.write v) := by
  obtain ⟨rand, type, name, param, rfl, ⟨htype, htlen⟩, ⟨hname, hnlen⟩, hspread, hexact⟩ := h
  constructor
  · rw [message_length hw htype hname hspread]
    omega
  · have hs : (message (createGuid rand) type name param).isSpread = true := by
      simp [message, Value.isSpread, membersSpread, hspread]
    have he : (message (createGuid rand) type name param).isExact = true := by
      simp [message, Value.isExact, membersExact, hexact]
    rw [hw.write _ hs, nulFree_append]
    exact ⟨nulFree_styled hescape 0 _ he, by decide⟩

end RTPVoice.MyMasterServer
