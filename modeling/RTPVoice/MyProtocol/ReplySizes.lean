import RTPVoice.Json.StyledWriter
import RTPVoice.MyProtocol.Replies
import RTPVoice.MyProtocol.SendData

namespace RTPVoice.MyProtocol

open Framework Json

/-- `rand` gives what `rand()` returns for digit `i`. -/
def createGuid (rand : Nat → Nat) : String :=
  String.ofList ((List.range 32).map fun i => Nat.digitChar (rand i % 16))

theorem createGuid_plain (rand : Nat → Nat) : (createGuid rand).toList.all isPlain = true := by
  have hdigit : ∀ n < 16, isPlain (Nat.digitChar n) = true := by decide
  simp only [createGuid, String.toList_ofList, List.all_map, List.all_eq_true, List.mem_range]
  exact fun i _ => hdigit _ (Nat.mod_lt _ (by decide))

theorem createGuid_length (rand : Nat → Nat) : (createGuid rand).toList.length = 32 := by
  simp [createGuid]

variable {w : StyledWriter} {indentSize : Nat}

/-- An array of one object, in the value of a member of level `level`. -/
theorem single_length {escape : Char → List UInt8} (members : List (String × Value)) (level : Nat) :
    (styled escape indentSize level (.arrayValue [.objectValue members])).length =
      indentSize * (3 * level + 2) + 7 +
        (styledMembers escape indentSize (level + 2) members).length := by
  simp only [styled, styledElements, comma, List.isEmpty_nil, if_true, List.length_cons,
    List.length_append, List.length_nil, lineBreak_length]
  ring

section Lengths

variable (hw : w.Documented indentSize)
include hw

/-- The text of a message, around its name, type and parameters. -/
theorem message_length {rand : Nat → Nat} {type name : String} {param : Value}
    (htype : type.toList.all isPlain = true) (hname : name.toList.all isPlain = true)
    (hparam : param.isSpread = true) :
    (w.write (message (createGuid rand) type name param)).length =
      4 * indentSize + 92 + type.toList.length + name.toList.length +
        (styled w.escape indentSize 1 param).length := by
  have hspread : (message (createGuid rand) type name param).isSpread = true := by
    simp [message, Value.isSpread, membersSpread, hparam]
  rw [hw.write _ hspread]
  have hguid := hw.quoted_plain (createGuid_plain rand)
  rw [createGuid_length] at hguid
  have h₁ : (quoted w.escape "identifier").length = 12 := hw.quoted_plain rfl
  have h₂ : (quoted w.escape "name").length = 6 := hw.quoted_plain rfl
  have h₃ : (quoted w.escape "param").length = 7 := hw.quoted_plain rfl
  have h₄ : (quoted w.escape "type").length = 6 := hw.quoted_plain rfl
  have hsep : (asciiBytes " : ").length = 3 := rfl
  simp [message, styled, styledMembers, comma, hguid, h₁, h₂, h₃, h₄, hsep, hw.quoted_plain htype,
    hw.quoted_plain hname]
  omega

/-- One member, on a line of its own. -/
theorem member_length {key : String} {v : Value} {rest : List (String × Value)} {level : Nat}
    (hkey : key.toList.all isPlain = true) :
    (styledMembers w.escape indentSize level ((key, v) :: rest)).length =
      indentSize * level + 6 + key.toList.length + (styled w.escape indentSize level v).length +
        (comma rest).length + (styledMembers w.escape indentSize level rest).length := by
  have hsep : (asciiBytes " : ").length = 3 := rfl
  simp only [styledMembers, List.length_append, lineBreak_length, hw.quoted_plain hkey, hsep]
  omega

theorem statusReply_length {rand : Nat → Nat} {name status reason : String}
    (hname : name.toList.all isPlain = true) (hstatus : status.toList.all isPlain = true)
    (hreason : reason.toList.all isPlain = true) :
    (w.write (statusReply name (createGuid rand) status reason)).length =
      15 * indentSize + 133 + name.toList.length + status.toList.length +
        reason.toList.length := by
  have htype : "Reply".toList.length = 5 := rfl
  have hkeys : "reason".toList.length = 6 ∧ "status".toList.length = 6 := ⟨rfl, rfl⟩
  rw [statusReply, message_length hw rfl hname rfl, single_length, member_length hw rfl,
    member_length hw rfl]
  simp only [styled, styledMembers, comma, htype, hkeys, hw.quoted_plain hreason,
    hw.quoted_plain hstatus, List.isEmpty_cons, List.isEmpty_nil, if_true, Bool.false_eq_true,
    if_false, List.length_nil, List.length_singleton]
  omega

/-- The text of a notification grows with the channel as it is quoted. -/
theorem callNotify_length (rand : Nat → Nat) {name : String}
    (hname : name.toList.all isPlain = true) (src dst : Int32) (channel : String) :
    (w.write (callNotify name (createGuid rand) src dst channel)).length =
      18 * indentSize + 139 + name.toList.length + (quoted w.escape channel).length +
        (Decimal.intText src.toInt).length + (Decimal.intText dst.toInt).length := by
  have htype : "Noitify".toList.length = 7 := rfl
  have hkeys : "channel".toList.length = 7 ∧ "dst".toList.length = 3 ∧
      "src".toList.length = 3 := ⟨rfl, rfl, rfl⟩
  rw [callNotify, message_length hw rfl hname rfl, single_length, member_length hw rfl,
    member_length hw rfl, member_length hw rfl]
  simp only [styled, styledMembers, comma, htype, hkeys, List.isEmpty_cons, List.isEmpty_nil,
    if_true, Bool.false_eq_true, if_false, List.length_nil, List.length_singleton]
  omega

end Lengths

/-! ### The longest of each reply -/

/-- The status and the reason of a channel. -/
theorem channelItem_cases (v : Int32) : ∃ status reason : String,
    channelItem v = .objectValue [("reason", .stringValue reason),
      ("status", .stringValue status), ("value", .intValue v.toInt)] ∧
    status.toList.all isPlain = true ∧ reason.toList.all isPlain = true ∧
    status.toList.length + reason.toList.length ≤ 9 := by
  unfold channelItem
  by_cases h : v = 0
  · exact ⟨"fail", "unset", by simp [h], rfl, rfl, by decide⟩
  · exact ⟨"success", "", by simp [h], rfl, rfl, by decide⟩

/-- The status and the reason of a query. -/
theorem queryReply_cases (guid : String) (v₁ v₂ : Int32) : ∃ status reason : String,
    queryReply guid v₁ v₂ = message guid "Reply" "Query" (.arrayValue
      [.objectValue [("listening", .arrayValue [.objectValue
          [("channel1", .intValue v₁.toInt), ("channel2", .intValue v₂.toInt)]]),
        ("reason", .stringValue reason), ("status", .stringValue status)]]) ∧
    status.toList.all isPlain = true ∧ reason.toList.all isPlain = true ∧
    status.toList.length + reason.toList.length ≤ 23 := by
  unfold queryReply
  by_cases h₁ : v₁ = 0 <;> by_cases h₂ : v₂ = 0
  · exact ⟨"fail", "channel1,2 is unset", by simp [h₁, h₂], rfl, rfl, by decide⟩
  · exact ⟨"fail", "channel1 is unset", by simp [h₁, h₂], rfl, rfl, by decide⟩
  · exact ⟨"fail", "channel2 is unset", by simp [h₁, h₂], rfl, rfl, by decide⟩
  · exact ⟨"success", "", by simp [h₁, h₂], rfl, rfl, by decide⟩

section Longest

variable (hw : w.Documented indentSize)
include hw

theorem channelItem_length_le (v : Int32) :
    (styled w.escape indentSize 3 (.arrayValue [channelItem v])).length ≤
      26 * indentSize + 77 := by
  obtain ⟨status, reason, heq, hstatus, hreason, hlen⟩ := channelItem_cases v
  have hvalue := Decimal.length_intText_int32 v
  have hkeys : "reason".toList.length = 6 ∧ "status".toList.length = 6 ∧
      "value".toList.length = 5 := ⟨rfl, rfl, rfl⟩
  rw [heq, single_length, member_length hw rfl, member_length hw rfl, member_length hw rfl]
  simp only [styled, styledMembers, comma, hkeys, hw.quoted_plain hreason, hw.quoted_plain hstatus,
    List.isEmpty_cons, List.isEmpty_nil, if_true, Bool.false_eq_true, if_false, List.length_nil,
    List.length_singleton]
  omega

theorem configReply_length_le (rand : Nat → Nat) (v₁ v₂ : Int32) :
    (w.write (configReply (createGuid rand) v₁ v₂)).length ≤ 67 * indentSize + 300 := by
  have h₁ := channelItem_length_le hw v₁
  have h₂ := channelItem_length_le hw v₂
  have htype : "Reply".toList.length = 5 ∧ "Listening".toList.length = 9 := ⟨rfl, rfl⟩
  have hkeys : "channel1".toList.length = 8 ∧ "channel2".toList.length = 8 := ⟨rfl, rfl⟩
  have hspread : (Value.arrayValue [.objectValue [("channel1", .arrayValue [channelItem v₁]),
      ("channel2", .arrayValue [channelItem v₂])]]).isSpread = true := by
    obtain ⟨_, _, heq₁, -⟩ := channelItem_cases v₁
    obtain ⟨_, _, heq₂, -⟩ := channelItem_cases v₂
    rw [heq₁, heq₂]
    rfl
  rw [configReply, message_length hw rfl rfl hspread, single_length, member_length hw rfl,
    member_length hw rfl]
  simp only [styledMembers, comma, htype, hkeys, Nat.reduceAdd, List.isEmpty_cons,
    List.isEmpty_nil, if_true, Bool.false_eq_true, if_false, List.length_nil,
    List.length_singleton]
  omega

theorem queryReply_length_le (rand : Nat → Nat) (v₁ v₂ : Int32) :
    (w.write (queryReply (createGuid rand) v₁ v₂)).length ≤ 40 * indentSize + 300 := by
  obtain ⟨status, reason, heq, hstatus, hreason, hlen⟩ := queryReply_cases (createGuid rand) v₁ v₂
  have hvalue₁ := Decimal.length_intText_int32 v₁
  have hvalue₂ := Decimal.length_intText_int32 v₂
  have htype : "Reply".toList.length = 5 ∧ "Query".toList.length = 5 := ⟨rfl, rfl⟩
  have hkeys : "listening".toList.length = 9 ∧ "reason".toList.length = 6 ∧
      "status".toList.length = 6 ∧ "channel1".toList.length = 8 ∧
      "channel2".toList.length = 8 := ⟨rfl, rfl, rfl, rfl, rfl⟩
  rw [heq, message_length hw rfl rfl rfl, single_length, member_length hw rfl, single_length,
    member_length hw rfl, member_length hw rfl, member_length hw rfl, member_length hw rfl]
  simp only [styled, styledMembers, comma, htype, hkeys, hw.quoted_plain hreason,
    hw.quoted_plain hstatus, List.isEmpty_cons, List.isEmpty_nil, if_true, Bool.false_eq_true,
    if_false, List.length_nil, List.length_singleton]
  omega

end Longest

end RTPVoice.MyProtocol
