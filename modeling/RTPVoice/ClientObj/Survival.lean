import RTPVoice.ClientObj.Requester
import RTPVoice.Json.Conversions

namespace RTPVoice.ClientObj

open Json

variable {lib : Library}

/-- The members that a message of the name has read are of a kind that can be read. -/
structure ReadableParam (val : Value) (name : String) : Prop where
  connect : name = "Connect" → (val.get "key").isTextual
  listening : name = "Listening" →
    (val.get "param").isKeyed ∧ ((val.get "param").get "listening").isKeyed ∧
      (((val.get "param").get "listening").get "channel1").isIntegral ∧
      (((val.get "param").get "listening").get "channel2").isIntegral
  call : name ∈ callNames →
    (val.get "param").isKeyed ∧ ((val.get "param").get "src").isIntegral ∧
      ((val.get "param").get "dst").isIntegral ∧ ((val.get "param").get "channel").isTextual

/-- Every access that handling the value makes goes through, and a request has a known name. -/
structure Survivable (val : Value) : Prop where
  root : val.isKeyed
  header : ∀ key ∈ ["identifier", "type", "name"], (val.get key).isTextual
  param : ReadableParam val (val.get "name").text
  known : (val.get "type").text = "Request" → (val.get "name").text ∈ statemap.map Prod.fst

/-! ### The members of each kind of message -/

theorem readableParam_connect {val : Value} :
    ReadableParam val "Connect" ↔ (val.get "key").isTextual :=
  ⟨fun h => h.connect rfl, fun h => ⟨fun _ => h, by simp, by simp [callNames]⟩⟩

theorem readableParam_listening {val : Value} : ReadableParam val "Listening" ↔
    (val.get "param").isKeyed ∧ ((val.get "param").get "listening").isKeyed ∧
      (((val.get "param").get "listening").get "channel1").isIntegral ∧
      (((val.get "param").get "listening").get "channel2").isIntegral :=
  ⟨fun h => h.listening rfl, fun h => ⟨by simp, fun _ => h, by simp [callNames]⟩⟩

theorem readableParam_call {val : Value} {name : String} (hname : name ∈ callNames) :
    ReadableParam val name ↔ (val.get "param").isKeyed ∧
      ((val.get "param").get "src").isIntegral ∧ ((val.get "param").get "dst").isIntegral ∧
      ((val.get "param").get "channel").isTextual := by
  refine ⟨fun h => h.call hname, fun h => ⟨?_, ?_, fun _ => h⟩⟩
  · rintro rfl
    exact absurd hname (by decide)
  · rintro rfl
    exact absurd hname (by decide)

theorem readableParam_other {val : Value} {name : String} (hconnect : name ≠ "Connect")
    (hlistening : name ≠ "Listening") (hcall : name ∉ callNames) : ReadableParam val name :=
  ⟨fun h => absurd h hconnect, fun h => absurd h hlistening, fun h => absurd h hcall⟩

/-! ### Accesses that go through -/

theorem isSome_bind_iff {α β : Type} {x : Option α} {f : α → Option β} :
    (x.bind f).isSome ↔ ∃ a, x = some a ∧ (f a).isSome := by
  cases x <;> simp

section Reading

variable (hlib : lib.Strict)
include hlib

theorem member_eq_some {v x : Value} {key : String} :
    lib.member v key = some x ↔ v.isKeyed ∧ v.get key = x := by
  rw [hlib.member]
  split <;> simp_all

theorem stringMember_eq_some {v : Value} {key s : String} : stringMember lib v key = some s ↔
    v.isKeyed ∧ (v.get key).isTextual ∧ (v.get key).text = s := by
  rw [stringMember, hlib.member]
  split
  · rw [Option.bind_some, hlib.asString]
    split <;> simp_all
  · simp_all

theorem exists_intMember {v : Value} {key : String} :
    (∃ n, intMember lib v key = some n) ↔ v.isKeyed ∧ (v.get key).isIntegral := by
  rw [← Option.isSome_iff_exists, intMember, isSome_bind_iff, ← hlib.asInt]
  simp [member_eq_some hlib, and_assoc]

/-- The members read are those of the header and those the name asks for. -/
theorem isSome_read_iff (c : ProtocolCtrlr) (fd : HSocket) {val : Value} :
    (c.read lib fd val).isSome ↔ val.isKeyed ∧
      (∀ key ∈ ["identifier", "type", "name"], (val.get key).isTextual) ∧
      ReadableParam val (val.get "name").text := by
  unfold ProtocolCtrlr.read
  simp only [Option.bind_eq_bind, isSome_bind_iff, stringMember_eq_some hlib, and_assoc,
    exists_and_left, exists_eq_left', List.forall_mem_cons]
  by_cases hroot : val.isKeyed = true
  · simp only [hroot, true_and]
    apply and_congr_right; intro hid
    apply and_congr_right; intro htype
    apply and_congr_right; intro hname
    simp only [List.not_mem_nil, false_imp_iff, implies_true, true_and]
    generalize (val.get "name").text = name
    split
    · next hconnect =>
      subst hconnect
      simp [readableParam_connect, stringMember_eq_some hlib, isSome_bind_iff, hroot]
    · next hconnect =>
      split
      · next hlistening =>
        subst hlistening
        simp only [readableParam_listening, isSome_bind_iff, Option.bind_eq_some_iff,
          member_eq_some hlib, exists_and_right, exists_intMember hlib, hroot, true_and,
          exists_eq_left', and_assoc, exists_and_left, Option.pure_def, Option.isSome_some,
          and_true]
        tauto
      · next hlistening =>
        split
        · next hquery =>
          subst hquery
          simp [readableParam_other, callNames]
        · split
          · next hcall =>
            have hmem : name ∈ callNames := by simpa [callNames] using hcall
            simp only [readableParam_call hmem, isSome_bind_iff, member_eq_some hlib,
              stringMember_eq_some hlib, exists_and_right, exists_intMember hlib, hroot, true_and,
              exists_eq_left', and_assoc, exists_and_left, Option.pure_def, Option.isSome_some,
              and_true]
            tauto
          · next hcall =>
            have hnot : name ∉ callNames := by simpa [callNames] using hcall
            simp [readableParam_other hconnect hlistening hnot]
  · simp [hroot]

end Reading

theorem ProtocolCtrlr.read_header {c c' : ProtocolCtrlr} {fd : HSocket} {val : Value}
    (hlib : lib.Strict) (h : c.read lib fd val = some c') :
    c'.type = (val.get "type").text ∧ c'.name = (val.get "name").text := by
  obtain ⟨-, htype, hname, -⟩ := read_from h
  obtain ⟨-, -, htype⟩ := (stringMember_eq_some hlib).mp htype
  obtain ⟨-, -, hname⟩ := (stringMember_eq_some hlib).mp hname
  exact ⟨htype.symm, hname.symm⟩

theorem isSome_dataProcessFunc {c : ProtocolCtrlr} :
    c.dataProcessFunc.isSome ↔ c.name ∈ statemap.map Prod.fst := by
  rw [ProtocolCtrlr.dataProcessFunc, Option.bind_eq_bind, isSome_bind_iff]
  simp [← Option.isSome_iff_exists]

/-- A packet is handled when its value is survivable; a text that is refused does no harm. -/
theorem isSome_takePacket_iff (hlib : lib.Strict) (c : ProtocolCtrlr) {slot : List UInt8} :
    (c.takePacket lib slot).isSome ↔
      ∀ val, lib.parse (cString (jsonData slot)) = some val → Survivable val := by
  unfold ProtocolCtrlr.takePacket
  cases hparse : lib.parse (cString (jsonData slot)) with
  | none => simp
  | some val =>
    simp only [Option.bind_eq_bind, isSome_bind_iff, Option.some.injEq, forall_eq']
    constructor
    · intro h
      obtain ⟨c', hread, h⟩ := h
      obtain ⟨htype, hname⟩ := ProtocolCtrlr.read_header hlib hread
      obtain ⟨hroot, hheader, hparam⟩ := (isSome_read_iff hlib c _).mp (by rw [hread]; rfl)
      refine ⟨hroot, hheader, hparam, fun hrequest => ?_⟩
      rw [if_pos (htype.trans hrequest), isSome_bind_iff] at h
      obtain ⟨call, hcall, -⟩ := h
      rw [← hname]
      exact isSome_dataProcessFunc.mp (by rw [hcall]; rfl)
    · intro h
      obtain ⟨c', hread⟩ := Option.isSome_iff_exists.mp
        ((isSome_read_iff hlib c (clientFd slot)).mpr ⟨h.root, h.header, h.param⟩)
      obtain ⟨htype, hname⟩ := ProtocolCtrlr.read_header hlib hread
      refine ⟨c', hread, ?_⟩
      split
      · next hrequest =>
        obtain ⟨call, hcall⟩ := Option.isSome_iff_exists.mp
          (isSome_dataProcessFunc.mpr (hname ▸ h.known (htype.symm.trans hrequest)))
        rw [hcall]
        rfl
      · rfl

/-- A text that the parser takes for `val`, behind a handle. -/
theorem parse_only (text : List UInt8) (val : Value) (hlen : text.length ≤ 508)
    (hnul : ∀ b ∈ text, b ≠ 0) :
    (Library.withParser fun t => if t = text then some val else none).parse
      (cString (jsonData ([0x37, 0, 0, 0] ++ text))) = some val := by
  rw [cString_jsonData rfl hlen hnul]
  exact if_pos rfl

end RTPVoice.ClientObj
