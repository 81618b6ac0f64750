import RTPVoice.FifoQueue.Orderly
import RTPVoice.Server.Answering
import RTPVoice.Server.Receiving

namespace RTPVoice.Server

open Framework Framework.Transition Framework.Framing Json ClientObj MyMasterServer MyProtocol
  Session

/-- What is documented of the library and of the printer, and a handle whose four characters are
read back as it. -/
structure Setting (lib : Library) (w : StyledWriter) (indentSize : Nat) (clientfd : HSocket) :
    Prop where
  library : lib.Documented
  writer : w.Documented indentSize
  indent : indentSize ≤ 8
  escape : ∀ c, NulFree (w.escape c)
  ne_zero : clientfd ≠ 0
  valid : clientfd ≠ invalidSocket
  printed : -999 ≤ signedHandle clientfd ∧ signedHandle clientfd ≤ 9999

/-- The payload is parsed as a well-typed message for the request, whatever text lies behind it. -/
def Carries (lib : Library) (payload : List UInt8) (r : Request) : Prop :=
  ∃ val, (∀ rest, lib.parse (payload ++ rest) = some val) ∧ WellTyped val r

/-- The notification of a call leaves room for its parameters. -/
def Fitting (w : StyledWriter) (indentSize : Nat) : Request → Prop
  | .callRequest src dst channel => callSize w src dst channel + 18 * indentSize ≤ 870
  | .callRelease src dst channel => callSize w src dst channel + 18 * indentSize ≤ 872
  | _ => True

/-- A client sends the requests in these payloads, and they come in these chunks. -/
structure Conversation (lib : Library) (w : StyledWriter) (indentSize : Nat)
    (payloads : List (List UInt8)) (requests : List Request) (chunks : List (List UInt8)) :
    Prop where
  carried : List.Forall₂ (Carries lib) payloads requests
  conforming : ∀ p ∈ payloads, Conforming 508 p
  nulFree : ∀ p ∈ payloads, NulFree p
  fitting : ∀ r ∈ requests, Fitting w indentSize r
  whole : chunks.flatten = stream frame payloads
  sizes : ∀ c ∈ chunks, 1 ≤ c.length ∧ c.length ≤ 512
  header : ∀ k, ¬ InHeader frame 5 payloads (offset chunks k)

/-- Documents in their frames, on their way to a handle. -/
def framed (w : StyledWriter) (clientfd : HSocket) (docs : List Value) :
    List (HSocket × List UInt8) := docs.map fun doc => (clientfd, frame (w.write doc))

/-- The documents are the messages, each with an identifier. -/
def Conveys (docs : List Value) (messages : List Message) : Prop :=
  docs.map (Value.without "identifier") = messages.map Message.document

variable {lib : Library} {w : StyledWriter} {rand : Nat → Nat → Nat → Nat} {indentSize : Nat}
  {clientmap : List SocketParams} {clientfd : HSocket} {s s' : Client} {a : Action}
  {payloads chunks slots : List (List UInt8)} {requests : List Request} {p slot : List UInt8}
  {r : Request} {c : ProtocolCtrlr} {latest : Channels}

namespace Conversation

variable (h : Conversation lib w indentSize payloads requests chunks)
include h

theorem cutting : Cutting payloads chunks :=
  ⟨fun p hp => ⟨(h.conforming p hp).pos, (h.conforming p hp).le.trans (by decide)⟩, h.whole,
    h.sizes⟩

/-- No cut is in a header, and every payload ends with its brace. -/
theorem passes (j : Nat) (p : List UInt8) (hp : payloads[j]? = some p) :
    Passes payloads chunks j p := by
  refine ⟨fun hcut => ?_, fun _ _ => .inr (h.conforming p (List.mem_of_getElem? hp)).brace⟩
  obtain ⟨k, hlo, hhi⟩ := hcut
  exact absurd ⟨j, (List.getElem?_eq_some_iff.mp hp).1, hlo, hhi⟩ (h.header k)

theorem small (p : List UInt8) (hp : p ∈ payloads) : p.length ≤ 508 := (h.conforming p hp).le

end Conversation

/-! ### One packet -/

/-- A packet taken begins with the record pushed; the rest of its slot is behind the request. -/
theorem brings_of_record (hset : Setting lib w indentSize clientfd) (hp : Carries lib p r)
    (hlen : p.length ≤ 508) (hnul : NulFree p) (hslot : record clientfd p <+: slot) :
    Brings lib slot r ∧ clientFd slot = clientfd := by
  obtain ⟨val, hparse, hval⟩ := hp
  obtain ⟨rest, rfl⟩ := hslot
  rw [record, List.append_assoc]
  refine ⟨⟨val, ?_, hval⟩, (clientFd_handleField clientfd _).mpr hset.printed⟩
  obtain ⟨more, hmore⟩ := prefix_jsonData clientfd rest (show p.length ≤ 512 by omega)
  rw [← hmore, cString, List.takeWhile_append_of_pos fun b hb => decide_eq_true (hnul b hb)]
  exact hparse _

/-- What a request asks for is what the packet that brings it asks for. -/
theorem callFits_of_brings (hset : Setting lib w indentSize clientfd) (h : Brings lib slot r)
    (hfits : Fitting w indentSize r) : CallFits lib w indentSize slot := by
  obtain ⟨val, hparse, hval⟩ := h
  have hname := stringMember_has hset.library hval.name
  have htype := stringMember_has hset.library hval.type
  have hasks {name : String} {src dst src' dst' : Int32} {channel channel' : String}
      (hcarried : ∃ param, val.Has "param" param ∧ param.Has "src" (.intValue src.toInt) ∧
        param.Has "dst" (.intValue dst.toInt) ∧ param.Has "channel" (.stringValue channel))
      (hr : r.name = name) (ha : Asks lib slot name src' dst' channel') :
      src = src' ∧ dst = dst' ∧ channel = channel' := by
    obtain ⟨param, hparam, hsrc, hdst, hchannel⟩ := hcarried
    exact Asks.unique ⟨val, param, hparse, htype, hr ▸ hname, hset.library.member_has hparam,
      intMember_has hset.library hsrc, intMember_has hset.library hdst,
      stringMember_has hset.library hchannel⟩ ha
  intro src dst channel
  refine ⟨fun ha => ?_, fun ha => ?_⟩
  all_goals
    have hr := ha.name_eq hparse hname
    cases r with
    | callRequest | callRelease =>
      first
        | (obtain ⟨rfl, rfl, rfl⟩ := hasks hval.carried rfl ha
           exact hfits)
        | exact absurd hr (by simp [Request.name])
    | connect | listening | query | callStart => exact absurd hr (by simp [Request.name])

section Answers

variable (rand clientmap)

/-- Messages of the program's for one handle, each within its frame, go out as their frames. -/
theorem outgoing_frames (hset : Setting lib w indentSize clientfd)
    {composed : List (HSocket × Value)}
    (h : ∀ m ∈ composed, m.1 = clientfd ∧ Composed m.2 ∧ WithinFrame (w.write m.2)) :
    outgoing w clientmap composed = some (framed w clientfd (composed.map Prod.snd)) := by
  induction composed with
  | nil => rfl
  | cons m composed ih =>
    obtain ⟨⟨hfd, hcomposed, hwithin⟩, hrest⟩ := List.forall_mem_cons.mp h
    obtain ⟨hlo, hnul⟩ := hcomposed.text hset.writer hset.escape
    have hsingle : sendDataToTheThirdParty clientfd (w.write m.2) clientmap =
        some [(clientfd, frame (w.write m.2))] :=
      sendDataToTheThirdParty_single hset.ne_zero hset.valid hlo hwithin.1 hnul
    obtain ⟨sends, hsends, hflat⟩ := Option.map_eq_some_iff.mp (ih hrest)
    simp only [outgoing, List.mapM_cons, hfd, hsingle, hsends, Option.bind_eq_bind,
      Option.bind_some, Option.pure_def, Option.map_some, List.flatten_cons, hflat, List.map_cons]
    rfl

/-- The messages for a request that the client gets, and what is kept for the next one. -/
theorem parsePacket_brings (hset : Setting lib w indentSize clientfd) (h : Brings lib slot r)
    (hfd : clientFd slot = clientfd) (hfits : Fitting w indentSize r) (ht : Tracks c latest)
    (n : Nat) : ∃ c' docs,
      parsePacket lib w rand clientmap n c slot = some (c', framed w clientfd docs) ∧
      Conveys docs (r.answer latest) ∧ Tracks c' (r.next latest) ∧
      ∀ doc ∈ docs, (w.write doc).length ≤ 1018 := by
  obtain ⟨c', command, data, htake, hanswer, ht'⟩ :=
    takePacket_brings hset.library h ht fun k => createGuid (rand n k)
  have hwithin := (takePacket_fits hset.writer hset.indent (rand n) htake).mpr
    (callFits_of_brings hset h hfits)
  have hall : ∀ m ∈ masterOnDataFunc (fun k => createGuid (rand n k)) command data,
      m.1 = clientfd ∧ Composed m.2 ∧ WithinFrame (w.write m.2) := fun m hm =>
    ⟨(masterOnDataFunc_dst hm).trans ((ProtocolCtrlr.takePacket_socketFd htake).trans hfd),
      masterOnDataFunc_composed hm, hwithin m hm⟩
  have hframes := outgoing_frames clientmap hset hall
  refine ⟨c', (masterOnDataFunc (fun k => createGuid (rand n k)) command data).map Prod.snd, ?_, ?_,
    ht', fun doc hdoc => ?_⟩
  · simp only [parsePacket, composed, htake, hframes, Option.bind_eq_bind, Option.bind_some]
    rfl
  · rw [Conveys, List.map_map]
    exact hanswer
  · obtain ⟨m, hm, rfl⟩ := List.mem_map.mp hdoc
    exact (hwithin m hm).1

/-- One packet after another, the messages are those of the reference machine. -/
theorem parsePackets_brings (hset : Setting lib w indentSize clientfd)
    (h : List.Forall₂ (fun slot r => (Brings lib slot r ∧ clientFd slot = clientfd) ∧
      Fitting w indentSize r) slots requests) (ht : Tracks c latest) (n : Nat) :
    ∃ c' docs, parsePackets lib w rand clientmap n c slots = some (c', framed w clientfd docs) ∧
      Conveys docs (answers latest requests).flatten := by
  induction h generalizing n c latest with
  | nil => exact ⟨c, [], rfl, rfl⟩
  | @cons slot r slots requests hslot _ ih =>
    obtain ⟨⟨hbrings, hfd⟩, hfits⟩ := hslot
    obtain ⟨c₁, docs, hparse, hdocs, ht₁, -⟩ :=
      parsePacket_brings rand clientmap hset hbrings hfd hfits ht n
    obtain ⟨c₂, rest, hrest, hmore⟩ := ih ht₁ (n + 1)
    refine ⟨c₂, docs ++ rest, ?_, ?_⟩
    · simp only [parsePackets, hparse, hrest, Option.bind_eq_bind, Option.bind_some, framed,
        List.map_append]
      rfl
    · rw [Conveys, List.map_append, hdocs, hmore, answers, List.flatten_cons, List.map_append]

end Answers

end RTPVoice.Server
