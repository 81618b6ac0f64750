import RTPVoice.MyMasterServer.Texts
import RTPVoice.Server.Client
import RTPVoice.Session.WithinFrame

namespace RTPVoice.Server

open Framework Framework.Transition Json ClientObj MyMasterServer MyProtocol SocketWrap Session

variable {lib : Library} {w : StyledWriter} {rand : Nat → Nat → Nat → Nat}
  {clientmap : List SocketParams} {clientfd : HSocket} {s s' : Client} {a : Action}

/-! ### The answering thread -/

/-- `thePROTOCOL_Ctrlr` and all messages to send behind the packets parsed. -/
def parsePackets (lib : Library) (w : StyledWriter) (rand : Nat → Nat → Nat → Nat)
    (clientmap : List SocketParams) : Nat → ProtocolCtrlr → List (List UInt8) →
    Option (ProtocolCtrlr × List (HSocket × List UInt8))
  | _, c, [] => some (c, [])
  | n, c, slot :: slots => do
    let (c, toSend) ← parsePacket lib w rand clientmap n c slot
    let (c, rest) ← parsePackets lib w rand clientmap (n + 1) c slots
    return (c, toSend ++ rest)

theorem parsePackets_snoc {n : Nat} {c c₁ c₂ : ProtocolCtrlr} {slots : List (List UInt8)}
    {slot : List UInt8} {produced toSend : List (HSocket × List UInt8)}
    (h : parsePackets lib w rand clientmap n c slots = some (c₁, produced))
    (hlast : parsePacket lib w rand clientmap (n + slots.length) c₁ slot = some (c₂, toSend)) :
    parsePackets lib w rand clientmap n c (slots ++ [slot]) = some (c₂, produced ++ toSend) := by
  induction slots generalizing n c produced with
  | nil =>
    cases h
    simp only [List.length_nil, Nat.add_zero] at hlast
    simp [parsePackets, hlast]
  | cons first slots ih =>
    simp only [parsePackets, Option.bind_eq_bind, Option.bind_eq_some_iff] at h
    obtain ⟨⟨c', sends⟩, hfirst, ⟨c'', rest⟩, hrest, he⟩ := h
    cases he
    have hindex : n + (first :: slots).length = n + 1 + slots.length := by
      rw [List.length_cons, Nat.add_comm slots.length, Nat.add_assoc]
    have hmore := ih hrest (hindex ▸ hlast)
    simp only [List.cons_append, parsePackets, hfirst, hmore, Option.bind_eq_bind,
      Option.bind_some]
    simp

/-- The thread is in one place at a time, whatever its sends come back with. -/
structure InPlace (s : Client) : Prop where
  alone : s.jqueue.holding + s.jqueue.passed ≤ 1
  taking : 0 < s.jqueue.holding + s.jqueue.passed → s.queueData = none ∧ s.toSend = []
  parsing : s.queueData ≠ none → s.toSend = []
  between : s.toSend = [] → s.sending = .initial
  within : ∀ fd buff rest, s.toSend = (fd, buff) :: rest →
    Consistent buff buff.length s.sending ∧ s.sending.returned = none

theorem inPlace_initial : InPlace .initial where
  alone := Nat.zero_le _
  taking h := absurd h (lt_irrefl 0)
  parsing h := absurd rfl h
  between _ := rfl
  within _ _ _ h := by cases h

/-- Steps that leave the answering thread where it is. -/
theorem InPlace.same (h : InPlace s) (hholding : s'.jqueue.holding = s.jqueue.holding)
    (hpassed : s'.jqueue.passed = s.jqueue.passed) (hdata : s'.queueData = s.queueData)
    (htoSend : s'.toSend = s.toSend) (hsending : s'.sending = s.sending) : InPlace s' := by
  refine ⟨?_, ?_, ?_, ?_, ?_⟩
  · rw [hholding, hpassed]
    exact h.alone
  · rw [hholding, hpassed, hdata, htoSend]
    exact h.taking
  · rw [hdata, htoSend]
    exact h.parsing
  · rw [htoSend, hsending]
    exact h.between
  · rw [htoSend, hsending]
    exact h.within

theorem inPlace_step (h : InPlace s) (hs : step lib w rand clientmap clientfd s a = some s') :
    InPlace s' := by
  have halone := h.alone
  cases step_stepsTo hs with
  | turn => exact h.same rfl rfl rfl rfl rfl
  | store _ _ hstore =>
    obtain ⟨queue, -, rfl⟩ := Option.map_eq_some_iff.mp hstore
    exact h.same rfl rfl rfl rfl rfl
  | semPost hq =>
    cases FifoQueue.step_stepsTo hq with
    | semPost => exact h.same rfl rfl rfl rfl rfl
  | timeOut _ hq =>
    cases FifoQueue.step_stepsTo hq with
    | timeOut => exact h.same rfl rfl rfl rfl rfl
  | semWait hwaiting hq =>
    obtain ⟨hholding, hpassed, -, hdata, htoSend⟩ := hwaiting
    cases FifoQueue.step_stepsTo hq with
    | semWait =>
      refine ⟨?_, fun _ => ⟨hdata, htoSend⟩, h.parsing, h.between, h.within⟩
      simp [hholding, hpassed]
  | test hq =>
    cases FifoQueue.step_stepsTo hq with
    | abandon hholding | test hholding =>
      refine ⟨?_, fun _ => h.taking (by omega), h.parsing, h.between, h.within⟩
      dsimp only
      omega
  | pop hq =>
    cases FifoQueue.step_stepsTo hq with
    | pop hpassed =>
      obtain ⟨-, htoSend⟩ := h.taking (by omega)
      refine ⟨?_, fun hpos => ?_, fun _ => htoSend, h.between, h.within⟩
      · dsimp only
        omega
      · dsimp only at hpos
        omega
  | parse hdata =>
    have htoSend := h.parsing (by simp [hdata])
    have hidle : s.jqueue.holding + s.jqueue.passed = 0 := by
      by_contra hpos
      exact absurd (h.taking (Nat.pos_of_ne_zero hpos)).1 (by simp [hdata])
    refine ⟨h.alone, fun hpos => absurd hpos (by simp [hidle]), fun hne => absurd rfl hne,
      fun _ => h.between htoSend, fun fd buff rest _ => ?_⟩
    rw [h.between htoSend]
    exact ⟨consistent_initial (Int.natCast_nonneg _), rfl⟩
  | send hnext hrunning hturn =>
    refine ⟨h.alone, h.taking, h.parsing, fun hnil => ?_, fun fd buff rest he => ?_⟩
    · rw [hnext] at hnil
      cases hnil
    · rw [hnext] at he
      cases he
      exact ⟨turn_consistent (h.within _ _ _ hnext).1 hturn, hrunning⟩
  | sent hnext =>
    refine ⟨h.alone, fun hpos => ?_, fun hne => ?_, fun _ => rfl, fun fd buff rest _ => ?_⟩
    · have hnil := (h.taking hpos).2
      rw [hnext] at hnil
      cases hnil
    · have hnil := h.parsing hne
      rw [hnext] at hnil
      cases hnil
    · exact ⟨consistent_initial (Int.natCast_nonneg _), rfl⟩

/-- Its packets are parsed in the order taken, and what has gone out is the front of the messages
they gave rise to. -/
structure Answering (lib : Library) (w : StyledWriter) (rand : Nat → Nat → Nat → Nat)
    (clientmap : List SocketParams) (s : Client) : Prop extends InPlace s where
  given : ∃ parsed, s.jqueue.taken = parsed ++ s.queueData.toList ∧
    parsed.length = s.handled ∧
    parsePackets lib w rand clientmap 0 .initial parsed = some (s.ctrlr, s.sent ++ s.toSend)

theorem answering_initial : Answering lib w rand clientmap .initial :=
  ⟨inPlace_initial, [], rfl, rfl, rfl⟩

/-- `send` reports no error but those after which it is tried again. -/
def Unbroken (_ : Client) (a : Action) (_ : Client) : Prop := a ≠ .send (.error false)

theorem answering_step (h : Answering lib w rand clientmap s)
    (hs : step lib w rand clientmap clientfd s a = some s') (hu : Unbroken s a s') :
    Answering lib w rand clientmap s' := by
  refine ⟨inPlace_step h.toInPlace hs, ?_⟩
  cases step_stepsTo hs with
  | turn => exact h.given
  | store _ _ hq =>
    cases FifoQueue.step_stepsTo hq with
    | store => exact h.given
  | semPost hq =>
    cases FifoQueue.step_stepsTo hq with
    | semPost => exact h.given
  | timeOut _ hq =>
    cases FifoQueue.step_stepsTo hq with
    | timeOut => exact h.given
  | semWait _ hq =>
    cases FifoQueue.step_stepsTo hq with
    | semWait => exact h.given
  | test hq =>
    cases FifoQueue.step_stepsTo hq with
    | abandon | test => exact h.given
  | pop hq =>
    obtain ⟨parsed, htaken, hlen, hparse⟩ := h.given
    cases FifoQueue.step_stepsTo hq with
    | pop hpassed =>
      obtain ⟨hdata, -⟩ := h.taking (by omega)
      rw [hdata] at htaken
      exact ⟨parsed, by simp [htaken], hlen, hparse⟩
  | parse hdata hparsed =>
    obtain ⟨parsed, htaken, hlen, hparse⟩ := h.given
    rw [h.parsing (by simp [hdata]), List.append_nil] at hparse
    refine ⟨parsed ++ [_], ?_, by simp [hlen],
      parsePackets_snoc hparse (by simpa [hlen] using hparsed)⟩
    simp [htaken, hdata]
  | send => exact h.given
  | @sent sent fd buff toSend sending hnext hreturned hturn =>
    obtain ⟨hcons, -⟩ := h.within _ _ _ hnext
    have hcons' := turn_consistent hcons hturn
    obtain ⟨r, hr⟩ := Option.ne_none_iff_exists'.mp hreturned
    have h0 : sending.returned = some 0 := by
      rcases hcons'.codes r hr with rfl | rfl
      · exact hr
      · obtain ⟨rfl, -⟩ := turn_failed hturn hr
        exact absurd rfl hu
    have hwhole : sending.accepted = buff := by
      rw [hcons'.complete h0, Int.toNat_natCast, List.take_length]
    obtain ⟨parsed, htaken, hlen, hparse⟩ := h.given
    refine ⟨parsed, htaken, hlen, ?_⟩
    rw [hparse, hnext, hwhole]
    simp

/-- What `send` has taken is the front of what there was to send. -/
theorem Answering.wire_prefix (h : Answering lib w rand clientmap s) :
    s.wire <+: (s.sent ++ s.toSend).flatMap Prod.snd := by
  rw [Client.wire, List.flatMap_append]
  refine (List.prefix_append_right_inj _).mpr ?_
  cases hnext : s.toSend with
  | nil =>
    rw [h.between hnext]
    exact List.nil_prefix
  | cons m rest =>
    obtain ⟨hcons, hrunning⟩ := h.within m.1 m.2 rest hnext
    rw [(hcons.running hrunning).2.2, List.flatMap_cons]
    exact (List.take_prefix _ _).trans (List.prefix_append _ _)

theorem Answering.wire_eq (h : Answering lib w rand clientmap s) (hnext : s.toSend = []) :
    s.wire = (s.sent ++ s.toSend).flatMap Prod.snd := by
  rw [Client.wire, h.between hnext, hnext, List.append_nil]
  exact List.append_nil _

end RTPVoice.Server
