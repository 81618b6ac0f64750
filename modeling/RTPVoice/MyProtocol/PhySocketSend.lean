import RTPVoice.Framework.Transition
import RTPVoice.SocketWrap.Transfer

namespace RTPVoice.MyProtocol

open Framework SocketWrap

/-- The variables of `PhySocketSendData`; `accepted` records the bytes `send` took so far and
`returned` the value returned. -/
structure Sending where
  count : Int
  accepted : List UInt8
  returned : Option Int
  deriving DecidableEq

def Sending.initial : Sending := ⟨0, [], none⟩

/-- `while ((send_len - count) != 0)`, and what follows the loop. -/
def Sending.again (sendLen : Int) (s : Sending) : Sending :=
  if sendLen - s.count ≠ 0 then s else { s with count := 0, returned := some 0 }

/-- One turn of the loop of `PhySocketSendData`, `sent` being what `send` comes back with. There is
none behind the return, and none in which `send` took more than it was given. -/
def phySocketSendData (buff : List UInt8) (sendLen : Int) (s : Sending) (sent : Transfer Nat) :
    Option Sending :=
  let rt := socketSend (sendLen - s.count) sent
  if s.returned.isSome ∨ sendLen - s.count < rt.nbytes then none
  else if 0 < rt.nbytes then
    some (Sending.again sendLen { s with
      count := s.count + rt.nbytes
      accepted := s.accepted ++ (buff.drop s.count.toNat).take rt.nbytes.toNat })
  else if rt.nbytes = -1 ∧ rt.nresult = 1 then
    some (s.again sendLen)
  else if rt.nbytes = -1 ∧ rt.nresult = -1 then
    some { s with count := -1, returned := some (-1) }
  else
    some (s.again sendLen)

variable {buff : List UInt8} {sendLen : Int} {s s' : Sending} {sent : Transfer Nat}
  {outcomes : List (Transfer Nat)}

/-! ### One turn -/

/-- Everything a turn can be. -/
inductive TurnForm (buff : List UInt8) (sendLen : Int) (s : Sending) :
    Transfer Nat → Sending → Prop where
  | progress {n : Nat} (pos : 1 ≤ n) (fits : s.count + n ≤ sendLen) :
      TurnForm buff sendLen s (.done n) (Sending.again sendLen { s with
        count := s.count + n
        accepted := s.accepted ++ (buff.drop s.count.toNat).take n })
  | timeout : TurnForm buff sendLen s (.error true) (s.again sendLen)
  | failed (missing : s.count < sendLen) :
      TurnForm buff sendLen s (.error false) { s with count := -1, returned := some (-1) }
  | closed : TurnForm buff sendLen s (.done 0) (s.again sendLen)
  | nothing {sent : Transfer Nat} (complete : sendLen ≤ s.count) :
      TurnForm buff sendLen s sent (s.again sendLen)

theorem turn_form (h : phySocketSendData buff sendLen s sent = some s') :
    s.returned = none ∧ TurnForm buff sendLen s sent s' := by
  simp only [phySocketSendData] at h
  split at h
  · cases h
  next hin =>
  obtain ⟨hret, hfits⟩ := not_or.mp hin
  refine ⟨by simpa using hret, ?_⟩
  by_cases hlen : sendLen - s.count < 1
  · simp only [socketSend, if_pos hlen] at h
    obtain rfl := Option.some.inj h
    exact .nothing (by omega)
  · cases sent with
    | error tryAgain =>
      cases tryAgain with
      | true =>
        simp only [socketSend, if_neg hlen] at h
        obtain rfl := Option.some.inj h
        exact .timeout
      | false =>
        simp only [socketSend, if_neg hlen] at h
        obtain rfl := Option.some.inj h
        exact .failed (by omega)
    | done n =>
      cases n with
      | zero =>
        simp only [socketSend, if_neg hlen] at h
        obtain rfl := Option.some.inj h
        exact .closed
      | succ n =>
        simp only [socketSend, if_neg hlen] at h hfits
        rw [if_pos (by omega)] at h
        obtain rfl := Option.some.inj h
        exact .progress (n := n + 1) (by omega) (by omega)

/-! ### Whole runs -/

/-- What `send` took is the front of the buffer: up to `count` while the loop runs, everything when
0 was returned. -/
structure Consistent (buff : List UInt8) (sendLen : Int) (s : Sending) : Prop where
  running : s.returned = none →
    0 ≤ s.count ∧ s.count ≤ sendLen ∧ s.accepted = buff.take s.count.toNat
  complete : s.returned = some 0 → s.accepted = buff.take sendLen.toNat
  codes : ∀ r, s.returned = some r → r = 0 ∨ r = -1

theorem consistent_initial (h : 0 ≤ sendLen) : Consistent buff sendLen .initial :=
  ⟨fun _ => ⟨Int.le_refl 0, h, rfl⟩, fun hr => by simp [Sending.initial] at hr,
    fun r hr => by simp [Sending.initial] at hr⟩

/-- The test of the loop keeps this, and `count` is the length when it ends the loop. -/
theorem Consistent.again (h : Consistent buff sendLen s) (hs : s.returned = none) :
    Consistent buff sendLen (s.again sendLen) := by
  obtain ⟨h0, hle, hacc⟩ := h.running hs
  unfold Sending.again
  split
  · exact h
  · next heq =>
    have hcount : s.count = sendLen := by omega
    refine ⟨fun hr => by simp at hr, fun _ => ?_, fun r hr => .inl ?_⟩
    · rw [← hcount]
      exact hacc
    · simpa using hr.symm

theorem turn_consistent (hc : Consistent buff sendLen s)
    (h : phySocketSendData buff sendLen s sent = some s') : Consistent buff sendLen s' := by
  obtain ⟨hs, hform⟩ := turn_form h
  obtain ⟨h0, hle, hacc⟩ := hc.running hs
  cases hform with
  | @progress n pos fits =>
    refine Consistent.again ⟨fun _ => ⟨?_, fits, ?_⟩, fun hr => by simp [hs] at hr, hc.codes⟩ hs
    · simp only
      omega
    · have hn : (s.count + n).toNat = s.count.toNat + n := by omega
      simp only [hacc, hn, List.take_add]
  | timeout | closed | nothing => exact hc.again hs
  | failed => exact ⟨fun hr => by simp at hr, fun hr => by simp at hr,
      fun r hr => .inr (by simpa using hr.symm)⟩

theorem again_not_failed (hs : s.returned = none) : (s.again sendLen).returned ≠ some (-1) := by
  unfold Sending.again
  split
  · simp [hs]
  · simp

/-- A turn that returns -1 met a hard error, and leaves what was accepted as it is. -/
theorem turn_failed (h : phySocketSendData buff sendLen s sent = some s')
    (hr : s'.returned = some (-1)) :
    sent = .error false ∧ s.count < sendLen ∧ s'.accepted = s.accepted := by
  obtain ⟨hs, hform⟩ := turn_form h
  cases hform with
  | progress | timeout | closed | nothing => exact absurd hr (again_not_failed hs)
  | failed missing => exact ⟨rfl, missing, rfl⟩

/-- Whatever `send` comes back with and however often: in the loop the bytes accepted are the first
`count` of the buffer, 0 is returned when they are all of it, and -1 right behind a hard error. -/
theorem partial_sends_in_order (buff : List UInt8) (sendLen : Int) (h0 : 0 ≤ sendLen)
    (outcomes : List (Transfer Nat)) (s : Sending)
    (h : Transition.run (phySocketSendData buff sendLen) .initial outcomes = some s) :
    (s.returned = none →
      0 ≤ s.count ∧ s.count ≤ sendLen ∧ s.accepted = buff.take s.count.toNat) ∧
    (s.returned = some 0 → s.accepted = buff.take sendLen.toNat) ∧
    (s.returned = some (-1) → ∃ before s₁, outcomes = before ++ [.error false] ∧
      Transition.run (phySocketSendData buff sendLen) .initial before = some s₁ ∧
      s₁.returned = none ∧ socketSend (sendLen - s₁.count) (.error false) = ⟨-1, -1⟩ ∧
      s.accepted = buff.take s₁.count.toNat) ∧
    ∀ r, s.returned = some r → r = 0 ∨ r = -1 := by
  have hcons (as : List (Transfer Nat)) (u : Sending)
      (hu : Transition.run (phySocketSendData buff sendLen) .initial as = some u) :
      Consistent buff sendLen u :=
    Transition.run_invariant (consistent_initial h0) (fun _ _ _ _ hc ht => turn_consistent hc ht) hu
  have hc := hcons outcomes s h
  refine ⟨hc.running, hc.complete, fun hr => ?_, hc.codes⟩
  cases List.eq_nil_or_concat outcomes with
  | inl hnil =>
    subst hnil
    obtain rfl := Option.some.inj h
    simp [Sending.initial] at hr
  | inr hsnoc =>
    obtain ⟨before, sent, rfl⟩ := hsnoc
    rw [List.concat_eq_append, Transition.run_snoc] at h
    obtain ⟨s₁, h₁, hturn⟩ := Option.bind_eq_some_iff.mp h
    obtain ⟨rfl, hlt, hacc⟩ := turn_failed hturn hr
    have hs := (turn_form hturn).1
    refine ⟨before, s₁, List.concat_eq_append, h₁, hs, ?_, ?_⟩
    · rw [socketSend, if_neg (by omega)]
      rfl
    · rw [hacc]
      exact ((hcons before s₁ h₁).running hs).2.2

/-- Two of three bytes, a timeout, and the last one. -/
theorem partial_sends_in_order_three : ∃ s, Transition.run
    (phySocketSendData [0x61, 0x62, 0x63] 3) .initial [.done 2, .error true, .done 1] = some s ∧
    s.returned = some 0 ∧ s.accepted = [0x61, 0x62, 0x63] := by
  refine ⟨⟨0, [0x61, 0x62, 0x63], some 0⟩, by decide, rfl, ?_⟩
  exact (partial_sends_in_order [0x61, 0x62, 0x63] 3 (by decide) [.done 2, .error true, .done 1]
    _ (by decide)).2.1 rfl

/-! ### Peers that are gone -/

/-- A peer that closed its end is never given up: the loop turns in place. -/
theorem closed_peer_spins (buff : List UInt8) (hs : s.returned = none)
    (hlt : s.count < sendLen) (n : Nat) :
    Transition.run (phySocketSendData buff sendLen) s (List.replicate n (.done 0)) = some s := by
  induction n with
  | zero => rfl
  | succ n ih =>
    have hturn : phySocketSendData buff sendLen s (.done 0) = some s := by
      have hlen : ¬ sendLen - s.count < 1 := by omega
      have hfits : ¬ sendLen - s.count < 0 := by omega
      have hne : sendLen - s.count ≠ 0 := by omega
      simp [phySocketSendData, socketSend, hs, hlen, hfits, Sending.again, hne]
    rw [List.replicate_succ, Transition.run_cons, hturn]
    exact ih

/-- When `SocketSend` reports that the peer is gone, with bytes still to send, -1 is returned at
once exactly when it reports that as an error. -/
theorem dead_peer_ends_iff (buff : List UInt8) (sendLen : Int) (outcomes : List (Transfer Nat))
    (s : Sending) (sent : Transfer Nat)
    (h : Transition.run (phySocketSendData buff sendLen) .initial outcomes = some s)
    (hs : s.returned = none) (hdead : (socketSend (sendLen - s.count) sent).nresult = -1) :
    (∃ s', Transition.run (phySocketSendData buff sendLen) .initial (outcomes ++ [sent]) =
      some s' ∧ s'.returned = some (-1)) ↔
    (socketSend (sendLen - s.count) sent).nbytes = -1 := by
  simp only [Transition.run_snoc, h, Option.bind_some]
  constructor
  · intro hret
    obtain ⟨s', hturn, hr⟩ := hret
    obtain ⟨rfl, hlt, -⟩ := turn_failed hturn hr
    rw [socketSend, if_neg (by omega)]
  · intro hbytes
    refine ⟨{ s with count := -1, returned := some (-1) }, ?_, rfl⟩
    have hlen : ¬ sendLen - s.count < 1 := by
      intro hlt
      simp [socketSend, hlt] at hdead
    have hfits : ¬ sendLen - s.count < -1 := by omega
    simp [phySocketSendData, hs, hbytes, hdead, hfits]

/-- A reset connection, behind one of two bytes and a timeout. -/
theorem dead_peer_ends_iff_reset : ∃ s', Transition.run (phySocketSendData [0x61, 0x62] 2) .initial
    ([.done 1, .error true] ++ [.error false]) = some s' ∧ s'.returned = some (-1) :=
  (dead_peer_ends_iff [0x61, 0x62] 2 [.done 1, .error true] ⟨1, [0x61], none⟩ (.error false)
    (by decide) rfl (by decide)).mpr (by decide)

/-- The peer closes its end before the first byte: no number of turns ends the loop. -/
theorem closed_peer_never_ends : ∃ sent : Transfer Nat, sent = .done 0 ∧
    socketSend (1 - Sending.initial.count) sent = ⟨0, -1⟩ ∧
    (¬ ∃ s', Transition.run (phySocketSendData [0x61] 1) .initial [sent] = some s' ∧
      s'.returned = some (-1)) ∧
    ∀ n, Transition.run (phySocketSendData [0x61] 1) .initial (List.replicate n sent) =
      some .initial := by
  have hspin (n : Nat) : Transition.run (phySocketSendData [0x61] 1) .initial
      (List.replicate n (.done 0)) = some .initial :=
    closed_peer_spins [0x61] rfl (by decide) n
  refine ⟨.done 0, rfl, by decide, fun h => ?_, hspin⟩
  obtain ⟨s', hrun, hr⟩ := h
  have hone := hspin 1
  rw [List.replicate_one, hrun] at hone
  cases hone
  cases hr

end RTPVoice.MyProtocol
