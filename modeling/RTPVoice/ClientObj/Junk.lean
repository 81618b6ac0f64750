import RTPVoice.ClientObj.CopyIn

namespace RTPVoice.ClientObj

open Framework Framework.Loop Framework.Framing

variable {clientfd : HSocket} {o : StickDismantleOptions} {ps : List (List UInt8)}
  {g c w : List UInt8}

/-- Bytes that begin no frame and are too few for a header are kept. -/
theorem call_astray_short (clientfd : HSocket) (hi : Idle o) (hne : g ≠ [])
    (hhead : g.head? ≠ some protocolHead) (h5 : g.length < 5) :
    ∃ o', Receives clientfd o g o' [] ∧ o'.data.Holds g ∧ o'.count = g.length ∧
      o'.bytesRemained = 0 := by
  have hcap : g.length ≤ bufLength := h5.le.trans (by decide)
  obtain ⟨data, hw, hwin⟩ := copy_in (c := g) (Block.holds_nil o.data) hi.count
    (by simpa using hcap)
  have hpass := startPass_other clientfd hwin hne hi.remained (.inl hhead)
  rw [protocolOther, if_pos (by simp only; omega)] at hpass
  refine ⟨_, receives_of_pass hcap hw hpass, hwin.holds, ?_, hi.remained⟩
  simp only [hi.count, Int.toNat_natCast, Nat.zero_add]

/-- Five bytes or more, and everything is thrown away, what was kept before as well. -/
theorem call_astray_long (clientfd : HSocket) (hd : o.data.Holds w) (hc : o.count = w.length)
    (hr : o.bytesRemained = 0) (hhead : (w ++ c).head? ≠ some protocolHead) (h5 : 5 ≤ c.length)
    (hcap : w.length + c.length ≤ bufLength) :
    Receives clientfd o c .zero [.socketClearRecvBuffer clientfd] := by
  obtain ⟨data, hw, hwin⟩ := copy_in (c := c) hd hc hcap
  have hne : w ++ c ≠ [] := List.length_pos_iff.mp (by simp only [List.length_append]; omega)
  have hpass := startPass_other clientfd hwin hne hr (.inl hhead)
  rw [protocolOther, if_neg (by simp only; omega)] at hpass
  exact receives_of_pass (by omega) hw hpass

/-- Whole frames brought to an idle parser are all handed on. -/
theorem call_idle_whole (clientfd : HSocket) (hi : Idle o) (hps : ∀ p ∈ ps, p.length ≤ 9999)
    (hne : stream frame ps ≠ []) (hcap : (stream frame ps).length ≤ bufLength) :
    ∃ o' calls, Receives clientfd o (stream frame ps) o' calls ∧
      Delivered clientfd calls ps := by
  obtain ⟨o', calls, hr, done, ps', w, hd, rfl, hv, hrest⟩ :=
    call_idle clientfd hi hps hne hcap List.prefix_rfl
  rw [stream_append, List.append_cancel_left_eq] at hv
  cases ps' with
  | nil => exact ⟨o', calls, hr, by simpa using hd⟩
  | cons p ps' =>
    -- a frame left over would be cut
    have hlt := hrest.length_lt (hps p (by simp))
    have hlen := congrArg List.length hv
    rw [stream_cons, List.length_append] at hlen
    omega

theorem stream_length_ge (hne : ps ≠ []) (hps : ∀ p ∈ ps, 1 ≤ p.length ∧ p.length ≤ 9999) :
    6 ≤ (stream frame ps).length := by
  obtain ⟨p, ps', rfl⟩ := List.exists_cons_of_ne_nil hne
  obtain ⟨hpos, hle⟩ := hps p (by simp)
  have hl := frame_length hle
  rw [stream_cons, List.length_append]
  omega

/-- What the parser makes of the chunk `g` costs the frames of the next chunk nothing. -/
def Harmless (clientfd : HSocket) (o : StickDismantleOptions) (g : List UInt8)
    (ps : List (List UInt8)) : Prop :=
  ∃ o₁ calls₁ o₂ calls₂, Receives clientfd o g o₁ calls₁ ∧ Delivered clientfd calls₁ [] ∧
    Receives clientfd o₁ (stream frame ps) o₂ calls₂ ∧ Delivered clientfd calls₂ ps

/-- Less than a header of junk stays in front of the frames that follow, and they are thrown away
with it. -/
theorem short_junk_harms (clientfd : HSocket) (hi : Idle o) (hne : g ≠ [])
    (hhead : g.head? ≠ some protocolHead) (h5 : g.length < 5) (hps : ps ≠ [])
    (h6 : 6 ≤ (stream frame ps).length) (hle : (stream frame ps).length ≤ recvLimit) :
    ¬ Harmless clientfd o g ps := by
  intro h
  obtain ⟨o₁, calls₁, o₂, calls₂, hr₁, -, hr₂, hd₂⟩ := h
  have hcap : recvLimit + 5 ≤ bufLength := by decide
  obtain ⟨o', hg, hdata, hcount, hrem⟩ := call_astray_short clientfd hi hne hhead h5
  obtain ⟨rfl, -⟩ := hr₁.unique (by omega) hg
  obtain ⟨b, t, rfl⟩ := List.exists_cons_of_ne_nil hne
  have hlost := call_astray_long clientfd hdata hcount hrem (c := stream frame ps) hhead
    (by omega) (by omega)
  obtain ⟨-, rfl⟩ := hr₂.unique (by omega) hlost
  cases hd₂
  exact hps rfl

/-- A chunk that begins no frame leaves the next one alone exactly when it has five bytes or
more. -/
theorem junk_harmless_iff (clientfd : HSocket) (o : StickDismantleOptions) (hi : Idle o)
    (g : List UInt8) (hg : 1 ≤ g.length ∧ g.length ≤ recvLimit)
    (hhead : g.head? ≠ some protocolHead) (ps : List (List UInt8)) (hne : ps ≠ [])
    (hps : ∀ p ∈ ps, Conforming 507 p) (hlen : (stream frame ps).length ≤ recvLimit) :
    Harmless clientfd o g ps ↔ 5 ≤ g.length := by
  obtain ⟨hpos, hle⟩ := hg
  have hcap : recvLimit ≤ bufLength := by decide
  have h6 := stream_length_ge hne fun p hp =>
    ⟨(hps p hp).pos, (hps p hp).le.trans (by decide)⟩
  constructor
  · intro h
    by_contra h5
    exact short_junk_harms clientfd hi (List.length_pos_iff.mp hpos) hhead (by omega) hne h6 hlen h
  · intro h5
    have hr : Receives clientfd o g .zero [.socketClearRecvBuffer clientfd] :=
      call_astray_long clientfd (Block.holds_nil o.data) hi.count hi.remained hhead h5
        (by simp only [List.length_nil]; omega)
    obtain ⟨o', calls, hr', hd⟩ := call_idle_whole clientfd idle_zero
      (fun p hp => (hps p hp).le.trans (by decide)) (List.length_pos_iff.mp (by omega))
      (hlen.trans hcap)
    exact ⟨_, _, o', calls, hr, .nil, hr', hd⟩

/-- Five bytes in front of the shortest frame. -/
theorem junk_harmless_iff_five :
    Harmless 7 .zero [0x41, 0x42, 0x43, 0x44, 0x45] [[0x7D]] :=
  (junk_harmless_iff 7 .zero idle_zero [0x41, 0x42, 0x43, 0x44, 0x45] (by decide) (by decide)
    [[0x7D]] (by decide) (by decide) (by decide)).mpr (by decide)

/-- One byte in front of it. -/
theorem junk_costs_frame : ∃ (g : List UInt8) (ps : List (List UInt8)), g = [0x41] ∧
    ps = [[0x7D]] ∧ g.head? ≠ some protocolHead ∧ (∀ p ∈ ps, Conforming 507 p) ∧
    ¬ Harmless 7 .zero g ps :=
  ⟨_, _, rfl, rfl, by decide, by decide, short_junk_harms 7 idle_zero (by decide) (by decide)
    (by decide) (by decide) (by decide) (by decide)⟩

end RTPVoice.ClientObj
