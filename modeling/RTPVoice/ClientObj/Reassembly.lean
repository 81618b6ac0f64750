import RTPVoice.ClientObj.Frame

namespace RTPVoice.ClientObj

open Framework Framework.Loop Framework.Framing

/-- Nothing is kept. -/
structure Idle (o : StickDismantleOptions) : Prop where
  count : o.count = 0
  remained : o.bytesRemained = 0

/-- The first bytes `w` of the frame of `p` are kept, its header not looked at yet. -/
structure Held (o : StickDismantleOptions) (p w : List UInt8) : Prop where
  front : w <+: frame p
  ne : w ≠ []
  part : w.length < (frame p).length
  data : o.data.Holds w
  count : o.count = w.length
  remained : o.bytesRemained = 0

/-- The first bytes `w` of the frame of `p` are kept and its header was read, at a time when
`surplus` of them had come in earlier calls: `bytes_remained` asks for those once more. -/
structure Stuck (o : StickDismantleOptions) (p w : List UInt8) (surplus : Nat) : Prop where
  front : w <+: frame p
  five : 5 ≤ w.length
  part : w.length < (frame p).length
  data : o.data.Holds w
  count : o.count = w.length
  length : o.proLength = p.length
  remained : o.bytesRemained = (frame p).length - w.length + surplus

theorem Stuck.ne {o : StickDismantleOptions} {p w : List UInt8} {k : Nat} (h : Stuck o p w k) :
    w ≠ [] := List.length_pos_iff.mp (lt_of_lt_of_le (by decide) h.five)

/-- How the bytes kept between two calls are looked upon. -/
inductive Mode where
  | idle
  | held
  | stuck (surplus : Nat)

/-- The call ended with `ps` still to come, of which the bytes `w` are kept. -/
inductive Rests (o : StickDismantleOptions) : Mode → List (List UInt8) → List UInt8 → Prop where
  | idle {ps} (h : Idle o) : Rests o .idle ps []
  | held {p ps w} (h : Held o p w) : Rests o .held (p :: ps) w
  | stuck {p ps w k} (h : Stuck o p w k) : Rests o (.stuck k) (p :: ps) w

/-- What becomes of `w` left over behind a complete frame. -/
def restMode (w : List UInt8) : Mode :=
  if w = [] then .idle else if w.length < 5 then .held else .stuck 0

/-- From the buffered bytes `v` of the stream of `ps` every complete frame was handed on. -/
def Serves (clientfd : HSocket) (ps : List (List UInt8)) (v : List UInt8) (calls : List Call)
    (o : StickDismantleOptions) : Prop :=
  ∃ done ps' w, Delivered clientfd calls done ∧ ps = done ++ ps' ∧ v = stream frame done ++ w ∧
    Rests o (restMode w) ps' w

variable {clientfd : HSocket} {p : List UInt8} {ps : List (List UInt8)}

theorem idle_zero : Idle .zero := ⟨rfl, rfl⟩

private theorem serves_rest {v w : List UInt8} {o : StickDismantleOptions} {calls : List Call}
    (hd : Delivered clientfd calls []) (hv : v = w) (h : Rests o (restMode w) ps w) :
    Serves clientfd ps v calls o := ⟨[], ps, w, hd, rfl, by simpa using hv, h⟩

private theorem Serves.cons {v : List UInt8} {o : StickDismantleOptions} {calls : List Call}
    (h : Serves clientfd ps v calls o) {call : Call} (hcall : Delivered clientfd [call] [p]) :
    Serves clientfd (p :: ps) (frame p ++ v) (call :: calls) o := by
  obtain ⟨done, ps', w, hd, rfl, rfl, hr⟩ := h
  exact ⟨p :: done, ps', w, hcall.append hd, rfl, by simp, hr⟩

/-- Everything at the front of the buffer that is a whole frame is handed on, one jump a frame. -/
theorem dismantle_stream (clientfd : HSocket) (hps : ∀ p ∈ ps, p.length ≤ 9999) {s : AtStart}
    {v : List UInt8} (hw : Window s v) (hc : s.option.count = 0) (hr : s.option.bytesRemained = 0)
    (hne : v ≠ []) (hv : v <+: stream frame ps) :
    ∃ o calls, Returns (startPass clientfd) s (0, o) calls ∧ Serves clientfd ps v calls o := by
  induction ps generalizing s v with
  | nil => exact absurd (List.prefix_nil.mp hv) hne
  | cons p ps ih =>
    have hp := hps p (by simp)
    have hl := frame_length hp
    have hspan := hw.span
    rw [hc] at hspan
    have hhead := head_of_prefix_frame hv hne
    by_cases h5 : v.length < 5
    · -- too short for a header
      have hfront : v <+: frame p :=
        List.prefix_of_prefix_length_le hv (List.prefix_append _ _) (by omega)
      have hpass := startPass_other clientfd hw hne hr (.inr (by omega))
      rw [protocolOther, if_pos (by omega)] at hpass
      refine ⟨_, _, .leave hpass, serves_rest delivered_nil rfl ?_⟩
      rw [restMode, if_neg hne, if_pos h5]
      exact .held ⟨hfront, hne, by omega, hw.holds, by simp only [hc]; omega, hr⟩
    · have hdecl := (header_of_prefix_frame hv hp (by omega)).2 s.option
      have hpass := startPass_start clientfd hw hhead (by omega) hr
      rcases lt_trichotomy v.length (frame p).length with hlt | heq | hgt
      · -- the frame goes on in the next chunk
        have hfront : v <+: frame p :=
          List.prefix_of_prefix_length_le hv (List.prefix_append _ _) hlt.le
        rw [protocolStart_stick hw (by omega) (by omega)] at hpass
        refine ⟨_, _, .leave hpass, serves_rest (delivered_sscanf _) rfl ?_⟩
        rw [restMode, if_neg hne, if_neg h5]
        refine .stuck ⟨hfront, by omega, hlt, hw.holds, ?_, hdecl, ?_⟩
        · simp only [hc]
          omega
        · simp only [hdecl]
          omega
      · -- the chunk ends with the frame
        have hfull : frame p = v := (List.prefix_of_prefix_length_le (List.prefix_append _ _) hv
          heq.ge).eq_of_length heq.symm
        rw [protocolStart_exact hw (by omega) (by omega)] at hpass
        have hcarry : ({ s.option with proLength := declared s.option v }.push clientfd).Carries
            clientfd p := push_carries clientfd hw.holds (hfull ▸ List.prefix_rfl) hp hdecl
        refine ⟨_, _, .leave hpass, [p], ps, [], ?_, rfl, ?_, .idle idle_zero⟩
        · exact (delivered_sscanf _).append (delivered_push hcarry)
        · simpa using hfull.symm
      · -- more follows behind the frame
        obtain ⟨v', rfl⟩ : frame p <+: v :=
          List.prefix_of_prefix_length_le (List.prefix_append _ _) hv hgt.le
        obtain ⟨data, hpass', hh⟩ := protocolStart_dismantle clientfd hw (by omega) (by omega)
          (by simp only [List.length_append] at *; omega)
        rw [hpass'] at hpass
        simp only [List.length_append] at hspan hgt
        have hdrop : (frame p ++ v').drop (declared s.option (frame p ++ v') + 5).toNat = v' :=
          List.drop_left' (by omega)
        rw [hdrop, List.take_of_length_le (by omega)] at hh
        have hcarry : ({ s.option with proLength := declared s.option (frame p ++ v') }.push
            clientfd).Carries clientfd p :=
          push_carries clientfd hw.holds (List.prefix_append _ _) hp hdecl
        obtain ⟨o, calls, hret, hserve⟩ := ih (fun q hq => hps q (by simp [hq]))
          (s := ⟨⟨0, 0, declared s.option (frame p ++ v'), data⟩,
            s.recvLength - 5 - declared s.option (frame p ++ v')⟩) (v := v')
          ⟨hh, by simp only; omega⟩ rfl rfl (by rintro rfl; simp at hgt)
          ((List.prefix_append_right_inj _).mp hv)
        refine ⟨o, _, .jump hpass hret, ?_⟩
        have hserve' := hserve.cons (delivered_push hcarry)
        obtain ⟨done, ps', w, hd, h1, h2, h3⟩ := hserve'
        exact ⟨done, ps', w, (delivered_sscanf _).append hd, h1, h2, h3⟩

/-! ### One call -/

variable {o o' : StickDismantleOptions} {c w : List UInt8} {calls : List Call} {k : Nat}

theorem Receives.unique {o₁ o₂ : StickDismantleOptions} {calls₁ calls₂ : List Call}
    (hc : c.length ≤ bufLength) (h₁ : Receives clientfd o c o₁ calls₁)
    (h₂ : Receives clientfd o c o₂ calls₂) : o₁ = o₂ ∧ calls₁ = calls₂ := by
  obtain ⟨data, ret, hw, hr⟩ := (receives_iff hc).mp h₁
  obtain ⟨data', ret', hw', hr'⟩ := (receives_iff hc).mp h₂
  obtain rfl : data = data' := Option.some.inj (hw.symm.trans hw')
  obtain ⟨he, hcalls⟩ := hr.unique hr'
  exact ⟨congrArg Prod.snd he, hcalls⟩

/-- The chunk goes right behind the bytes kept. -/
theorem copy_in (hd : o.data.Holds w) (hc : o.count = w.length)
    (hcap : w.length + c.length ≤ bufLength) : ∃ data, o.data.write o.count c = some data ∧
      Window ⟨{ o with data }, c.length⟩ (w ++ c) := by
  obtain ⟨data, hw, hh⟩ := hd.write c hcap
  exact ⟨data, hc ▸ hw, hh, by simp [hc]⟩

theorem receives_of_pass {data : Block bufLength} (hcap : c.length ≤ bufLength)
    (hw : o.data.write o.count c = some data)
    (hp : startPass clientfd ⟨{ o with data }, c.length⟩ = some ⟨calls, .leave (0, o')⟩) :
    Receives clientfd o c o' calls :=
  (receives_iff hcap).mpr ⟨data, 0, hw, .leave hp⟩

theorem call_idle (clientfd : HSocket) (hi : Idle o) (hps : ∀ p ∈ ps, p.length ≤ 9999)
    (hne : c ≠ [])
    (hcap : c.length ≤ bufLength) (hv : c <+: stream frame ps) :
    ∃ o' calls, Receives clientfd o c o' calls ∧ Serves clientfd ps c calls o' := by
  obtain ⟨data, hw, hwin⟩ := copy_in (c := c) (Block.holds_nil o.data) hi.count
    (by simpa using hcap)
  obtain ⟨o', calls, hret, hs⟩ := dismantle_stream clientfd hps hwin hi.count
    hi.remained hne hv
  exact ⟨o', calls, (receives_iff hcap).mpr ⟨data, 0, hw, hret⟩, hs⟩

/-- A short chunk only adds to a header that was not looked at. -/
theorem call_held_short (clientfd : HSocket) (h : Held o p w) (h5 : c.length < 5)
    (hcap : w.length + c.length ≤ bufLength) :
    ∃ o', Receives clientfd o c o' [] ∧
      (w ++ c <+: frame p → w.length + c.length < (frame p).length → Held o' p (w ++ c)) := by
  obtain ⟨data, hw, hwin⟩ := copy_in (c := c) h.data h.count hcap
  have hpass := startPass_other clientfd hwin (by simp [h.ne]) h.remained
    (.inr (by simp only; omega))
  rw [protocolOther, if_pos (by simp only; omega)] at hpass
  refine ⟨_, receives_of_pass (by omega) hw hpass, fun hf hlt => ⟨hf, by simp [h.ne], ?_,
    hwin.holds, ?_, h.remained⟩⟩
  · simpa using hlt
  · simp only [h.count, List.length_append, Int.toNat_natCast]

/-- A longer one has the header read, and the bytes kept before are not counted. -/
theorem call_held_long (clientfd : HSocket) (h : Held o p w) (hp : p.length ≤ 9999)
    (h5 : 5 ≤ c.length)
    (hcap : w.length + c.length ≤ bufLength) {rest : List UInt8} (hv : w ++ c <+: frame p ++ rest)
    (hlt : c.length < (frame p).length) :
    ∃ o', Receives clientfd o c o' [.sscanf (lenField (w ++ c))] ∧
      (w.length + c.length < (frame p).length → Stuck o' p (w ++ c) w.length) := by
  have hl := frame_length hp
  obtain ⟨data, hw, hwin⟩ := copy_in (c := c) h.data h.count hcap
  obtain ⟨hhead, hdecl⟩ := header_of_prefix_frame hv hp (by simp only [List.length_append]; omega)
  have hpass := startPass_start clientfd hwin hhead (by simp only; omega) h.remained
  rw [protocolStart_stick hwin (by simp only; omega) (by rw [hdecl]; simp only; omega)] at hpass
  refine ⟨_, receives_of_pass (by omega) hw hpass, fun hpart =>
    ⟨?_, ?_, ?_, hwin.holds, ?_, hdecl _, ?_⟩⟩
  · exact List.prefix_of_prefix_length_le hv (List.prefix_append _ _)
      (by simp only [List.length_append]; omega)
  · simp only [List.length_append]
    omega
  · simpa using hpart
  · simp only [h.count, List.length_append, Int.toNat_natCast]
  · simp only [hdecl, List.length_append]
    omega

/-- The frame is not over for the parser: the chunk is kept. -/
theorem call_stuck_wait (clientfd : HSocket) (h : Stuck o p w k) (hne : c ≠ [])
    (hcap : w.length + c.length ≤ bufLength)
    (hlt : w.length + c.length < (frame p).length + k) :
    ∃ o', Receives clientfd o c o' [] ∧
      (w ++ c <+: frame p → w.length + c.length < (frame p).length → Stuck o' p (w ++ c) k) := by
  have hpos : 0 < c.length := List.length_pos_iff.mpr hne
  have hfive := h.five
  have hpart := h.part
  have hrem := h.remained
  obtain ⟨data, hw, hwin⟩ := copy_in (c := c) h.data h.count hcap
  have hpass := startPass_continue clientfd hwin (by simp [hne]) (by simp only; omega)
  rw [protocolContinue_stick (by simp only; omega)] at hpass
  refine ⟨_, receives_of_pass (by omega) hw hpass, fun hf hlt' => ⟨hf, ?_, by simpa using hlt',
    hwin.holds, ?_, h.length, ?_⟩⟩
  · simp only [List.length_append]
    omega
  · simp only [h.count, List.length_append, Int.toNat_natCast]
  · simp only [hrem, List.length_append]
    omega

/-- The chunk brings exactly what the parser waits for. -/
theorem call_stuck_exact (clientfd : HSocket) (h : Stuck o p w k) (hp : p.length ≤ 9999)
    (hcap : w.length + c.length ≤ bufLength) {rest : List UInt8} (hv : w ++ c <+: frame p ++ rest)
    (heq : w.length + c.length = (frame p).length + k) :
    ∃ o' call, Receives clientfd o c o' [call] ∧ Delivered clientfd [call] [p] ∧ Idle o' ∧
      o'.count = 0 := by
  have hpart := h.part
  have hrem := h.remained
  obtain ⟨data, hw, hwin⟩ := copy_in (c := c) h.data h.count hcap
  have hne : w ++ c ≠ [] := by simp [h.ne]
  have hpass := startPass_continue clientfd hwin hne (by simp only; omega)
  rw [protocolContinue_exact (by simp only; omega)] at hpass
  have hfront : frame p <+: w ++ c := List.prefix_of_prefix_length_le (List.prefix_append _ _) hv
    (by simp only [List.length_append]; omega)
  exact ⟨_, _, receives_of_pass (by omega) hw hpass,
    delivered_push (push_carries clientfd hwin.holds hfront hp h.length), idle_zero, rfl⟩

/-- The chunk brings more than the parser waits for, and the payload ends as it expects. -/
theorem call_stuck_dismantle (clientfd : HSocket) (h : Stuck o p w k)
    (hps : ∀ q ∈ p :: ps, q.length ≤ 9999)
    (hpos : 1 ≤ p.length) (hbrace : p.getLast? = some 0x7D) (hcap : w.length + c.length ≤ bufLength)
    (hv : w ++ c <+: stream frame (p :: ps)) (hgt : (frame p).length + k < w.length + c.length) :
    ∃ o' calls, Receives clientfd o c o' calls ∧ Serves clientfd (p :: ps) (w ++ c) calls o' := by
  have hp := hps p (by simp)
  have hl := frame_length hp
  have hpart := h.part
  have hrem := h.remained
  have hlen := h.length
  have hcount := h.count
  obtain ⟨data, hw, hwin⟩ := copy_in (c := c) h.data h.count hcap
  obtain ⟨v, hv'⟩ : frame p <+: w ++ c :=
    List.prefix_of_prefix_length_le (List.prefix_append _ _) hv
      (by simp only [List.length_append]; omega)
  have hlength := congrArg List.length hv'
  simp only [List.length_append] at hlength
  have hlast : (w ++ c)[(o.proLength + 4).toNat]? = some 0x7D := by
    rw [← hv', hlen, List.getElem?_append_left (by omega)]
    exact (frame_last hp hpos).trans hbrace
  have hne : w ++ c ≠ [] := by simp [h.ne]
  have hpass := startPass_continue clientfd hwin hne (by simp only; omega)
  obtain ⟨data', hpass', hh⟩ := protocolContinue_dismantle clientfd hwin (by simp only; omega)
    (by simp only; omega) (by simp only [List.length_append]; omega) hlast
  rw [hpass'] at hpass
  have hdrop : (w ++ c).drop (o.proLength + 5).toNat = v := by
    rw [← hv']
    exact List.drop_left' (by omega)
  simp only [hdrop] at hh
  obtain ⟨o', calls, hret, hserve⟩ := dismantle_stream clientfd
    (fun q (hq : q ∈ ps) => hps q (List.mem_cons_of_mem p hq))
    (s := ⟨⟨0, 0, o.proLength, data'⟩, o.count + c.length - o.proLength - 5⟩) (v := v)
    ⟨hh, by simp only; omega⟩ rfl rfl (by rintro rfl; simp at hlength; omega)
    (by
      rw [← hv', stream_cons] at hv
      exact (List.prefix_append_right_inj _).mp hv)
  have hcarry := push_carries clientfd hwin.holds (hv' ▸ List.prefix_append _ _) hp hlen
  refine ⟨o', _, (receives_iff (by omega)).mpr ⟨data, 0, hw, .jump hpass hret⟩, ?_⟩
  rw [← hv']
  exact hserve.cons (delivered_push hcarry)

end RTPVoice.ClientObj
