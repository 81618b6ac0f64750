import RTPVoice.ClientObj.Reassembly

namespace RTPVoice.ClientObj

open Framework Framework.Loop Framework.Framing

variable {clientfd : HSocket} {p : List UInt8} {ps : List (List UInt8)}
  {o o' : StickDismantleOptions} {c w : List UInt8} {calls : List Call} {k : Nat} {m : Mode}

/-- The mode once `c` has come without completing the frame of which `w` is kept. -/
def Mode.next (w c : List UInt8) : Mode → Mode
  | .idle => restMode c
  | .held => if c.length < 5 then .held else .stuck w.length
  | .stuck k => .stuck k

/-- The chunk `c`, which completes the frame of `p`, lets the parser finish it too. -/
def Mode.Finishes (p w c : List UInt8) : Mode → Prop
  | .idle => True
  | .held => False
  | .stuck k => (k = 0 ∧ w.length + c.length = (frame p).length) ∨
      ((frame p).length + k < w.length + c.length ∧ p.getLast? = some 0x7D)

theorem Rests.length_lt (h : Rests o m (p :: ps) w) (hp : p.length ≤ 9999) :
    w.length < (frame p).length := by
  have hl := frame_length hp
  cases h with
  | idle => simp only [List.length_nil]; omega
  | held h => exact h.part
  | stuck h => exact h.part

theorem Rests.nil_of_idle (h : Rests o .idle ps w) : w = [] := by
  cases h
  rfl

theorem Rests.ne_nil (h : Rests o m ps w) (hm : m ≠ .idle) : w ≠ [] := by
  cases h with
  | idle => exact absurd rfl hm
  | held h => exact h.ne
  | stuck h => exact h.ne

theorem Rests.count (h : Rests o m ps w) : o.count = w.length := by
  cases h with
  | idle h => exact h.count
  | held h => exact h.count
  | stuck h => exact h.count

/-- Serving accounts for every buffered byte. -/
theorem Serves.cost {v : List UInt8} (h : Serves clientfd ps v calls o)
    (hps : ∀ p ∈ ps, p.length ≤ 9999) : cost calls + o.count = v.length := by
  obtain ⟨done, ps', w, hd, rfl, rfl, hr⟩ := h
  rw [hd.cost (fun q hq => hps q (by simp [hq])), hr.count, List.length_append]
  omega

/-! ### Calls that lose bytes -/

/-- A call of which every byte does not come out again: more was buffered than is handed on or
kept. -/
def Loses (clientfd : HSocket) (o : StickDismantleOptions) (w c : List UInt8) : Prop :=
  ∀ o' calls, Receives clientfd o c o' calls → Sound calls →
    cost calls + o'.count < w.length + c.length

theorem loses_of_receives (hcap : c.length ≤ bufLength) (h : Receives clientfd o c o' calls)
    (hc : cost calls + o'.count < w.length + c.length) : Loses clientfd o w c := by
  intro o₁ calls₁ h₁ _
  obtain ⟨rfl, rfl⟩ := h.unique hcap h₁
  exact hc

/-- A header read late, in a chunk as long as the frame: as many bytes as were kept fall off the
end. -/
theorem call_held_over (h : Held o p w) (hps : ∀ q ∈ p :: ps, q.length ≤ 9999)
    (hcap : w.length + c.length ≤ bufLength) (hv : w ++ c <+: stream frame (p :: ps))
    (hge : (frame p).length ≤ c.length) : Loses clientfd o w c := by
  have hp := hps p (by simp)
  have hl := frame_length hp
  have hwpos : 0 < w.length := List.length_pos_iff.mpr h.ne
  obtain ⟨data, hw, hwin⟩ := copy_in (c := c) h.data h.count hcap
  obtain ⟨hhead, hdecl⟩ := header_of_prefix_frame hv hp (by simp only [List.length_append]; omega)
  have hdecl' := hdecl { o with data }
  have hpass := startPass_start clientfd hwin hhead (by simp only; omega) h.remained
  cases hge.eq_or_lt with
  | inl heq =>
    rw [protocolStart_exact hwin (by simp only; omega) (by rw [hdecl]; simp only; omega)] at hpass
    refine loses_of_receives (by omega) (receives_of_pass (by omega) hw hpass) ?_
    simp only [cost_cons, cost_sscanf, cost_push, cost_nil, hdecl, StickDismantleOptions.zero]
    omega
  | inr hlt =>
    obtain ⟨data', hpass', hh⟩ := protocolStart_dismantle clientfd hwin (by simp only; omega)
      (by rw [hdecl]; omega) (by rw [hdecl]; simp only; omega)
    rw [hpass'] at hpass
    simp only [hdecl'] at hpass hh
    have hsub : ((w ++ c).drop (p.length + 5 : Int).toNat).take
        ((c.length : Int) - 5 - p.length).toNat <+: stream frame ps := by
      have hd := hv.drop (frame p).length
      rw [stream_cons, List.drop_left] at hd
      have he : (p.length + 5 : Int).toNat = (frame p).length := by omega
      rw [he]
      exact (List.take_prefix _ _).trans hd
    have hlen : (((w ++ c).drop (p.length + 5 : Int).toNat).take
        ((c.length : Int) - 5 - p.length).toNat).length = c.length - (frame p).length := by
      simp only [List.length_take, List.length_drop, List.length_append]
      omega
    obtain ⟨o', calls, hret, hserve⟩ := dismantle_stream clientfd
      (fun q (hq : q ∈ ps) => hps q (List.mem_cons_of_mem p hq))
      (s := ⟨⟨0, 0, p.length, data'⟩, c.length - 5 - p.length⟩) ⟨hh, by simp only; omega⟩ rfl rfl
      (List.length_pos_iff.mp (by omega)) hsub
    have hcost := hserve.cost (fun q hq => hps q (List.mem_cons_of_mem p hq))
    refine loses_of_receives (by omega) ((receives_iff (by omega)).mpr
      ⟨data, 0, hw, .jump hpass hret⟩) ?_
    simp only [cost_append, cost_cons, cost_sscanf, cost_push, cost_nil]
    omega

/-- Waiting for `k` bytes more than the frame has, the call clears them away behind it. -/
theorem call_stuck_exact_over (h : Stuck o p w k) (hp : p.length ≤ 9999) (hk : 0 < k)
    (hcap : w.length + c.length ≤ bufLength) {rest : List UInt8} (hv : w ++ c <+: frame p ++ rest)
    (heq : w.length + c.length = (frame p).length + k) : Loses clientfd o w c := by
  obtain ⟨o', call, hr, hd, -, hc⟩ := call_stuck_exact clientfd h hp hcap hv heq
  have hcost := hd.cost (by simpa using hp)
  refine loses_of_receives (by omega) hr ?_
  simp only [stream_cons, stream_nil, List.append_nil] at hcost
  omega

/-- The packet-loss branch throws the bytes kept away. -/
theorem call_stuck_loss (h : Stuck o p w k) (hp : p.length ≤ 9999) (hpos : 1 ≤ p.length)
    (hbrace : p.getLast? ≠ some 0x7D) (hcap : w.length + c.length ≤ bufLength)
    {rest : List UInt8} (hv : w ++ c <+: frame p ++ rest)
    (hgt : (frame p).length + k < w.length + c.length) : Loses clientfd o w c := by
  have hl := frame_length hp
  have hpart := h.part
  have hrem := h.remained
  have hlen := h.length
  have hcount := h.count
  have hwpos : 0 < w.length := List.length_pos_iff.mpr h.ne
  obtain ⟨data, hw, hwin⟩ := copy_in (c := c) h.data h.count hcap
  have hne : w ++ c ≠ [] := by simp [h.ne]
  have hlast : (w ++ c)[(o.proLength + 4).toNat]? ≠ some 0x7D := by
    obtain ⟨v, hv'⟩ : frame p <+: w ++ c :=
      List.prefix_of_prefix_length_le (List.prefix_append _ _) hv
        (by simp only [List.length_append]; omega)
    rw [← hv', hlen, List.getElem?_append_left (by omega)]
    exact fun e => hbrace ((frame_last hp hpos).symm.trans e)
  have hpass := startPass_continue clientfd hwin hne (by simp only; omega)
  obtain ⟨data', hpass', hh⟩ := protocolContinue_loss clientfd hwin (by simp only; omega)
    (by simp only; omega) (by simp only; omega) (by simp only [List.length_append]; omega) hlast
  rw [hpass'] at hpass
  intro o₁ calls₁ h₁ hsound
  obtain ⟨data₁, ret, hw₁, hret⟩ := (receives_iff (by omega)).mp h₁
  obtain rfl : data = data₁ := Option.some.inj (hw.symm.trans hw₁)
  rcases hret.first with hf | ⟨es₁, es₂, s', hf, hret', rfl⟩
  · simp [hpass] at hf
  · simp only [hpass, Option.some.injEq, Pass.mk.injEq, Exit.jump.injEq] at hf
    obtain ⟨rfl, rfl⟩ := hf
    simp only [List.nil_append] at hsound
    have hready : Ready ⟨⟨0, 0, o.proLength, data'⟩, (c.length : Int)⟩ ((w ++ c).drop o.count) :=
      ⟨⟨hh, by simp only [List.length_drop, List.length_append]; omega⟩,
        ⟨Nat.zero_le _, le_rfl, by simp only; omega, fun h => absurd h (lt_irrefl _)⟩,
        by simp only; omega⟩
    obtain ⟨-, hbooks⟩ := returns_books hret' hready hsound
    simp only [List.length_drop, List.length_append, List.nil_append] at hbooks ⊢
    omega

/-! ### Every call -/

/-- What a call does with `c`, when `w` of the stream of `ps` is kept. -/
inductive Verdict (clientfd : HSocket) (o : StickDismantleOptions) (m : Mode)
    (ps : List (List UInt8)) (w c : List UInt8) : Prop where
  | serves {o' : StickDismantleOptions} {calls : List Call}
      (receives : Receives clientfd o c o' calls) (serves : Serves clientfd ps (w ++ c) calls o')
      (finishes : ∀ p ps', ps = p :: ps' → (frame p).length ≤ w.length + c.length →
        m.Finishes p w c)
      (through : m ≠ .idle → ∃ p ps', ps = p :: ps' ∧ (frame p).length ≤ w.length + c.length)
  | keeps {p : List UInt8} {ps' : List (List UInt8)} {o' : StickDismantleOptions}
      {calls : List Call} (first : ps = p :: ps') (receives : Receives clientfd o c o' calls)
      (none : Delivered clientfd calls []) (rests : Rests o' (m.next w c) ps (w ++ c))
      (short : w.length + c.length < (frame p).length) (inside : m ≠ .idle)
  | delays {p : List UInt8} {ps' : List (List UInt8)} {o' : StickDismantleOptions}
      {calls : List Call} (first : ps = p :: ps') (receives : Receives clientfd o c o' calls)
      (none : Delivered clientfd calls []) (whole : (frame p).length ≤ w.length + c.length)
      (late : ¬ m.Finishes p w c) (cut : m ≠ .stuck 0)
  | loses {p : List UInt8} {ps' : List (List UInt8)} (first : ps = p :: ps')
      (loses : Loses clientfd o w c) (whole : (frame p).length ≤ w.length + c.length)
      (late : ¬ m.Finishes p w c)

/-- The payloads a claim about whole streams allows: not empty, and with a frame that leaves room
for one more chunk in `data`. -/
def Fits (p : List UInt8) : Prop := 1 ≤ p.length ∧ p.length ≤ 1532

theorem Fits.le {p : List UInt8} (h : Fits p) : p.length ≤ 9999 := h.2.trans (by decide)

private theorem verdict_held (h : Held o p w) (hps : ∀ q ∈ p :: ps, Fits q)
    (hc : c.length ≤ 512) (hv : w ++ c <+: stream frame (p :: ps)) :
    Verdict clientfd o .held (p :: ps) w c := by
  have hp := (hps p (by simp)).le
  have hl := frame_length hp
  have hfit := hps p (by simp)
  have hpart := h.part
  have hcap : w.length + c.length ≤ bufLength := by
    have := hfit.2
    simp only [bufLength]
    omega
  have hinside : Mode.held ≠ .idle := by rintro ⟨⟩
  have hfront (hlt : w.length + c.length < (frame p).length) : w ++ c <+: frame p :=
    List.prefix_of_prefix_length_le hv (List.prefix_append _ _)
      (by simp only [List.length_append]; omega)
  by_cases h5 : c.length < 5
  · obtain ⟨o', hr, hkeep⟩ := call_held_short clientfd h h5 hcap
    by_cases hlt : w.length + c.length < (frame p).length
    · refine .keeps rfl hr delivered_nil ?_ hlt hinside
      rw [Mode.next, if_pos h5]
      exact .held (hkeep (hfront hlt) hlt)
    · exact .delays rfl hr delivered_nil (by omega) not_false (by rintro ⟨⟩)
  · by_cases hover : (frame p).length ≤ c.length
    · exact .loses rfl (call_held_over h (fun q hq => (hps q hq).le) hcap hv hover) (by omega)
        not_false
    · obtain ⟨o', hr, hkeep⟩ := call_held_long clientfd h hp (by omega) hcap hv
        (by omega)
      by_cases hlt : w.length + c.length < (frame p).length
      · refine .keeps rfl hr (delivered_sscanf _) ?_ hlt hinside
        rw [Mode.next, if_neg h5]
        exact .stuck (hkeep hlt)
      · exact .delays rfl hr (delivered_sscanf _) (by omega) not_false (by rintro ⟨⟩)

private theorem verdict_stuck (h : Stuck o p w k) (hps : ∀ q ∈ p :: ps, Fits q)
    (hc : c.length ≤ 512) (hne : c ≠ []) (hv : w ++ c <+: stream frame (p :: ps)) :
    Verdict clientfd o (.stuck k) (p :: ps) w c := by
  have hfit := hps p (by simp)
  have hp := hfit.le
  have hl := frame_length hp
  have hpart := h.part
  have hcap : w.length + c.length ≤ bufLength := by
    have := hfit.2
    simp only [bufLength]
    omega
  have hinside : Mode.stuck k ≠ .idle := by rintro ⟨⟩
  rcases lt_trichotomy (w.length + c.length) ((frame p).length + k) with hlt | heq | hgt
  · obtain ⟨o', hr, hkeep⟩ := call_stuck_wait clientfd h hne hcap hlt
    by_cases hpart : w.length + c.length < (frame p).length
    · have hfront : w ++ c <+: frame p :=
        List.prefix_of_prefix_length_le hv (List.prefix_append _ _)
          (by simp only [List.length_append]; omega)
      exact .keeps rfl hr delivered_nil (.stuck (hkeep hfront hpart)) hpart hinside
    · refine .delays rfl hr delivered_nil (by omega) ?_ ?_
      · rintro (⟨rfl, -⟩ | ⟨hgt, -⟩) <;> omega
      · rintro ⟨⟩
        omega
  · rcases Nat.eq_zero_or_pos k with rfl | hk
    · obtain ⟨o', call, hr, hd, hidle, -⟩ :=
        call_stuck_exact clientfd h hp hcap hv heq
      have hwhole : frame p = w ++ c :=
        (List.prefix_of_prefix_length_le (List.prefix_append _ _) hv
          (by simp only [List.length_append]; omega)).eq_of_length
          (by simp only [List.length_append]; omega)
      refine .serves hr ⟨[p], ps, [], hd, rfl, by simpa using hwhole.symm, .idle hidle⟩ ?_ ?_
      · intro q qs hq _
        obtain ⟨rfl, rfl⟩ := hq
        exact .inl ⟨rfl, heq⟩
      · exact fun _ => ⟨p, ps, rfl, heq.ge⟩
    · exact .loses rfl (call_stuck_exact_over h hp hk hcap hv heq) (by omega)
        (by rintro (⟨rfl, -⟩ | ⟨hgt, -⟩) <;> omega)
  · by_cases hbrace : p.getLast? = some 0x7D
    · obtain ⟨o', calls, hr, hserve⟩ := call_stuck_dismantle clientfd h
        (fun q hq => (hps q hq).le) hfit.1 hbrace hcap hv hgt
      refine .serves hr hserve ?_ ?_
      · intro q qs hq _
        obtain ⟨rfl, rfl⟩ := hq
        exact .inr ⟨hgt, hbrace⟩
      · exact fun _ => ⟨p, ps, rfl, by omega⟩
    · exact .loses rfl (call_stuck_loss h hp hfit.1 hbrace hcap hv hgt) (by omega)
        (by rintro (⟨-, heq⟩ | ⟨-, hb⟩) <;> [omega; exact hbrace hb])

theorem call_step (clientfd : HSocket) (h : Rests o m ps w) (hps : ∀ p ∈ ps, Fits p) (hne : c ≠ [])
    (hc : c.length ≤ 512) (hv : w ++ c <+: stream frame ps) : Verdict clientfd o m ps w c := by
  cases h with
  | idle hi =>
    obtain ⟨o', calls, hr, hserve⟩ := call_idle clientfd hi
      (fun p hp => (hps p hp).le) hne (hc.trans (by decide)) hv
    exact .serves hr hserve (fun _ _ _ _ => trivial) (fun h => absurd rfl h)
  | held h => exact verdict_held h hps hc hv
  | stuck h => exact verdict_stuck h hps hc hne hv

end RTPVoice.ClientObj
