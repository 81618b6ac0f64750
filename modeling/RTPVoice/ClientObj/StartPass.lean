import RTPVoice.ClientObj.StickDismantle

namespace RTPVoice.ClientObj

open Framework Framework.Loop

/-- `data` begins with the buffered bytes `w`: `count` from earlier calls, then `recvLength`. -/
structure Window (s : AtStart) (w : List UInt8) : Prop where
  holds : s.option.data.Holds w
  span : (w.length : Int) = s.option.count + s.recvLength

/-- The four bytes copied into `len_str`. -/
def lenField (w : List UInt8) : List UInt8 := (w.drop 1).take 4

/-- `pro_length` after the scan of the header at the front of `w`. -/
def declared (o : StickDismantleOptions) (w : List UInt8) : Int :=
  (Decimal.scan (lenField w)).getD o.proLength

theorem Window.length_le {s : AtStart} {w : List UInt8} (hw : Window s w) :
    w.length ≤ bufLength := hw.holds.length_le

/-- Moving the bytes `off ..` of the window to the front of `data` and clearing what is behind. -/
theorem shift_down {b : Block bufLength} {w : List UInt8} (h : b.Holds w) (off len : Int)
    (h0 : 0 ≤ off) (hl : 0 ≤ len) (he : off + len ≤ w.length) :
    ∃ b₁ b₂, b.read off len = some ((w.drop off.toNat).take len.toNat) ∧
      b.write 0 ((w.drop off.toNat).take len.toNat) = some b₁ ∧ b₁.zeroFrom len = some b₂ ∧
      b₂.Holds ((w.drop off.toNat).take len.toNat) := by
  have hn := h.length_le
  have hlen : ((w.drop off.toNat).take len.toNat).length = len.toNat := by
    simp only [List.length_take, List.length_drop]
    omega
  obtain ⟨b₁, hb₁, hh₁⟩ := (Block.holds_nil b).write ((w.drop off.toNat).take len.toNat)
    (by simp only [List.length_nil]; omega)
  obtain ⟨b₂, hb₂, hh₂⟩ := Block.zeroFrom_holds hh₁ len
    (by simp only [List.nil_append]; omega)
  exact ⟨b₁, b₂, h.read h0 hl he, hb₁, hb₂, hh₂⟩

variable {clientfd : HSocket} {s : AtStart} {w : List UInt8}

theorem get_front (hw : Window s w) (hne : w ≠ []) : s.option.data.get 0 = w.head? := by
  have hpos : 0 < w.length := List.length_pos_iff.mpr hne
  rw [hw.holds.get (by omega) (by omega), List.head?_eq_getElem?]
  rfl

theorem startPass_start (clientfd : HSocket) (hw : Window s w)
    (hhead : w.head? = some protocolHead) (h5 : 5 ≤ s.recvLength)
    (hr : s.option.bytesRemained = 0) :
    startPass clientfd s = protocolStart clientfd s.option s.recvLength := by
  have hne : w ≠ [] := by
    intro hnil
    simp [hnil] at hhead
  simp [startPass, get_front hw hne, hhead, h5, hr]

theorem startPass_continue (clientfd : HSocket) (hw : Window s w) (hne : w ≠ [])
    (hr : 0 < s.option.bytesRemained) :
    startPass clientfd s = protocolContinue clientfd s.option s.recvLength := by
  obtain ⟨b, t, rfl⟩ := List.exists_cons_of_ne_nil hne
  have hz : s.option.bytesRemained ≠ 0 := by omega
  simp [startPass, get_front hw hne, hr, hz]

theorem startPass_other (clientfd : HSocket) (hw : Window s w) (hne : w ≠ [])
    (hr : s.option.bytesRemained = 0) (h : w.head? ≠ some protocolHead ∨ s.recvLength < 5) :
    startPass clientfd s = some (protocolOther clientfd s.option s.recvLength) := by
  obtain ⟨b, t, rfl⟩ := List.exists_cons_of_ne_nil hne
  have hc : ¬ (b = protocolHead ∧ 5 ≤ s.recvLength) := by
    intro hstart
    obtain ⟨rfl, h5⟩ := hstart
    cases h with
    | inl h => simp at h
    | inr h => omega
  simp [startPass, get_front hw hne, hr, hc]

/-! ### The header branch -/

private theorem read_field (hw : Window s w) (h5 : 5 ≤ s.recvLength) :
    s.option.data.read 1 protocolPackageLengthSize = some (lenField w) := by
  have := hw.span
  exact hw.holds.read (by omega) (by decide) (by simp only [protocolPackageLengthSize]; omega)

theorem protocolStart_exact (hw : Window s w) (h5 : 5 ≤ s.recvLength)
    (hl : declared s.option w = s.recvLength - 5) :
    protocolStart clientfd s.option s.recvLength = some ⟨[.sscanf (lenField w),
      { s.option with proLength := declared s.option w }.push clientfd],
      .leave (0, StickDismantleOptions.zero)⟩ := by
  unfold declared at hl ⊢
  simp [protocolStart, read_field hw h5, hl, StickDismantleOptions.zero]

theorem protocolStart_stick (hw : Window s w) (h5 : 5 ≤ s.recvLength)
    (hl : s.recvLength - 5 < declared s.option w) :
    protocolStart clientfd s.option s.recvLength = some ⟨[.sscanf (lenField w)], .leave (0,
      { s.option with
        bytesRemained := declared s.option w - (s.recvLength - 5)
        proLength := declared s.option w
        count := s.option.count + s.recvLength.toNat })⟩ := by
  unfold declared at hl ⊢
  have hne : (Decimal.scan (lenField w)).getD s.option.proLength - (s.recvLength - 5) ≠ 0 := by
    omega
  have hpos : s.recvLength - 5 < (Decimal.scan (lenField w)).getD s.option.proLength := hl
  simp [protocolStart, read_field hw h5, hne, hpos]

theorem protocolStart_dismantle (clientfd : HSocket) (hw : Window s w) (h5 : 5 ≤ s.recvLength)
    (h0 : 0 ≤ declared s.option w) (hl : declared s.option w < s.recvLength - 5) :
    ∃ data, protocolStart clientfd s.option s.recvLength = some ⟨[.sscanf (lenField w),
        { s.option with proLength := declared s.option w }.push clientfd],
        .jump ⟨⟨0, 0, declared s.option w, data⟩, s.recvLength - 5 - declared s.option w⟩⟩ ∧
      data.Holds ((w.drop (declared s.option w + 5).toNat).take
        (s.recvLength - 5 - declared s.option w).toNat) := by
  have hspan := hw.span
  obtain ⟨b₁, b₂, hread, hb₁, hb₂, hh⟩ := shift_down hw.holds
    (declared s.option w + 5) (s.recvLength - 5 - declared s.option w)
    (by omega) (by omega) (by omega)
  refine ⟨b₂, ?_, hh⟩
  have hcomm : s.recvLength - declared s.option w - 5 = s.recvLength - 5 - declared s.option w := by
    omega
  have hne : declared s.option w - (s.recvLength - 5) ≠ 0 := by omega
  have hneg : ¬ s.recvLength - 5 < declared s.option w := by omega
  rw [← hcomm] at hb₂
  unfold declared at *
  simp [protocolStart, read_field hw h5, hne, hneg, hread, hb₁, hb₂]

/-! ### The continuation branch -/

theorem protocolContinue_exact (hr : s.option.bytesRemained = s.recvLength) :
    protocolContinue clientfd s.option s.recvLength = some ⟨[s.option.push clientfd],
      .leave (0, StickDismantleOptions.zero)⟩ := by
  simp [protocolContinue, hr, StickDismantleOptions.zero]

theorem protocolContinue_stick (hr : s.recvLength < s.option.bytesRemained) :
    protocolContinue clientfd s.option s.recvLength = some ⟨[], .leave (0,
      { s.option with
        bytesRemained := s.option.bytesRemained - s.recvLength
        count := s.option.count + s.recvLength.toNat })⟩ := by
  have hne : s.option.bytesRemained ≠ s.recvLength := by omega
  simp [protocolContinue, hr, hne]

theorem protocolContinue_dismantle (clientfd : HSocket) (hw : Window s w)
    (hr : s.option.bytesRemained < s.recvLength) (h0 : 0 ≤ s.option.proLength)
    (hl : s.option.proLength + 5 < w.length)
    (hlast : w[(s.option.proLength + 4).toNat]? = some 0x7D) :
    ∃ data, protocolContinue clientfd s.option s.recvLength = some ⟨[s.option.push clientfd],
        .jump ⟨⟨0, 0, s.option.proLength, data⟩,
          s.option.count + s.recvLength - s.option.proLength - 5⟩⟩ ∧
      data.Holds (w.drop (s.option.proLength + 5).toNat) := by
  have hspan := hw.span
  obtain ⟨b₁, b₂, hread, hb₁, hb₂, hh⟩ := shift_down hw.holds
    (s.option.proLength + 5) (s.option.count + s.recvLength - s.option.proLength - 5)
    (by omega) (by omega) (by omega)
  have htake : (w.drop (s.option.proLength + 5).toNat).take
      (s.option.count + s.recvLength - s.option.proLength - 5).toNat =
      w.drop (s.option.proLength + 5).toNat :=
    List.take_of_length_le (by simp only [List.length_drop]; omega)
  refine ⟨b₂, ?_, htake ▸ hh⟩
  have hne : s.option.bytesRemained ≠ s.recvLength := by omega
  have hnlt : ¬ s.recvLength < s.option.bytesRemained := by omega
  have hget : s.option.data.get (s.option.proLength + protocolPackageLengthSize) = some 0x7D := by
    rw [hw.holds.get (by simp only [protocolPackageLengthSize]; omega)
      (by simp only [protocolPackageLengthSize]; omega)]
    exact hlast
  simp [protocolContinue, hne, hnlt, hget, hread, hb₁, hb₂]

theorem protocolContinue_loss (clientfd : HSocket) (hw : Window s w)
    (hr : s.option.bytesRemained < s.recvLength) (hr0 : 0 ≤ s.recvLength)
    (h0 : 0 ≤ s.option.proLength) (hl : s.option.proLength + 5 < w.length)
    (hlast : w[(s.option.proLength + 4).toNat]? ≠ some 0x7D) :
    ∃ data, protocolContinue clientfd s.option s.recvLength = some ⟨[],
        .jump ⟨⟨0, 0, s.option.proLength, data⟩, s.recvLength⟩⟩ ∧
      data.Holds (w.drop s.option.count) := by
  have hspan := hw.span
  obtain ⟨b₁, b₂, hread, hb₁, hb₂, hh⟩ := shift_down hw.holds
    s.option.count s.recvLength (by omega) (by omega) (by omega)
  have htake : (w.drop ((s.option.count : Int)).toNat).take s.recvLength.toNat =
      w.drop s.option.count := by
    rw [Int.toNat_natCast]
    exact List.take_of_length_le (by simp only [List.length_drop]; omega)
  rw [htake] at hread hb₁ hh
  refine ⟨b₂, ?_, hh⟩
  have hne : s.option.bytesRemained ≠ s.recvLength := by omega
  have hnlt : ¬ s.recvLength < s.option.bytesRemained := by omega
  have hget : s.option.data.get (s.option.proLength + protocolPackageLengthSize) =
      w[(s.option.proLength + 4).toNat]? :=
    hw.holds.get (by simp only [protocolPackageLengthSize]; omega)
      (by simp only [protocolPackageLengthSize]; omega)
  have hlt : (s.option.proLength + 4).toNat < w.length := by omega
  rw [List.getElem?_eq_getElem hlt] at hget hlast
  have hb : w[(s.option.proLength + 4).toNat] ≠ 0x7D := by simpa using hlast
  simp [protocolContinue, hne, hnlt, hget, hb, hread, hb₁, hb₂]

end RTPVoice.ClientObj
