import RTPVoice.ClientObj.Consistency
import RTPVoice.Framework.Scattered

namespace RTPVoice.ClientObj

open Framework Framework.Loop Framework.Framing

/-- A payload as it stands in the stream: behind a head byte and a length field which, if it reads
as a number at all, reads as the payload's length. -/
def Framed (p u : List UInt8) : Prop :=
  ∃ field, field.length = protocolPackageLengthSize ∧
    (∀ n, Decimal.scan field = some n → n = p.length) ∧ u = protocolHead :: (field ++ p)

/-- `w` begins with the header that the frame begun was read from. -/
structure Opened (o : StickDismantleOptions) (w : List UInt8) : Prop where
  head : w.head? = some protocolHead
  five : 5 ≤ w.length
  length : declared o w = o.proLength

/-- No bytes of a header that was cut are waiting. -/
def Uncut (o : StickDismantleOptions) : Prop := o.bytesRemained = 0 → o.count = 0

/-- Between two calls `k` is kept. -/
structure Keeping (o : StickDismantleOptions) (k : List UInt8) : Prop where
  book : Bookkeeping o
  holds : o.data.Holds k
  count : k.length = o.count
  opened : 0 < o.bytesRemained → Opened o k

/-- The same at `Start`, where `w` is everything buffered. -/
structure Looking (s : AtStart) (w : List UInt8) : Prop extends Ready s w where
  opened : 0 < s.option.bytesRemained → Opened s.option w

variable {clientfd : HSocket} {s : AtStart} {o o' : StickDismantleOptions} {p : StartPass}
  {w k c : List UInt8} {calls : List Call}

theorem keeping_zero : Keeping .zero [] :=
  ⟨bookkeeping_zero, Block.holds_nil _, rfl, fun h => absurd h (by decide)⟩

/-- The front of a buffer that begins with a header, up to where its frame ends. -/
theorem framed_take {n : Int} (hhead : w.head? = some protocolHead)
    (hfield : ∀ m, Decimal.scan (lenField w) = some m → m = n) (h0 : 0 ≤ n)
    (hle : n + 5 ≤ w.length) : Framed ((w.drop 5).take n.toNat) (w.take (n + 5).toNat) := by
  have hlen : ((w.drop 5).take n.toNat).length = n.toNat := by
    simp only [List.length_take, List.length_drop]
    omega
  have hfieldLen : (lenField w).length = protocolPackageLengthSize := by
    simp only [lenField, List.length_take, List.length_drop, protocolPackageLengthSize]
    omega
  refine ⟨lenField w, hfieldLen, fun m hm => ?_, ?_⟩
  · rw [hfield m hm, hlen]
    omega
  · obtain ⟨b, t, rfl⟩ := List.exists_cons_of_ne_nil (l := w) (by rintro rfl; simp at hhead)
    obtain rfl : b = protocolHead := by simpa using hhead
    have hn : (n + 5).toNat = 4 + n.toNat + 1 := by omega
    rw [hn, List.take_succ_cons, List.take_add]
    rfl

/-- What is handed on of a buffer that begins with a whole frame. -/
theorem push_framed (clientfd : HSocket) (hw : o.data.Holds w) (h0 : 0 ≤ o.proLength)
    (hle : o.proLength + 5 ≤ w.length) :
    Delivered clientfd [o.push clientfd] [(w.drop 5).take o.proLength.toNat] := by
  refine delivered_push ⟨o.data.bytes.drop 5, ?_, ?_⟩
  · have hlen : (((w.drop 5).take o.proLength.toNat).length : Int) = o.proLength := by
      simp only [List.length_take, List.length_drop]
      omega
    rw [StickDismantleOptions.push, hlen]
  · exact (List.take_prefix _ _).trans (List.IsPrefix.drop hw 5)

/-- A whole frame at the front is taken, and what is behind it is left. -/
theorem yields_frame {n : Int} {rest : List UInt8} {whole : Prop}
    (hhead : w.head? = some protocolHead)
    (hfield : ∀ m, Decimal.scan (lenField w) = some m → m = n) (h0 : 0 ≤ n)
    (hle : n + 5 ≤ w.length) (hsub : rest.Sublist (w.drop (n + 5).toNat))
    (hwhole : whole → rest = w.drop (n + 5).toNat) :
    Yields Framed whole w [(w.drop 5).take n.toNat] rest := by
  have h := yields_single (framed_take hhead hfield h0 hle) hsub hwhole
  rwa [List.take_append_drop] at h

theorem Opened.field {m : Int} (h : Opened o w) (hm : Decimal.scan (lenField w) = some m) :
    m = o.proLength := by
  rw [← h.length, declared, hm]
  rfl

theorem Opened.append (h : Opened o k) (c : List UInt8) : Opened o (k ++ c) := by
  obtain ⟨hhead, hfive, hlength⟩ := h
  have hfield : lenField (k ++ c) = lenField k := by
    rw [lenField, lenField, List.drop_append_of_le_length (by omega),
      List.take_append_of_le_length (by simp only [List.length_drop]; omega)]
  refine ⟨?_, ?_, ?_⟩
  · rw [List.head?_append, hhead]
    rfl
  · rw [List.length_append]
    omega
  · rw [declared, hfield]
    exact hlength

/-! ### One pass -/

/-- What a pass hands on and what it keeps stood in `w`, in this order. -/
inductive Traces (clientfd : HSocket) (s : AtStart) (w : List UInt8) : StartPass → Prop where
  | leave {events : List Call} {ps : List (List UInt8)} {rest : List UInt8} {ret : Int}
      {o : StickDismantleOptions} (delivered : Delivered clientfd events ps)
      (yields : Yields Framed (Uncut s.option) w ps rest) (holds : o.data.Holds rest)
      (count : rest.length = o.count) (opened : 0 < o.bytesRemained → Opened o rest) :
      Traces clientfd s w ⟨events, .leave (ret, o)⟩
  | jump {events : List Call} {ps : List (List UInt8)} {rest : List UInt8} {s' : AtStart}
      (delivered : Delivered clientfd events ps)
      (yields : Yields Framed (Uncut s.option) w ps rest) (window : Window s' rest)
      (outside : s'.option.bytesRemained = 0) (count : s'.option.count = 0) :
      Traces clientfd s w ⟨events, .jump s'⟩

theorem traces_zero {events : List Call} {ps : List (List UInt8)} {rest : List UInt8}
    (hd : Delivered clientfd events ps) (hy : Yields Framed (Uncut s.option) w ps rest) :
    Traces clientfd s w ⟨events, .leave (0, .zero)⟩ :=
  .leave hd hy.forget (Block.holds_nil _) rfl fun h => absurd h (by decide)

private theorem protocolContinue_traces (hs : Looking s w) (hr : 0 < s.option.bytesRemained)
    (hp : protocolContinue clientfd s.option s.recvLength = some p) : Traces clientfd s w p := by
  have hw := hs.toWindow
  have hspan := hw.span
  have hfresh := hs.fresh
  obtain ⟨-, -, hlen, hin⟩ := hs.book
  obtain ⟨hle, hge⟩ := hin hr
  have hopen := hs.opened hr
  have hfield : ∀ m, Decimal.scan (lenField w) = some m → m = s.option.proLength :=
    fun m => hopen.field
  rcases lt_trichotomy s.option.bytesRemained s.recvLength with hlt | heq | hgt
  · have hl : s.option.proLength + 5 < w.length := by omega
    by_cases hlast : w[(s.option.proLength + 4).toNat]? = some 0x7D
    · obtain ⟨data, hd, hh⟩ := protocolContinue_dismantle clientfd hw hlt hlen hl hlast
      obtain rfl := Option.some.inj (hd.symm.trans hp)
      refine .jump (push_framed clientfd hw.holds hlen hl.le)
        (yields_frame hopen.head hfield hlen hl.le (List.Sublist.refl _) fun _ => rfl)
        ⟨hh, ?_⟩ rfl rfl
      simp only [List.length_drop]
      omega
    · obtain ⟨data, hd, hh⟩ := protocolContinue_loss clientfd hw hlt hfresh.le hlen hl hlast
      obtain rfl := Option.some.inj (hd.symm.trans hp)
      refine .jump delivered_nil (yields_drop _ w) ⟨hh, ?_⟩ rfl rfl
      simp only [List.length_drop]
      omega
  · have hl : s.option.proLength + 5 ≤ w.length := by omega
    obtain rfl := Option.some.inj ((protocolContinue_exact heq).symm.trans hp)
    exact traces_zero (push_framed clientfd hw.holds hlen hl)
      (yields_frame hopen.head hfield hlen hl (List.Sublist.refl _) fun _ => rfl)
  · obtain rfl := Option.some.inj ((protocolContinue_stick hgt).symm.trans hp)
    refine .leave delivered_nil (yields_nil w) hw.holds ?_
      fun _ => ⟨hopen.head, hopen.five, hopen.length⟩
    simp only
    omega

private theorem protocolStart_traces (hs : Looking s w) (hhead : w.head? = some protocolHead)
    (h5 : 5 ≤ s.recvLength) (hr : s.option.bytesRemained = 0) (hd0 : 0 ≤ declared s.option w)
    (hp : protocolStart clientfd s.option s.recvLength = some p) : Traces clientfd s w p := by
  have hw := hs.toWindow
  have hspan := hw.span
  have hfield : ∀ m, Decimal.scan (lenField w) = some m → m = declared s.option w := by
    intro m hm
    rw [declared, hm]
    rfl
  have hfirst (f : List UInt8) {o₁ : StickDismantleOptions} {q : List UInt8}
      (h : Delivered clientfd [o₁.push clientfd] [q]) :
      Delivered clientfd [.sscanf f, o₁.push clientfd] [q] := (delivered_sscanf f).append h
  have hpush (hl : declared s.option w + 5 ≤ w.length) :=
    hfirst (lenField w) (push_framed (o := { s.option with proLength := declared s.option w })
      clientfd hw.holds hd0 hl)
  rcases lt_trichotomy (declared s.option w) (s.recvLength - 5) with hlt | heq | hgt
  · have hl : declared s.option w + 5 ≤ w.length := by omega
    obtain ⟨data, hd, hh⟩ := protocolStart_dismantle clientfd hw h5 hd0 hlt
    obtain rfl := Option.some.inj (hd.symm.trans hp)
    refine .jump (hpush hl)
      (yields_frame hhead hfield hd0 hl (List.take_sublist _ _) fun hwhole => ?_) ⟨hh, ?_⟩ rfl rfl
    · -- with nothing kept before, the new bytes are all there is
      have hcount := hwhole hr
      exact List.take_of_length_le (by simp only [List.length_drop]; omega)
    · simp only [List.length_take, List.length_drop]
      omega
  · have hl : declared s.option w + 5 ≤ w.length := by omega
    obtain rfl := Option.some.inj ((protocolStart_exact hw h5 heq).symm.trans hp)
    exact traces_zero (hpush hl)
      (yields_frame hhead hfield hd0 hl (List.Sublist.refl _) fun _ => rfl)
  · obtain rfl := Option.some.inj ((protocolStart_stick hw h5 hgt).symm.trans hp)
    refine .leave (delivered_sscanf _) (yields_nil w) hw.holds ?_ fun _ => ⟨hhead, by omega, ?_⟩
    · simp only
      omega
    · simp only [declared]
      cases Decimal.scan (lenField w) <;> rfl

private theorem protocolOther_traces (hs : Looking s w) (hr : ¬ 0 < s.option.bytesRemained) :
    Traces clientfd s w (protocolOther clientfd s.option s.recvLength) := by
  have hspan := hs.span
  have hfresh := hs.fresh
  unfold protocolOther
  split
  · refine .leave delivered_nil (yields_nil w) hs.holds ?_ fun h => absurd h hr
    simp only
    omega
  · exact traces_zero .nil (yields_nil w)

theorem startPass_traces (hs : Looking s w) (hp : startPass clientfd s = some p)
    (hsound : Sound p.events) : Traces clientfd s w p := by
  have hw := hs.toWindow
  have hrem := hs.book.remained
  by_cases hr : 0 < s.option.bytesRemained
  · rw [startPass_continue clientfd hw hs.ne_nil hr] at hp
    exact protocolContinue_traces hs hr hp
  · have hr0 : s.option.bytesRemained = 0 := by omega
    by_cases hhead : w.head? = some protocolHead ∧ 5 ≤ s.recvLength
    · obtain ⟨hh, h5⟩ := hhead
      rw [startPass_start clientfd hw hh h5 hr0] at hp
      have hd0 : 0 ≤ declared s.option w := by
        by_contra hneg
        exact protocolStart_negative hw h5 (by omega) hp hsound
      exact protocolStart_traces hs hh h5 hr0 hd0 hp
    · have hcases : w.head? ≠ some protocolHead ∨ s.recvLength < 5 := by
        by_cases hh : w.head? = some protocolHead
        · exact .inr (Int.not_le.mp fun h5 => hhead ⟨hh, h5⟩)
        · exact .inl hh
      rw [startPass_other clientfd hw hs.ne_nil hr0 hcases] at hp
      obtain rfl := Option.some.inj hp
      exact protocolOther_traces hs hr

/-! ### Calls and runs -/

theorem returns_traces {r : Int × StickDismantleOptions}
    (h : Returns (startPass clientfd) s r calls) (hs : Looking s w) (hsound : Sound calls) :
    ∃ ps rest, Delivered clientfd calls ps ∧ Yields Framed (Uncut s.option) w ps rest ∧
      Keeping r.2 rest := by
  induction h generalizing w with
  | @leave s r es h =>
    rcases startPass_books hs.toReady h hsound with ⟨o, he, hbook, -⟩ | ⟨s', w', he, -⟩
    · cases startPass_traces hs h hsound with
      | leave hd hy hholds hcount hopened =>
        cases he
        exact ⟨_, _, hd, hy, hbook, hholds, hcount, hopened⟩
    · cases he
  | @jump s s₁ r es es' h _ ih =>
    obtain ⟨h1, h2⟩ := sound_append.mp hsound
    rcases startPass_books hs.toReady h h1 with ⟨o, he, -⟩ | ⟨s', w', he, hready, -⟩
    · cases he
    · cases he
      cases startPass_traces hs h h1 with
      | @jump _ ps rest _ hd hy hwindow houtside hcount =>
        have hlook : Looking s₁ rest :=
          ⟨⟨hwindow, hready.book, hready.fresh⟩, fun hr => by omega⟩
        obtain ⟨qs, rest', hd', hy', hkeep⟩ := ih hlook h2
        refine ⟨ps ++ qs, rest', hd.append hd', ?_, hkeep⟩
        -- a jump leaves no bytes of a cut header behind
        rw [← List.append_nil rest] at hy'
        have hall := hy.trans hy'
        rw [List.append_nil] at hall
        exact hall.weaken fun hu => ⟨hu, fun _ => hcount⟩

theorem looking_of_write (hk : Keeping o k) (hc : c ≠ []) {data : Block bufLength}
    (hwrite : o.data.write o.count c = some data) :
    Looking ⟨{ o with data }, c.length⟩ (k ++ c) := by
  have htake : o.data.bytes.take o.count = k := by
    rw [← hk.count]
    exact (List.prefix_iff_eq_take.mp hk.holds).symm
  refine ⟨htake ▸ ready_of_write hk.book hc hwrite, fun hr => ?_⟩
  obtain ⟨hhead, hfive, hlength⟩ := (hk.opened hr).append c
  exact ⟨hhead, hfive, hlength⟩

theorem receives_traces (h : Receives clientfd o c o' calls) (hk : Keeping o k) (hc : c ≠ [])
    (hlen : c.length ≤ bufLength) (hsound : Sound calls) :
    ∃ ps rest, Delivered clientfd calls ps ∧ Yields Framed (Uncut o) (k ++ c) ps rest ∧
      Keeping o' rest := by
  obtain ⟨data, ret, hwrite, hret⟩ := (receives_iff hlen).mp h
  exact returns_traces hret (looking_of_write hk hc hwrite) hsound

variable {chunks : List (List UInt8)} {outs : List (List Call)}

/-- No chunk of the run comes while bytes of a cut header are waiting. -/
def NeverCut (clientfd : HSocket) (o : StickDismantleOptions) (chunks : List (List UInt8)) : Prop :=
  ∀ k < chunks.length, ∀ outs o', Feeds clientfd o (chunks.take k) outs o' → Uncut o'

theorem NeverCut.tail {cs : List (List UInt8)} (h : NeverCut clientfd o (c :: cs))
    (hc : Receives clientfd o c o' calls) : NeverCut clientfd o' cs := by
  intro k hk outs o'' hf
  exact h (k + 1) (Nat.succ_lt_succ hk) (calls :: outs) o'' (.cons hc hf)

theorem feeds_traces (h : Feeds clientfd o chunks outs o') (hk : Keeping o k)
    (hsizes : ∀ c ∈ chunks, c ≠ [] ∧ c.length ≤ bufLength) (hsound : Sound outs.flatten) :
    ∃ ps rest, Delivered clientfd outs.flatten ps ∧
      Yields Framed (NeverCut clientfd o chunks) (k ++ chunks.flatten) ps rest ∧
      Keeping o' rest := by
  induction h generalizing k with
  | nil o => exact ⟨[], k, delivered_nil, by simpa using yields_nil k, hk⟩
  | @cons o c o₁ calls cs outs o₂ hc _ ih =>
    rw [List.flatten_cons, sound_append] at hsound
    obtain ⟨hne, hle⟩ := hsizes c (by simp)
    obtain ⟨ps, rest, hd, hy, hk₁⟩ := receives_traces hc hk hne hle hsound.1
    obtain ⟨qs, rest', hd', hy', hk₂⟩ := ih hk₁ (fun d hd => hsizes d (by simp [hd])) hsound.2
    refine ⟨ps ++ qs, rest', hd.append hd', ?_, hk₂⟩
    have hall := hy.trans hy'
    rw [List.append_assoc, ← List.flatten_cons] at hall
    refine hall.weaken fun hnever => ⟨?_, hnever.tail hc⟩
    exact hnever 0 (Nat.succ_pos _) [] o (.nil o)

/-- Whatever bytes a client sends and however they come: the payloads handed on stood in what was
received, each behind a header, in their order and no byte in two of them; and, unless a chunk came
while bytes of a cut header were waiting, without a gap inside any of them. -/
theorem payloads_received (clientfd : HSocket) (chunks : List (List UInt8))
    (outs : List (List Call)) (o : StickDismantleOptions)
    (hf : Feeds clientfd .zero chunks outs o)
    (hsizes : ∀ c ∈ chunks, c ≠ [] ∧ c.length ≤ bufLength) (hsound : Sound outs.flatten) :
    ∃ ps kept, Delivered clientfd outs.flatten ps ∧ Scattered Framed ps kept ∧
      kept.Sublist chunks.flatten ∧ (NeverCut clientfd .zero chunks → kept = chunks.flatten) := by
  obtain ⟨ps, rest, hd, hy, -⟩ := feeds_traces hf keeping_zero hsizes hsound
  obtain ⟨kept, hscattered, hsub, hwhole⟩ := hy.scattered
  rw [List.nil_append] at hsub hwhole
  exact ⟨ps, kept, hd, hscattered, hsub, hwhole⟩

theorem Delivered.unique {ps qs : List (List UInt8)} (h : Delivered clientfd calls ps)
    (h' : Delivered clientfd calls qs) : ps = qs := by
  unfold Delivered at h h'
  generalize calls.filter Call.isPush = pushes at h h'
  induction h generalizing qs with
  | nil =>
    cases h'
    rfl
  | @cons call p _ _ hp _ ih =>
    cases h' with
    | @cons _ q _ _ hq hrest =>
      obtain ⟨buff, rfl, hpre⟩ := hp
      obtain ⟨buff', he, hpre'⟩ := hq
      simp only [Call.pushRecvBuffToQueue.injEq, true_and, Nat.cast_inj] at he
      obtain ⟨rfl, hlen⟩ := he
      have hpq : p <+: q := List.prefix_of_prefix_length_le hpre hpre' hlen.le
      rw [hpq.eq_of_length hlen, ih hrest]

theorem declared_eq {n : Int} (h : Decimal.scan (lenField w) = some n) : declared o w = n := by
  rw [declared, h]
  rfl

/-- A frame whose header comes in two chunks, and behind it the beginning of another, of which the
last byte is thrown away. -/
def splicing : List (List UInt8) :=
  [[0x01], [0x30, 0x30, 0x30, 0x31, 0x7D, 0x01, 0x30, 0x30, 0x30, 0x33, 0x61, 0x62], [0x63, 0x64]]

theorem splicing_feeds : ∃ outs o, Feeds 7 .zero splicing outs o ∧
    Delivered 7 outs.flatten [[0x7D], [0x61, 0x63, 0x64]] := by
  have hscan₂ : Decimal.scan [0x30, 0x30, 0x30, 0x31] = some 1 := by decide
  have hscan₃ : Decimal.scan [0x30, 0x30, 0x30, 0x33] = some 3 := by decide
  have hdecl₂ (o : StickDismantleOptions) : declared o
      [0x01, 0x30, 0x30, 0x30, 0x31, 0x7D, 0x01, 0x30, 0x30, 0x30, 0x33, 0x61, 0x62] = 1 :=
    declared_eq hscan₂
  have hdecl₃ (o : StickDismantleOptions) :
      declared o [0x01, 0x30, 0x30, 0x30, 0x33, 0x61] = 3 := declared_eq hscan₃
  -- the first byte of the header is kept
  obtain ⟨data₁, hwrite₁, hw₁⟩ := copy_in (c := [0x01])
    (Block.holds_nil StickDismantleOptions.zero.data) rfl (by decide)
  have hpass₁ : startPass 7 ⟨⟨0, 0, 0, data₁⟩, 1⟩ = some ⟨[], .leave (0, ⟨0, 1, 0, data₁⟩)⟩ :=
    startPass_other 7 hw₁ (by simp) rfl (.inr (by decide : (1 : Int) < 5))
  have hfirst := receives_of_pass (by decide) hwrite₁ hpass₁
  -- the frame is taken out of the second chunk, counted one byte too short
  obtain ⟨data₂, hwrite₂, hw₂⟩ := copy_in (o := ⟨0, 1, 0, data₁⟩)
    (c := [0x30, 0x30, 0x30, 0x31, 0x7D, 0x01, 0x30, 0x30, 0x30, 0x33, 0x61, 0x62])
    hw₁.holds rfl (by decide)
  replace hw₂ : Window ⟨⟨0, 1, 0, data₂⟩, 12⟩
    [0x01, 0x30, 0x30, 0x30, 0x31, 0x7D, 0x01, 0x30, 0x30, 0x30, 0x33, 0x61, 0x62] := hw₂
  have h12 : (5 : Int) ≤ 12 := by decide
  obtain ⟨data₃, hpass₂, hh₃⟩ := protocolStart_dismantle 7 hw₂ h12
    (hdecl₂ _ ▸ by decide) (hdecl₂ _ ▸ (by decide : (1 : Int) < 12 - 5))
  rw [← startPass_start 7 hw₂ rfl h12 rfl] at hpass₂
  simp only [hdecl₂] at hpass₂ hh₃
  have hw₃ : Window ⟨⟨0, 0, 1, data₃⟩, 6⟩ [0x01, 0x30, 0x30, 0x30, 0x33, 0x61] := ⟨hh₃, rfl⟩
  have h6 : (5 : Int) ≤ 6 := by decide
  have hpass₃ : protocolStart 7 _ 6 = _ := protocolStart_stick hw₃ h6
    (hdecl₃ _ ▸ (by decide : (6 : Int) - 5 < 3))
  rw [← startPass_start 7 hw₃ rfl h6 rfl] at hpass₃
  simp only [hdecl₃] at hpass₃
  have hsecond : Receives 7 ⟨0, 1, 0, data₁⟩ _ ⟨2, 6, 3, data₃⟩ _ :=
    (receives_iff (by decide)).mpr ⟨data₂, 0, hwrite₂, .jump hpass₂ (.leave hpass₃)⟩
  -- what is missing of the second payload is taken from the third chunk
  obtain ⟨data₄, hwrite₄, hw₄⟩ := copy_in (o := ⟨2, 6, 3, data₃⟩) (c := [0x63, 0x64])
    hw₃.holds rfl (by decide)
  have hpass₄ : startPass 7 ⟨⟨2, 6, 3, data₄⟩, 2⟩ = _ :=
    (startPass_continue 7 hw₄ (by simp) (by decide : (0 : Int) < 2)).trans
      (protocolContinue_exact rfl)
  have hthird := receives_of_pass (by decide) hwrite₄ hpass₄
  refine ⟨_, _, .cons hfirst (.cons hsecond (.cons hthird (.nil _))), ?_⟩
  have hpush₂ := push_framed (o := ⟨0, 1, 1, data₂⟩) 7 hw₂.holds (by decide : (0 : Int) ≤ 1)
    (by decide : (1 : Int) + 5 ≤ 13)
  have hpush₃ := push_framed (o := ⟨2, 6, 3, data₄⟩) 7 hw₄.holds (by decide : (0 : Int) ≤ 3)
    (by decide : (3 : Int) + 5 ≤ 8)
  exact ((delivered_sscanf _).append hpush₂).append ((delivered_sscanf _).append hpush₃)

/-- Without its last condition this fails: the second payload handed on has a gap. -/
theorem payloads_received_splicing : ∃ outs o ps kept, Feeds 7 .zero splicing outs o ∧
    Delivered 7 outs.flatten ps ∧ Scattered Framed ps kept ∧ kept.Sublist splicing.flatten ∧
    ¬ Scattered Framed ps splicing.flatten := by
  obtain ⟨outs, o, hf, hd⟩ := splicing_feeds
  obtain ⟨ps, kept, hd', hscattered, hsub, -⟩ :=
    payloads_received 7 splicing outs o hf (by decide) hd.sound
  refine ⟨outs, o, ps, kept, hf, hd', hscattered, hsub, fun h => ?_⟩
  obtain rfl := hd.unique hd'
  obtain ⟨u, himage, hin⟩ := h.exists_image (List.mem_cons_of_mem _ (List.mem_singleton_self _))
  obtain ⟨field, -, -, rfl⟩ := himage
  have hpart : [0x61, 0x63, 0x64] <:+: splicing.flatten :=
    (List.suffix_append (protocolHead :: field) [0x61, 0x63, 0x64]).isInfix.trans hin
  revert hpart
  decide

end RTPVoice.ClientObj
