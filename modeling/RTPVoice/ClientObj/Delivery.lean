import RTPVoice.ClientObj.Progress

namespace RTPVoice.ClientObj

open Framework Framework.Framing

variable {clientfd : HSocket} {ps chunks : List (List UInt8)} {outs : List (List Call)}
  {o : StickDismantleOptions} {k j : Nat} {m : Mode} {w : List UInt8}

/-- The calls on `chunks` hand on `ps`: each payload once, unchanged and in order. -/
def HandsOver (clientfd : HSocket) (ps chunks : List (List UInt8)) (outs : List (List Call)) :
    Prop :=
  (∃ o, Feeds clientfd .zero chunks outs o) ∧ Delivered clientfd outs.flatten ps

/-- No payload is handed on later than in the call whose chunk has its last byte. -/
def InTime (clientfd : HSocket) (ps chunks : List (List UInt8)) (outs : List (List Call)) : Prop :=
  ∀ k ≤ chunks.length, ∃ qs, Delivered clientfd (outs.take k).flatten qs ∧
    completed frame ps (offset chunks k) <+: qs

theorem Through.completed (h : Through clientfd ps chunks k outs o j m w)
    (hcut : Cutting ps chunks) :
    Framing.completed frame ps (offset chunks k) = ps.take j := by
  rw [h.position]
  exact completed_start fun p ps' hd =>
    (hd ▸ h.rests).length_lt (hcut.fits p (List.mem_of_mem_drop (hd ▸ List.mem_cons_self))).le

/-- If every frame passes, the calls hand on exactly the completed frames, chunk by chunk. -/
theorem hands_over (clientfd : HSocket) (hcut : Cutting ps chunks)
    (hpass : ∀ j p, ps[j]? = some p → Passes ps chunks j p) :
    ∃ outs o, Feeds clientfd .zero chunks outs o ∧ Idle o ∧ ∀ k ≤ chunks.length,
      Delivered clientfd (outs.take k).flatten (completed frame ps (offset chunks k)) := by
  have hthrough (k : Nat) (hk : k ≤ chunks.length) :
      ∃ outs o j m w, Through clientfd ps chunks k outs o j m w := by
    rcases through_or_fails clientfd hcut hk with h | ⟨i, j, hf⟩
    · exact h
    · obtain ⟨p, hp, hn⟩ := hf.payload
      exact absurd (hpass j p hp) hn
  obtain ⟨outs, o, j, m, w, hall⟩ := hthrough chunks.length le_rfl
  have hfeeds := hall.feeds
  rw [List.take_length] at hfeeds
  refine ⟨outs, o, hfeeds, (hall.all hcut).2, fun k hk => ?_⟩
  obtain ⟨outs', o', j', m', w', h⟩ := hthrough k hk
  obtain ⟨o₁, hfirst, -⟩ := hfeeds.take k
  obtain ⟨rfl, -⟩ := h.feeds.unique (fun c hc => hcut.small c (List.mem_of_mem_take hc)) hfirst
  rw [h.completed hcut]
  exact h.delivered

theorem Delivered.length_eq {calls : List Call} {qs : List (List UInt8)}
    (h : Delivered clientfd calls ps) (h' : Delivered clientfd calls qs) : ps.length = qs.length :=
  (List.Forall₂.length_eq h).symm.trans (List.Forall₂.length_eq h')

/-- A failed frame is late, or bytes are missing for the frames behind it. -/
theorem Fails.late (hf : Fails clientfd ps chunks k j) (hcut : Cutting ps chunks)
    (h : HandsOver clientfd ps chunks outs) :
    HeaderCut ps chunks j ∧ ¬ InTime clientfd ps chunks outs := by
  obtain ⟨⟨o, hfeeds⟩, hd⟩ := h
  obtain ⟨o₁, h₁, h₂⟩ := hfeeds.take (k + 1)
  have hflat : (outs.take (k + 1)).flatten ++ (outs.drop (k + 1)).flatten = outs.flatten := by
    rw [← List.flatten_append, List.take_append_drop]
  have hsound := hd.sound
  rw [← hflat, sound_append] at hsound
  have hsizes : ∀ c ∈ chunks, c ≠ [] ∧ c.length ≤ bufLength :=
    fun c hc => ⟨List.length_pos_iff.mp (hcut.sizes c hc).1, hcut.small c hc⟩
  obtain ⟨hb, -⟩ := feeds_books h₁ bookkeeping_zero
    (fun c hc => hsizes c (List.mem_of_mem_take hc)) hsound.1
  obtain ⟨-, hrest⟩ := feeds_books h₂ hb (fun c hc => hsizes c (List.mem_of_mem_drop hc)) hsound.2
  have hcost := hd.cost (fun p hp => (hcut.fits p hp).le)
  have hbytes : offset chunks (k + 1) + (chunks.drop (k + 1)).flatten.length =
      (stream frame ps).length := by
    rw [← hcut.whole, offset, ← List.length_append, ← List.flatten_append, List.take_append_drop]
  rw [← hflat, cost_append] at hcost
  rcases hf.calls _ _ h₁ hsound.1 with ⟨hheader, hearly, hend⟩ | hlost
  · refine ⟨hheader, fun htime => ?_⟩
    obtain ⟨qs, hqs, hpre⟩ := htime (k + 1) hf.inside
    obtain ⟨p, hp, -⟩ := hf.payload
    have hj : j < ps.length := (List.getElem?_eq_some_iff.mp hp).1
    have hdone : ps.take (j + 1) <+: completed frame ps (offset chunks (k + 1)) := by
      have hstart : completed frame ps (start frame ps (j + 1) + 0) = ps.take (j + 1) :=
        completed_start fun q qs hd => by
          have := frame_length (hcut.fits q (List.mem_of_mem_drop (hd ▸ List.mem_cons_self))).le
          omega
      rw [← hstart]
      exact completed_prefix_of_le hend
    have hle := (hdone.trans hpre).length_le
    have heq := hearly.length_eq hqs
    simp only [List.length_take] at hle heq
    omega
  · omega

/-- Handing everything over in time is decided by where the chunks end. -/
theorem hands_over_in_time_iff (clientfd : HSocket) (hcut : Cutting ps chunks) :
    (∃ outs, HandsOver clientfd ps chunks outs ∧ InTime clientfd ps chunks outs) ↔
      ∀ j p, ps[j]? = some p → Passes ps chunks j p := by
  constructor
  · intro h j p hp
    obtain ⟨outs, hover, htime⟩ := h
    rcases through_or_fails clientfd hcut le_rfl with ⟨_, _, _, _, _, h⟩ | ⟨i, j, hf⟩
    · have hj : j < ps.length := (List.getElem?_eq_some_iff.mp hp).1
      exact h.passes j (hj.trans_le (h.all hcut).1) p hp
    · exact absurd htime (hf.late hcut hover).2
  · intro hpass
    obtain ⟨outs, o, hfeeds, -, hd⟩ := hands_over clientfd hcut hpass
    refine ⟨outs, ⟨⟨o, hfeeds⟩, ?_⟩, fun k hk => ⟨_, hd k hk, List.prefix_rfl⟩⟩
    have hall := hd chunks.length le_rfl
    rwa [← hfeeds.length, List.take_length, hfeeds.length, offset_length, hcut.whole,
      completed_stream] at hall

/-- Without a cut header nothing can be late, so handing everything over is decided alike. -/
theorem hands_over_iff (clientfd : HSocket) (hcut : Cutting ps chunks)
    (hheader : ∀ j < ps.length, ¬ HeaderCut ps chunks j) :
    (∃ outs, HandsOver clientfd ps chunks outs) ↔
      ∀ j p, ps[j]? = some p → Passes ps chunks j p := by
  constructor
  · intro h j p hp
    obtain ⟨outs, hover⟩ := h
    have hj : j < ps.length := (List.getElem?_eq_some_iff.mp hp).1
    rcases through_or_fails clientfd hcut le_rfl with ⟨_, _, _, _, _, h⟩ | ⟨i, j', hf⟩
    · exact h.passes j (hj.trans_le (h.all hcut).1) p hp
    · obtain ⟨q, hq, -⟩ := hf.payload
      exact absurd (hf.late hcut hover).1 (hheader j' (List.getElem?_eq_some_iff.mp hq).1)
  · intro hpass
    obtain ⟨outs, hover, -⟩ := (hands_over_in_time_iff clientfd hcut).mpr hpass
    exact ⟨outs, hover⟩

/-! ### Streams of payloads that end in a brace -/

theorem Conforming.fits {limit : Nat} {p : List UInt8} (h : Conforming limit p)
    (hlimit : limit ≤ 1532) : Fits p := ⟨h.pos, h.le.trans hlimit⟩

theorem inHeader_of_headerCut {p : List UInt8} (hp : ps[j]? = some p)
    (h : HeaderCut ps chunks j) : ∃ k, InHeader frame 5 ps (offset chunks k) := by
  obtain ⟨k, h1, h2⟩ := h
  exact ⟨k, j, (List.getElem?_eq_some_iff.mp hp).1, h1, h2⟩

/-- When no header is cut the reassembly is exact: after every chunk precisely the payloads that
are complete by then were handed on, and nothing is kept at the end. -/
theorem conforming_stream_reassembled (clientfd : HSocket) (ps chunks : List (List UInt8))
    (hps : ∀ p ∈ ps, Conforming 1532 p) (hwhole : chunks.flatten = stream frame ps)
    (hsizes : ∀ c ∈ chunks, 1 ≤ c.length ∧ c.length ≤ 512)
    (hheader : ∀ k, ¬ InHeader frame 5 ps (offset chunks k)) :
    ∃ outs o, Feeds clientfd .zero chunks outs o ∧ Delivered clientfd outs.flatten ps ∧
      (∀ k ≤ chunks.length,
        Delivered clientfd (outs.take k).flatten (completed frame ps (offset chunks k))) ∧
      o.bytesRemained = 0 ∧ o.count = 0 := by
  have hcut : Cutting ps chunks := ⟨fun p hp => (hps p hp).fits le_rfl, hwhole, hsizes⟩
  have hpass : ∀ j p, ps[j]? = some p → Passes ps chunks j p := by
    intro j p hp
    constructor
    · intro hc
      obtain ⟨k, hk⟩ := inHeader_of_headerCut hp hc
      exact absurd hk (hheader k)
    · exact fun _ _ => .inr (hps p (List.mem_of_getElem? hp)).brace
  obtain ⟨outs, o, hfeeds, hidle, hd⟩ := hands_over clientfd hcut hpass
  refine ⟨outs, o, hfeeds, ?_, hd, hidle.remained, hidle.count⟩
  have hall := hd chunks.length le_rfl
  rwa [← hfeeds.length, List.take_length, hfeeds.length, offset_length, hwhole,
    completed_stream] at hall

/-- A payload begun in one chunk and ended in the next, with a second frame behind it. -/
theorem conforming_stream_reassembled_split : ∃ outs o,
    Feeds 7 .zero [[1, 0x30, 0x30, 0x30, 0x32, 0x61], [0x7D, 1, 0x30, 0x30, 0x30, 0x31, 0x7D]]
      outs o ∧ Delivered 7 outs.flatten [[0x61, 0x7D], [0x7D]] := by
  have hheader (k : Nat) : ¬ InHeader frame 5 [[0x61, 0x7D], [0x7D]] (offset ([[1, 0x30, 0x30,
      0x30, 0x32, 0x61], [0x7D, 1, 0x30, 0x30, 0x30, 0x31, 0x7D]] : List (List UInt8)) k) := by
    have h0 : start frame [[0x61, 0x7D], [0x7D]] 0 = 0 := rfl
    have h1 : start frame [[0x61, 0x7D], [0x7D]] 1 = 7 := by decide
    intro hin
    obtain ⟨j, hj, hlo, hhi⟩ := hin
    obtain rfl | rfl : j = 0 ∨ j = 1 := by
      simp only [List.length_cons, List.length_nil] at hj
      omega
    all_goals rcases k with _ | _ | k <;> simp [h0, h1, offset] at hlo hhi
  obtain ⟨outs, o, hfeeds, hd, -⟩ := conforming_stream_reassembled 7 [[0x61, 0x7D], [0x7D]]
    [[1, 0x30, 0x30, 0x30, 0x32, 0x61], [0x7D, 1, 0x30, 0x30, 0x30, 0x31, 0x7D]]
    (by decide) (by decide) (by decide) hheader
  exact ⟨outs, o, hfeeds, hd⟩

/-- With cut headers the payloads come through in time precisely when every cut header is read in a
chunk that ends inside its frame, and the chunk with the frame's end brings enough behind it. -/
theorem cut_header_delivered_iff (clientfd : HSocket) (ps chunks : List (List UInt8))
    (hps : ∀ p ∈ ps, Conforming 508 p) (hwhole : chunks.flatten = stream frame ps)
    (hsizes : ∀ c ∈ chunks, 1 ≤ c.length ∧ c.length ≤ 512) :
    (∃ outs, HandsOver clientfd ps chunks outs ∧ InTime clientfd ps chunks outs) ↔
      ∀ j < ps.length, HeaderCut ps chunks j → Recovers ps chunks j := by
  have hcut : Cutting ps chunks := ⟨fun p hp => (hps p hp).fits (by decide), hwhole, hsizes⟩
  rw [hands_over_in_time_iff clientfd hcut]
  constructor
  · exact fun h j hj hc => ((h j ps[j] (List.getElem?_eq_getElem hj)).cut hc).1
  · intro h j p hp
    have hbrace := (hps p (List.mem_of_getElem? hp)).brace
    exact ⟨fun hc => ⟨h j (List.getElem?_eq_some_iff.mp hp).1 hc, hbrace⟩,
      fun _ _ => .inr hbrace⟩

/-- One byte of the frame kept, then a header read in the chunk that also ends the frame: the
parser waits for a byte that does not come. -/
theorem cut_header_stalls : ∃ ps chunks : List (List UInt8),
    ps = [[0x7D]] ∧ chunks = [[1], [0x30, 0x30, 0x30, 0x31, 0x7D]] ∧
    (∀ p ∈ ps, Conforming 508 p) ∧ chunks.flatten = stream frame ps ∧
    (∀ c ∈ chunks, 1 ≤ c.length ∧ c.length ≤ 512) ∧ HeaderCut ps chunks 0 ∧
    ¬ ∃ outs, HandsOver 7 ps chunks outs ∧ InTime 7 ps chunks outs := by
  refine ⟨_, _, rfl, rfl, by decide, by decide, by decide, ⟨1, by decide, by decide⟩, fun h => ?_⟩
  have hcut : Cutting [[0x7D]] [[1], [0x30, 0x30, 0x30, 0x31, 0x7D]] :=
    ⟨by simp [Fits], by decide, by decide⟩
  obtain ⟨hrec, -⟩ := ((hands_over_in_time_iff 7 hcut).mp h 0 _ rfl).cut ⟨1, by decide, by decide⟩
  obtain ⟨k, i, ⟨hin, -, -⟩, hlt, hend, -⟩ := hrec
  have hstart : start frame [[0x7D]] (0 + 1) = 6 := by decide
  rw [hstart] at hend
  cases k with
  | zero => simp [offset] at hin
  | succ k =>
    obtain ⟨i, rfl⟩ : ∃ i', i = i' + 2 := ⟨i - 2, by omega⟩
    simp [offset] at hend

/-- A header cut after one byte, read in a chunk inside the frame, and a long chunk at its end. -/
theorem cut_header_delivered_iff_long : ∃ outs,
    HandsOver 7 [[0x61, 0x62, 0x7D], [0x7D]] [[1], [0x30, 0x30, 0x30, 0x33, 0x61],
      [0x62, 0x7D, 1, 0x30, 0x30, 0x30, 0x31, 0x7D]] outs ∧
    InTime 7 [[0x61, 0x62, 0x7D], [0x7D]] [[1], [0x30, 0x30, 0x30, 0x33, 0x61],
      [0x62, 0x7D, 1, 0x30, 0x30, 0x30, 0x31, 0x7D]] outs := by
  refine (cut_header_delivered_iff 7 _ _ (by decide) (by decide) (by decide)).mpr ?_
  have h0 : start frame [[0x61, 0x62, 0x7D], [0x7D]] 0 = 0 := rfl
  have h1 : start frame [[0x61, 0x62, 0x7D], [0x7D]] 1 = 8 := by decide
  intro j hj hcut
  obtain rfl | rfl : j = 0 ∨ j = 1 := by
    simp only [List.length_cons, List.length_nil] at hj
    omega
  · refine ⟨1, 2, ⟨by decide, by unfold Short; decide, ?_⟩, by decide, by decide, by decide⟩
    intro i hi hs
    obtain rfl : i = 0 := by omega
    simp [offset] at hs
  · obtain ⟨k, hlo, hhi⟩ := hcut
    rcases k with _ | _ | _ | k <;> simp [h1, offset] at hlo hhi

end RTPVoice.ClientObj
