import RTPVoice.ClientObj.Delivery
import RTPVoice.MyProtocol.SendData

namespace RTPVoice.MyProtocol

open Framework Framework.Framing ClientObj

/-- A document as `Json::StyledWriter` ends it, of a size that fits one `recv` with its header. -/
structure Document (s : List UInt8) : Prop where
  lo : 100 ≤ s.length
  hi : s.length ≤ 508
  nul : ∀ b ∈ s, b ≠ 0
  ending : [0x7D, 0x0A] <:+ s

/-- The bytes handed to `PhySocketSendData` for the document `s`. -/
def wireImage (peer : HSocket) (clientmap : List SocketParams) (s : List UInt8) : List UInt8 :=
  ((sendDataToTheThirdParty peer s clientmap).getD []).flatMap Prod.snd

variable {peer : HSocket} {clientmap : List SocketParams} {s : List UInt8}
  {ss chunks : List (List UInt8)}

theorem Document.fits (h : Document s) : Fits s :=
  ⟨le_trans (by decide) h.lo, h.hi.trans (by decide)⟩

theorem Document.last (h : Document s) : s.getLast? = some 0x0A := by
  obtain ⟨t, rfl⟩ := h.ending
  simp

theorem Document.wireImage_eq (h : Document s) (hpeer : peer ≠ 0) (hvalid : peer ≠ invalidSocket) :
    wireImage peer clientmap s = frame s := by
  rw [wireImage, sendDataToTheThirdParty_single hpeer hvalid h.lo (h.hi.trans (by decide)) h.nul]
  simp [frame]

/-- The decoder undoes the encoder precisely when every document that does not come in one chunk
comes with its last byte at the end of a chunk. -/
theorem documents_round_trip_iff (clientfd peer : HSocket) (clientmap : List SocketParams)
    (ss chunks : List (List UInt8)) (hpeer : peer ≠ 0) (hvalid : peer ≠ invalidSocket)
    (hss : ∀ s ∈ ss, Document s) (hwhole : chunks.flatten = stream (wireImage peer clientmap) ss)
    (hsizes : ∀ c ∈ chunks, 1 ≤ c.length ∧ c.length ≤ 512)
    (hheader : ∀ k, ¬ InHeader (wireImage peer clientmap) 5 ss (offset chunks k)) :
    (∃ outs, HandsOver clientfd ss chunks outs) ↔
      ∀ j < ss.length, (∃ k, start (wireImage peer clientmap) ss j < offset chunks k ∧
          offset chunks k < start (wireImage peer clientmap) ss (j + 1)) →
        ∃ k, offset chunks k = start (wireImage peer clientmap) ss (j + 1) := by
  have himage : ∀ s ∈ ss, wireImage peer clientmap s = frame s :=
    fun s hs => (hss s hs).wireImage_eq hpeer hvalid
  have hstart (j : Nat) : start (wireImage peer clientmap) ss j = start frame ss j :=
    start_congr himage j
  have hcut : Cutting ss chunks :=
    ⟨fun s hs => (hss s hs).fits, hwhole.trans (stream_congr himage), hsizes⟩
  have hnocut : ∀ j < ss.length, ¬ HeaderCut ss chunks j := by
    intro j hj hcut
    obtain ⟨k, hlo, hhi⟩ := hcut
    exact hheader k ⟨j, hj, by rwa [hstart], by rwa [hstart]⟩
  rw [hands_over_iff clientfd hcut hnocut]
  simp only [hstart]
  constructor
  · intro h j hj hsplit
    have hlast := (hss ss[j] (List.getElem_mem hj)).last
    refine ((h j ss[j] (List.getElem?_eq_getElem hj)).split (hnocut j hj) hsplit).resolve_right ?_
    rw [hlast]
    decide
  · intro h j s hs
    have hj := (List.getElem?_eq_some_iff.mp hs).1
    exact ⟨fun hc => absurd hc (hnocut j hj), fun _ hsplit => .inl (h j hj hsplit)⟩

/-- The shortest document of its kind. -/
theorem document_shortest : Document (List.replicate 98 0x61 ++ [0x7D, 0x0A]) :=
  ⟨by decide, by decide, by decide +kernel, List.suffix_append _ _⟩

/-- Two documents, the first in two chunks, the second behind it: the first is taken for a loss. -/
theorem documents_lost : ∃ (s : List UInt8) (chunks : List (List UInt8)),
    s = List.replicate 98 0x61 ++ [0x7D, 0x0A] ∧
    chunks = [(wireImage 7 [] s).take 50, (wireImage 7 [] s).drop 50 ++ wireImage 7 [] s] ∧
    (∀ t ∈ [s, s], Document t) ∧ chunks.flatten = stream (wireImage 7 []) [s, s] ∧
    (∀ c ∈ chunks, 1 ≤ c.length ∧ c.length ≤ 512) ∧
    (∀ k, ¬ InHeader (wireImage 7 []) 5 [s, s] (offset chunks k)) ∧
    ¬ ∃ outs, HandsOver 9 [s, s] chunks outs := by
  refine ⟨_, _, rfl, rfl, ?_⟩
  have hdoc := document_shortest
  have hlen : (List.replicate 98 (0x61 : UInt8) ++ [0x7D, 0x0A]).length = 100 := rfl
  generalize List.replicate 98 (0x61 : UInt8) ++ [0x7D, 0x0A] = s at hdoc hlen ⊢
  have himage : wireImage 7 [] s = frame s := hdoc.wireImage_eq (by decide) (by decide)
  have hframe : (frame s).length = 105 := by rw [frame_length hdoc.fits.le, hlen]
  have hoff (k : Nat) : offset [(frame s).take 50, (frame s).drop 50 ++ frame s] (k + 2) = 210 := by
    simp [offset, hframe]
  have hoff1 : offset [(frame s).take 50, (frame s).drop 50 ++ frame s] 1 = 50 := by
    simp [offset, hframe]
  have hwhole : [(frame s).take 50, (frame s).drop 50 ++ frame s].flatten =
      stream frame [s, s] := by
    simp only [List.flatten_cons, List.flatten_nil, List.append_nil, stream_cons, stream_nil,
      ← List.append_assoc, List.take_append_drop]
  have hsizes : ∀ c ∈ [(frame s).take 50, (frame s).drop 50 ++ frame s],
      1 ≤ c.length ∧ c.length ≤ 512 := by
    simp [hframe]
  have hdocs : ∀ t ∈ [s, s], Document t := by simpa using hdoc
  have hheader (k : Nat) : ¬ InHeader frame 5 [s, s]
      (offset [(frame s).take 50, (frame s).drop 50 ++ frame s] k) := by
    intro hin
    obtain ⟨j, hj, hlo, hhi⟩ := hin
    obtain rfl | rfl : j = 0 ∨ j = 1 := by
      simp only [List.length_cons, List.length_nil] at hj
      omega
    all_goals
      rcases k with _ | _ | k
      · simp at hlo
      · simp [hoff1, hframe] at hlo hhi
      · simp [hoff, hframe] at hlo hhi
  have hagree : ∀ t ∈ [s, s], wireImage 7 [] t = frame t := by simpa using himage
  refine ⟨hdocs, by rw [himage, hwhole, stream_congr hagree], by rwa [himage], fun k => ?_, ?_⟩
  · intro hin
    obtain ⟨j, hj, hlo, hhi⟩ := hin
    rw [start_congr hagree, himage] at hlo hhi
    exact hheader k ⟨j, hj, hlo, hhi⟩
  · rw [himage]
    intro h
    have hcut : Cutting [s, s] [(frame s).take 50, (frame s).drop 50 ++ frame s] :=
      ⟨fun t ht => (hdocs t ht).fits, hwhole, hsizes⟩
    have hnocut : ∀ j < [s, s].length, ¬ HeaderCut [s, s]
        [(frame s).take 50, (frame s).drop 50 ++ frame s] j := by
      intro j hj hheadercut
      obtain ⟨k, hlo, hhi⟩ := hheadercut
      exact hheader k ⟨j, hj, hlo, hhi⟩
    have hpass := (hands_over_iff 9 hcut hnocut).mp h 0 s rfl
    have hend : start frame [s, s] (0 + 1) = 105 := by simp [hframe]
    rcases hpass.split (hnocut 0 (by simp)) ⟨1, by rw [hoff1]; simp, by omega⟩ with ⟨k, hk⟩ | hb
    · rw [hend] at hk
      rcases k with _ | _ | k
      · simp at hk
      · exact absurd (hoff1.symm.trans hk) (by decide)
      · simp [hoff] at hk
    · rw [hdoc.last] at hb
      exact absurd hb (by decide)

/-- One document in two chunks. -/
theorem documents_round_trip_iff_single : ∃ outs, HandsOver 9
    [List.replicate 98 0x61 ++ [0x7D, 0x0A]]
    [(wireImage 7 [] (List.replicate 98 0x61 ++ [0x7D, 0x0A])).take 50,
      (wireImage 7 [] (List.replicate 98 0x61 ++ [0x7D, 0x0A])).drop 50] outs := by
  have hdoc := document_shortest
  have hlen : (List.replicate 98 (0x61 : UInt8) ++ [0x7D, 0x0A]).length = 100 := rfl
  generalize List.replicate 98 (0x61 : UInt8) ++ [0x7D, 0x0A] = s at hdoc hlen ⊢
  have himage : (wireImage 7 [] s).length = 105 := by
    rw [hdoc.wireImage_eq (by decide) (by decide), frame_length hdoc.fits.le, hlen]
  have hoff (k : Nat) :
      offset [(wireImage 7 [] s).take 50, (wireImage 7 [] s).drop 50] (k + 2) = 105 := by
    simp [offset, himage]
  refine (documents_round_trip_iff 9 7 [] [s] _ (by decide) (by decide) (by simpa using hdoc)
    (by simp) (by simp [himage]) ?_).mpr ?_
  · intro k hin
    obtain ⟨j, hj, hlo, hhi⟩ := hin
    obtain rfl : j = 0 := by simpa using hj
    rcases k with _ | _ | k
    · simp at hlo
    · simp [offset, himage] at hhi
    · simp [hoff] at hhi
  · intro j hj _
    obtain rfl : j = 0 := by simpa using hj
    exact ⟨2, by simp [hoff 0, himage]⟩

end RTPVoice.MyProtocol
