import RTPVoice.ClientObj.CallStep

namespace RTPVoice.ClientObj

open Framework Framework.Framing

variable {ps chunks : List (List UInt8)} {k j : Nat} {m : Mode} {p w : List UInt8}

/-! ### Where chunks end -/

/-- A chunk boundary lies strictly inside the header of frame `j`. -/
def HeaderCut (ps chunks : List (List UInt8)) (j : Nat) : Prop :=
  ∃ k, start frame ps j < offset chunks k ∧ offset chunks k < start frame ps j + 5

/-- A chunk boundary lies strictly inside frame `j`. -/
def Split (ps chunks : List (List UInt8)) (j : Nat) : Prop :=
  ∃ k, start frame ps j < offset chunks k ∧ offset chunks k < start frame ps (j + 1)

/-- Chunk `k` has fewer than five bytes. -/
def Short (chunks : List (List UInt8)) (k : Nat) : Prop :=
  offset chunks (k + 1) < offset chunks k + 5

/-- Of the chunks that begin behind the first byte of frame `j`, the first of five bytes or more. -/
def ReadAt (ps chunks : List (List UInt8)) (j k : Nat) : Prop :=
  start frame ps j < offset chunks k ∧ ¬ Short chunks k ∧
    ∀ i < k, start frame ps j < offset chunks i → Short chunks i

/-- The chunk in which the cut header is read ends before the frame, and the one with the end of
the frame goes on behind it for more bytes than came before the header was read. -/
def Recovers (ps chunks : List (List UInt8)) (j : Nat) : Prop :=
  ∃ k i, ReadAt ps chunks j k ∧ k < i ∧ offset chunks i < start frame ps (j + 1) ∧
    start frame ps (j + 1) + offset chunks k < offset chunks (i + 1) + start frame ps j

/-- The chunk boundaries let frame `j`, of payload `p`, through. -/
structure Passes (ps chunks : List (List UInt8)) (j : Nat) (p : List UInt8) : Prop where
  cut : HeaderCut ps chunks j → Recovers ps chunks j ∧ p.getLast? = some 0x7D
  split : ¬ HeaderCut ps chunks j → Split ps chunks j →
    (∃ k, offset chunks k = start frame ps (j + 1)) ∨ p.getLast? = some 0x7D

theorem ReadAt.unique {i : Nat} (h : ReadAt ps chunks j k) (h' : ReadAt ps chunks j i) : k = i := by
  rcases lt_trichotomy k i with hlt | rfl | hgt
  · exact absurd (h'.2.2 k hlt h.1) h.2.1
  · rfl
  · exact absurd (h.2.2 i hgt h'.1) h'.2.1

/-- A frame within one chunk is not cut. -/
theorem not_split (h : offset chunks k ≤ start frame ps j)
    (h' : start frame ps (j + 1) ≤ offset chunks (k + 1)) : ¬ Split ps chunks j := by
  intro hsplit
  obtain ⟨i, h1, h2⟩ := hsplit
  cases Nat.lt_or_ge k i with
  | inl hi =>
    have hle : offset chunks (k + 1) ≤ offset chunks i := offset_mono chunks hi
    omega
  | inr hi =>
    have hle := offset_mono chunks hi
    omega

theorem HeaderCut.split (h : HeaderCut ps chunks j)
    (h5 : start frame ps j + 5 ≤ start frame ps (j + 1)) : Split ps chunks j := by
  obtain ⟨i, h1, h2⟩ := h
  exact ⟨i, h1, by omega⟩

theorem passes_of_whole (h5 : start frame ps j + 5 ≤ start frame ps (j + 1))
    (h : offset chunks k ≤ start frame ps j)
    (h' : start frame ps (j + 1) ≤ offset chunks (k + 1)) : Passes ps chunks j p :=
  ⟨fun hc => absurd (hc.split h5) (not_split h h'), fun _ hs => absurd hs (not_split h h')⟩

/-- The chunk with the end of frame `j` is the only one. -/
theorem end_unique {i : Nat} {e : Nat} (h : offset chunks k < e) (h' : e ≤ offset chunks (k + 1))
    (hi : offset chunks i < e) (hi' : e ≤ offset chunks (i + 1)) : i = k := by
  rcases lt_trichotomy i k with hlt | rfl | hgt
  · have hle : offset chunks (i + 1) ≤ offset chunks k := offset_mono chunks hlt
    omega
  · rfl
  · have hle : offset chunks (k + 1) ≤ offset chunks i := offset_mono chunks hgt
    omega

/-! ### What is known between two calls -/

/-- How the mode in front of chunk `k` came about, `j` frames being handed on. -/
def Trace (ps chunks : List (List UInt8)) (j k : Nat) : Mode → Prop
  | .idle => True
  | .held => HeaderCut ps chunks j ∧ ∀ i < k, start frame ps j < offset chunks i → Short chunks i
  | .stuck h => if h = 0 then ¬ HeaderCut ps chunks j else
      HeaderCut ps chunks j ∧ ∃ i < k, ReadAt ps chunks j i ∧ offset chunks i = start frame ps j + h

variable {c : List UInt8}

theorem trace_next (ht : Trace ps chunks j k m) (hm : m ≠ .idle) (hw : w ≠ [])
    (hk : offset chunks k = start frame ps j + w.length)
    (hc : offset chunks (k + 1) = offset chunks k + c.length) :
    Trace ps chunks j (k + 1) (m.next w c) := by
  have hpos : 0 < w.length := List.length_pos_iff.mpr hw
  cases m with
  | idle => exact absurd rfl hm
  | held =>
    obtain ⟨hcut, hshort⟩ := ht
    by_cases h5 : c.length < 5
    · rw [Mode.next, if_pos h5]
      refine ⟨hcut, fun i hi hs => ?_⟩
      rcases Nat.lt_succ_iff_lt_or_eq.mp hi with hlt | rfl
      · exact hshort i hlt hs
      · simp only [Short, hc]
        omega
    · rw [Mode.next, if_neg h5, Trace, if_neg (by omega)]
      refine ⟨hcut, k, k.lt_succ_self, ⟨by omega, ?_, hshort⟩, hk⟩
      simp only [Short, hc]
      omega
  | stuck h =>
    rw [Mode.next]
    by_cases h0 : h = 0
    · rw [Trace, if_pos h0] at ht ⊢
      exact ht
    · rw [Trace, if_neg h0] at ht ⊢
      obtain ⟨hcut, i, hi, hread⟩ := ht
      exact ⟨hcut, i, hi.trans k.lt_succ_self, hread⟩

theorem trace_rest (hle : offset chunks k ≤ start frame ps j)
    (hk : offset chunks (k + 1) = start frame ps j + w.length) :
    Trace ps chunks j (k + 1) (restMode w) := by
  by_cases h0 : w = []
  · rw [restMode, if_pos h0]
    trivial
  have hpos : 0 < w.length := List.length_pos_iff.mpr h0
  by_cases h5 : w.length < 5
  · rw [restMode, if_neg h0, if_pos h5]
    refine ⟨⟨k + 1, by omega, by omega⟩, fun i hi hs => ?_⟩
    have hmono := offset_mono chunks (Nat.lt_succ_iff.mp hi)
    omega
  · rw [restMode, if_neg h0, if_neg h5, Trace, if_pos rfl]
    intro hread
    obtain ⟨i, h1, h2⟩ := hread
    cases Nat.lt_or_ge k i with
    | inl hi =>
      have hmono : offset chunks (k + 1) ≤ offset chunks i := offset_mono chunks hi
      omega
    | inr hi =>
      have hmono := offset_mono chunks hi
      omega

/-- A frame the parser finishes with the chunk that completes it passes. -/
theorem passes_first (ht : Trace ps chunks j k m) (hf : m.Finishes p w c) (hm : m ≠ .idle)
    (hk : offset chunks k = start frame ps j + w.length)
    (hc : offset chunks (k + 1) = offset chunks k + c.length)
    (hend : start frame ps (j + 1) = start frame ps j + (frame p).length)
    (hw : w.length < (frame p).length) : Passes ps chunks j p := by
  cases m with
  | idle => exact absurd rfl hm
  | held => exact absurd hf not_false
  | stuck h =>
    by_cases h0 : h = 0
    · rw [Trace, if_pos h0] at ht
      refine ⟨fun hcut => absurd hcut ht, fun _ _ => ?_⟩
      rcases hf with ⟨-, heq⟩ | ⟨-, hb⟩
      · exact .inl ⟨k + 1, by omega⟩
      · exact .inr hb
    · rw [Trace, if_neg h0] at ht
      obtain ⟨hcut, i, hi, hread, hoff⟩ := ht
      rcases hf with ⟨rfl, -⟩ | ⟨hgt, hb⟩
      · exact absurd rfl h0
      · exact ⟨fun _ => ⟨⟨i, k, hread, hi, by omega, by omega⟩, hb⟩, fun hn => absurd hcut hn⟩

/-- A frame the parser does not finish with the chunk that completes it does not pass. -/
theorem not_passes (ht : Trace ps chunks j k m) (hf : ¬ m.Finishes p w c) (hne : w ≠ [])
    (hk : offset chunks k = start frame ps j + w.length)
    (hc : offset chunks (k + 1) = offset chunks k + c.length)
    (hend : start frame ps (j + 1) = start frame ps j + (frame p).length)
    (hw : w.length < (frame p).length) (hwhole : (frame p).length ≤ w.length + c.length) :
    ¬ Passes ps chunks j p := by
  have hpos : 0 < w.length := List.length_pos_iff.mpr hne
  -- the only chunk that can hold the end of the frame is chunk `k`
  have hlast : Recovers ps chunks j → ∃ i, ReadAt ps chunks j i ∧ i < k ∧
      start frame ps (j + 1) + offset chunks i < offset chunks (k + 1) + start frame ps j := by
    intro hrec
    obtain ⟨i, i', hread, hlt, hin, hover⟩ := hrec
    have hs := hread.1
    obtain rfl : i' = k := end_unique (by omega) (by omega) hin (by omega)
    exact ⟨i, hread, hlt, hover⟩
  intro hpass
  cases m with
  | idle => exact hf trivial
  | held =>
    obtain ⟨hcut, hshort⟩ := ht
    obtain ⟨i, hread, hi, -⟩ := hlast (hpass.cut hcut).1
    exact hread.2.1 (hshort i hi hread.1)
  | stuck h =>
    by_cases h0 : h = 0
    · rw [Trace, if_pos h0] at ht
      subst h0
      rcases hpass.split ht ⟨k, by omega, by omega⟩ with ⟨i, hi⟩ | hb
      · cases Nat.lt_or_ge k i with
        | inl hlt =>
          have hmono : offset chunks (k + 1) ≤ offset chunks i := offset_mono chunks hlt
          exact hf (.inl ⟨rfl, by omega⟩)
        | inr hge =>
          have hmono := offset_mono chunks hge
          omega
      · by_cases heq : w.length + c.length = (frame p).length
        · exact hf (.inl ⟨rfl, heq⟩)
        · exact hf (.inr ⟨by omega, hb⟩)
    · rw [Trace, if_neg h0] at ht
      obtain ⟨hcut, i, -, hread, hoff⟩ := ht
      obtain ⟨hrec, hb⟩ := hpass.cut hcut
      obtain ⟨i', hread', -, hover⟩ := hlast hrec
      obtain rfl := hread.unique hread'
      exact hf (.inr ⟨by omega, hb⟩)

theorem cut_of_trace (ht : Trace ps chunks j k m) (hm : m ≠ .idle) (h0 : m ≠ .stuck 0) :
    HeaderCut ps chunks j := by
  cases m with
  | idle => exact absurd rfl hm
  | held => exact ht.1
  | stuck h =>
    rw [Trace, if_neg (by rintro rfl; exact h0 rfl)] at ht
    exact ht.1

end RTPVoice.ClientObj
