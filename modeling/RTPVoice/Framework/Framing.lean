import Mathlib.Data.List.Infix
import Mathlib.Tactic.Common

namespace Framework.Framing

variable {α β : Type}

/-- The frames of the items, back to back. -/
def stream (frame : α → List β) (ps : List α) : List β := ps.flatMap frame

/-- The items whose frames lie wholly in the first `n` elements of the stream. -/
def completed (frame : α → List β) : List α → Nat → List α
  | [], _ => []
  | p :: ps, n =>
    if (frame p).length ≤ n then p :: completed frame ps (n - (frame p).length) else []

/-- Where the frame with index `j` begins. -/
def start (frame : α → List β) (ps : List α) (j : Nat) : Nat := (stream frame (ps.take j)).length

/-- Position `n` of the stream is strictly inside the first `hdr` elements of a frame. -/
def InHeader (frame : α → List β) (hdr : Nat) (ps : List α) (n : Nat) : Prop :=
  ∃ j < ps.length, start frame ps j < n ∧ n < start frame ps j + hdr

/-- The position of the cut in front of chunk `k`. -/
def offset (chunks : List (List β)) (k : Nat) : Nat := (chunks.take k).flatten.length

variable {frame : α → List β}

@[simp] theorem stream_nil : stream frame [] = [] := rfl

@[simp] theorem stream_cons (p : α) (ps : List α) :
    stream frame (p :: ps) = frame p ++ stream frame ps := rfl

@[simp] theorem stream_append (ps qs : List α) :
    stream frame (ps ++ qs) = stream frame ps ++ stream frame qs := List.flatMap_append

@[simp] theorem offset_zero (chunks : List (List β)) : offset chunks 0 = 0 := rfl

@[simp] theorem offset_cons (c : List β) (chunks : List (List β)) (k : Nat) :
    offset (c :: chunks) (k + 1) = c.length + offset chunks k := by
  simp [offset]

theorem offset_length (chunks : List (List β)) :
    offset chunks chunks.length = chunks.flatten.length := by
  rw [offset, List.take_length]

theorem stream_congr {frame' : α → List β} {ps : List α} (h : ∀ p ∈ ps, frame p = frame' p) :
    stream frame ps = stream frame' ps := by
  rw [stream, stream, List.flatMap_def, List.flatMap_def, List.map_congr_left h]

theorem start_congr {frame' : α → List β} {ps : List α} (h : ∀ p ∈ ps, frame p = frame' p)
    (j : Nat) : start frame ps j = start frame' ps j :=
  congrArg List.length (stream_congr fun p hp => h p (List.mem_of_mem_take hp))

theorem offset_mono (chunks : List (List β)) {i k : Nat} (h : i ≤ k) :
    offset chunks i ≤ offset chunks k := by
  have hp : chunks.take i <+: chunks.take k := List.take_prefix_take_left h
  obtain ⟨t, ht⟩ := hp
  simp [offset, ← ht]

theorem offset_succ {chunks : List (List β)} {k : Nat} (hk : k < chunks.length) :
    offset chunks (k + 1) = offset chunks k + chunks[k].length := by
  rw [offset, List.take_succ_eq_append_getElem hk, List.flatten_append, List.length_append, offset]
  simp

@[simp] theorem start_zero (ps : List α) : start frame ps 0 = 0 := rfl

@[simp] theorem start_cons (p : α) (ps : List α) (j : Nat) :
    start frame (p :: ps) (j + 1) = (frame p).length + start frame ps j := by
  simp [start]

theorem start_mono (ps : List α) {i j : Nat} (h : i ≤ j) : start frame ps i ≤ start frame ps j := by
  have hp : ps.take i <+: ps.take j := List.take_prefix_take_left h
  obtain ⟨t, ht⟩ := hp
  simp [start, ← ht]

theorem start_succ {ps ps' : List α} {p : α} {j : Nat} (h : ps.drop j = p :: ps') :
    start frame ps (j + 1) = start frame ps j + (frame p).length := by
  have hp : ps[j]? = some p := by
    rw [← List.head?_drop, h]
    rfl
  rw [start, List.take_add_one, hp]
  simp [start]

theorem start_add (frame : α → List β) {ps done ps' : List α} {j : Nat}
    (h : ps.drop j = done ++ ps') :
    ps.take (j + done.length) = ps.take j ++ done ∧ ps.drop (j + done.length) = ps' ∧
      start frame ps (j + done.length) = start frame ps j + (stream frame done).length := by
  have htake : ps.take (j + done.length) = ps.take j ++ done := by
    rw [List.take_add, h, List.take_left]
  refine ⟨htake, by rw [← List.drop_drop, h, List.drop_left], ?_⟩
  rw [start, start, htake, stream, stream, stream, List.flatMap_append, List.length_append]

theorem stream_split (ps : List α) (j : Nat) :
    stream frame ps = stream frame (ps.take j) ++ stream frame (ps.drop j) := by
  rw [← stream_append, List.take_append_drop]

theorem completed_append (ps qs : List α) (n : Nat) :
    completed frame (ps ++ qs) ((stream frame ps).length + n) = ps ++ completed frame qs n := by
  induction ps with
  | nil => simp
  | cons p ps ih =>
    have hle : (frame p).length ≤ (stream frame (p :: ps)).length + n := by
      simp only [stream_cons, List.length_append]
      omega
    have hsub : (stream frame (p :: ps)).length + n - (frame p).length =
        (stream frame ps).length + n := by
      simp only [stream_cons, List.length_append]
      omega
    rw [List.cons_append, completed, if_pos hle, hsub, ih, List.cons_append]

theorem completed_eq_nil {p : α} {ps : List α} {n : Nat} (h : n < (frame p).length) :
    completed frame (p :: ps) n = [] := by
  rw [completed, if_neg (by omega)]

@[simp] theorem completed_stream (ps : List α) :
    completed frame ps (stream frame ps).length = ps := by
  simpa [completed] using completed_append ps ([] : List α) 0

/-- At a position inside frame `j` the frames before are the complete ones. -/
theorem completed_start {ps : List α} {j n : Nat}
    (h : ∀ p ps', ps.drop j = p :: ps' → n < (frame p).length) :
    completed frame ps (start frame ps j + n) = ps.take j := by
  have happ : completed frame (ps.take j ++ ps.drop j) _ = _ :=
    completed_append (ps.take j) (ps.drop j) n
  rw [List.take_append_drop] at happ
  rw [start, happ]
  cases hd : ps.drop j with
  | nil => simp [completed]
  | cons p ps' => rw [completed_eq_nil (h p ps' hd), List.append_nil]

theorem completed_isPrefix (ps : List α) (n : Nat) : completed frame ps n <+: ps := by
  induction ps generalizing n with
  | nil => exact List.nil_prefix
  | cons p ps ih =>
    rw [completed]
    split
    · exact (List.prefix_cons_inj p).mpr (ih _)
    · exact List.nil_prefix

/-- Seeing more of the stream completes more items. -/
theorem completed_prefix_of_le {ps : List α} {n m : Nat} (h : n ≤ m) :
    completed frame ps n <+: completed frame ps m := by
  induction ps generalizing n m with
  | nil => exact List.prefix_rfl
  | cons p ps ih =>
    by_cases hn : (frame p).length ≤ n
    · rw [completed, if_pos hn, completed, if_pos (by omega)]
      exact (List.prefix_cons_inj p).mpr (ih (by omega))
    · rw [completed, if_neg hn]
      exact List.nil_prefix

theorem InHeader.head {hdr : Nat} {p : α} {ps : List α} {n : Nat} (h0 : 0 < n) (hn : n < hdr) :
    InHeader frame hdr (p :: ps) n :=
  ⟨0, by simp, by simpa using h0, by simpa using hn⟩

theorem InHeader.tail {hdr : Nat} {p : α} {ps : List α} {n : Nat} (h : InHeader frame hdr ps n) :
    InHeader frame hdr (p :: ps) ((frame p).length + n) := by
  obtain ⟨j, hj, hlo, hhi⟩ := h
  refine ⟨j + 1, by simpa using hj, ?_, ?_⟩ <;> simp only [start_cons] <;> omega

theorem InHeader.append {hdr : Nat} (qs : List α) {ps : List α} {n : Nat}
    (h : InHeader frame hdr ps n) :
    InHeader frame hdr (qs ++ ps) ((stream frame qs).length + n) := by
  induction qs with
  | nil => simpa using h
  | cons q qs ih =>
    have ht := ih.tail (p := q)
    rwa [← Nat.add_assoc, ← List.length_append, ← stream_cons] at ht

end Framework.Framing
