import RTPVoice.ClientObj.Chunking

namespace RTPVoice.ClientObj

open Framework Framework.Framing

variable {clientfd : HSocket} {ps chunks : List (List UInt8)} {outs : List (List Call)}
  {o o' : StickDismantleOptions} {k j : Nat} {m : Mode} {p w : List UInt8}

/-! ### Runs of calls -/

theorem Feeds.snoc {c : List UInt8} {calls : List Call} {o₀ : StickDismantleOptions}
    (h : Feeds clientfd o₀ chunks outs o) (hc : Receives clientfd o c o' calls) :
    Feeds clientfd o₀ (chunks ++ [c]) (outs ++ [calls]) o' := by
  induction h with
  | nil o => exact .cons hc (.nil o')
  | cons h _ ih => exact .cons h (ih hc)

theorem Feeds.unique {outs' : List (List Call)} {o₀ : StickDismantleOptions}
    (hlen : ∀ c ∈ chunks, c.length ≤ bufLength) (h : Feeds clientfd o₀ chunks outs o)
    (h' : Feeds clientfd o₀ chunks outs' o') : outs = outs' ∧ o = o' := by
  induction h generalizing outs' with
  | nil =>
    cases h'
    exact ⟨rfl, rfl⟩
  | cons hc _ ih =>
    cases h' with
    | cons hc' ht' =>
      obtain ⟨rfl, rfl⟩ := hc.unique (hlen _ (by simp)) hc'
      obtain ⟨rfl, rfl⟩ := ih (fun d hd => hlen d (by simp [hd])) ht'
      exact ⟨rfl, rfl⟩

theorem Feeds.take {o₀ : StickDismantleOptions} (h : Feeds clientfd o₀ chunks outs o) (k : Nat) :
    ∃ o₁, Feeds clientfd o₀ (chunks.take k) (outs.take k) o₁ ∧
      Feeds clientfd o₁ (chunks.drop k) (outs.drop k) o := by
  induction h generalizing k with
  | nil o => exact ⟨o, by simpa using .nil o, by simpa using .nil o⟩
  | @cons o c o₁ calls cs outs o₂ hc ht ih =>
    cases k with
    | zero => exact ⟨o, .nil o, .cons hc ht⟩
    | succ k =>
      obtain ⟨o₃, h₁, h₂⟩ := ih k
      exact ⟨o₃, .cons hc h₁, h₂⟩

theorem Feeds.length {o₀ : StickDismantleOptions} (h : Feeds clientfd o₀ chunks outs o) :
    outs.length = chunks.length := by
  induction h with
  | nil => rfl
  | cons _ _ ih => simp [ih]

/-- A run whose last call is known to the call before. -/
theorem Feeds.last {c : List UInt8} {o₀ o₁ : StickDismantleOptions} {outs₁ : List (List Call)}
    (hlen : ∀ c ∈ chunks, c.length ≤ bufLength) (h₁ : Feeds clientfd o₀ chunks outs₁ o₁)
    (h : Feeds clientfd o₀ (chunks ++ [c]) outs o) :
    ∃ calls, Receives clientfd o₁ c o calls ∧ outs = outs₁ ++ [calls] := by
  induction h₁ generalizing outs with
  | nil =>
    cases h with
    | cons hc ht =>
      cases ht
      exact ⟨_, hc, rfl⟩
  | cons hc _ ih =>
    cases h with
    | cons hc' ht =>
      obtain ⟨rfl, rfl⟩ := hc.unique (hlen _ (by simp)) hc'
      obtain ⟨calls, hr, rfl⟩ := ih (fun d hd => hlen d (by simp [hd])) ht
      exact ⟨calls, hr, rfl⟩

/-! ### Progress along the stream -/

/-- After `k` chunks the first `j` payloads are handed on, and `w` of the next frame is kept. -/
structure Through (clientfd : HSocket) (ps chunks : List (List UInt8)) (k : Nat)
    (outs : List (List Call)) (o : StickDismantleOptions) (j : Nat) (m : Mode) (w : List UInt8) :
    Prop where
  feeds : Feeds clientfd .zero (chunks.take k) outs o
  delivered : Delivered clientfd outs.flatten (ps.take j)
  bytes : (chunks.take k).flatten = stream frame (ps.take j) ++ w
  rests : Rests o m (ps.drop j) w
  trace : Trace ps chunks j k m
  passes : ∀ i < j, ∀ p, ps[i]? = some p → Passes ps chunks i p

theorem Through.position (h : Through clientfd ps chunks k outs o j m w) :
    offset chunks k = start frame ps j + w.length := by
  rw [Framing.offset, h.bytes, List.length_append, start]

/-- From chunk `k` on frame `j` cannot be handed on in time and with nothing lost. -/
structure Fails (clientfd : HSocket) (ps chunks : List (List UInt8)) (k j : Nat) : Prop where
  inside : k < chunks.length
  payload : ∃ p, ps[j]? = some p ∧ ¬ Passes ps chunks j p
  calls : ∀ outs o, Feeds clientfd .zero (chunks.take (k + 1)) outs o → Sound outs.flatten →
    (HeaderCut ps chunks j ∧ Delivered clientfd outs.flatten (ps.take j) ∧
      start frame ps (j + 1) ≤ Framing.offset chunks (k + 1)) ∨
    cost outs.flatten + o.count < Framing.offset chunks (k + 1)

/-- The stream of `ps`, cut into chunks as one `recv` can return them. -/
structure Cutting (ps chunks : List (List UInt8)) : Prop where
  fits : ∀ p ∈ ps, Fits p
  whole : chunks.flatten = stream frame ps
  sizes : ∀ c ∈ chunks, 1 ≤ c.length ∧ c.length ≤ 512

theorem Cutting.small (h : Cutting ps chunks) : ∀ c ∈ chunks, c.length ≤ bufLength :=
  fun c hc => (h.sizes c hc).2.trans (by decide)

private theorem drop_of_getElem? {i : Nat} (hp : ps[i]? = some p) :
    ∃ ps', ps.drop i = p :: ps' := by
  obtain ⟨hi, rfl⟩ := List.getElem?_eq_some_iff.mp hp
  exact ⟨_, List.drop_eq_getElem_cons hi⟩

private theorem start_frame (h : Cutting ps chunks) {i : Nat} (hp : ps[i]? = some p) :
    start frame ps (i + 1) = start frame ps i + (frame p).length ∧
      (frame p).length = p.length + 5 := by
  obtain ⟨ps', hd⟩ := drop_of_getElem? hp
  exact ⟨start_succ hd, frame_length (h.fits p (List.mem_of_getElem? hp)).le⟩

/-- The bytes kept and the next chunk go on along the stream. -/
private theorem Through.prefix_frame (h : Through clientfd ps chunks k outs o j m w)
    (hcut : Cutting ps chunks) (hk : k < chunks.length) :
    w ++ chunks[k] <+: stream frame (ps.drop j) := by
  have hp : (chunks.take (k + 1)).flatten <+: chunks.flatten := by
    conv_rhs => rw [← List.take_append_drop (k + 1) chunks, List.flatten_append]
    exact List.prefix_append _ _
  rw [List.take_succ_eq_append_getElem hk, List.flatten_append, h.bytes, hcut.whole,
    stream_split ps j, List.append_assoc, List.prefix_append_right_inj] at hp
  simpa using hp

theorem through_zero : Through clientfd ps chunks 0 [] .zero 0 .idle [] :=
  ⟨.nil _, delivered_nil, rfl, .idle idle_zero, trivial, by simp⟩

private theorem Through.keeps {c : List UInt8} {calls : List Call}
    (h : Through clientfd ps chunks k outs o j m w) (hk : k < chunks.length) (hc : chunks[k] = c)
    (hr : Receives clientfd o c o' calls) (hnone : Delivered clientfd calls [])
    (hrest : Rests o' (m.next w c) (ps.drop j) (w ++ c)) (hm : m ≠ .idle) :
    Through clientfd ps chunks (k + 1) (outs ++ [calls]) o' j (m.next w c) (w ++ c) := by
  have htake : chunks.take (k + 1) = chunks.take k ++ [c] := by
    rw [List.take_succ_eq_append_getElem hk, hc]
  refine ⟨htake ▸ h.feeds.snoc hr, ?_, ?_, hrest, ?_, h.passes⟩
  · simpa using h.delivered.append hnone
  · simp [htake, h.bytes]
  · exact trace_next h.trace hm (h.rests.ne_nil hm) h.position (hc ▸ offset_succ hk)

/-- When a frame begun earlier is served, what is kept afterwards begins in the newest chunk. -/
private theorem Through.begun {c v : List UInt8} {done ps' : List (List UInt8)}
    (h : Through clientfd ps chunks k outs o j m w) (hcut : Cutting ps chunks)
    (hps : ps.drop j = done ++ ps') (hv : w ++ c = stream frame done ++ v)
    (hrest : Rests o' (restMode v) ps' v)
    (hthrough : ∃ p qs, ps.drop j = p :: qs ∧ (frame p).length ≤ w.length + c.length) :
    ∃ p, ps[j]? = some p ∧ start frame ps (j + 1) ≤ start frame ps (j + done.length) ∧
      w.length < (frame p).length ∧ (frame p).length ≤ w.length + c.length := by
  obtain ⟨p, qs, hdrop, hle⟩ := hthrough
  have hp : ps[j]? = some p := by
    rw [← List.head?_drop, hdrop]
    rfl
  have hfit := (hcut.fits p (List.mem_of_getElem? hp)).le
  have hpart := (hdrop ▸ h.rests).length_lt hfit
  refine ⟨p, hp, start_mono ps ?_, hpart, hle⟩
  cases done with
  | nil =>
    obtain rfl : ps' = p :: qs := by simpa using hps.symm.trans hdrop
    have hlt := hrest.length_lt hfit
    have hlen := congrArg List.length hv
    simp only [stream_nil, List.nil_append, List.length_append] at hlen
    omega
  | cons => simp only [List.length_cons]; omega

private theorem Through.serves {c : List UInt8} {calls : List Call}
    (h : Through clientfd ps chunks k outs o j m w) (hcut : Cutting ps chunks)
    (hk : k < chunks.length) (hc : chunks[k] = c) (hr : Receives clientfd o c o' calls)
    (hserve : Serves clientfd (ps.drop j) (w ++ c) calls o')
    (hfin : ∀ p ps', ps.drop j = p :: ps' → (frame p).length ≤ w.length + c.length →
      m.Finishes p w c)
    (hthrough : m ≠ .idle →
      ∃ p ps', ps.drop j = p :: ps' ∧ (frame p).length ≤ w.length + c.length) :
    ∃ j' m' w', Through clientfd ps chunks (k + 1) (outs ++ [calls]) o' j' m' w' := by
  have htake : chunks.take (k + 1) = chunks.take k ++ [c] := by
    rw [List.take_succ_eq_append_getElem hk, hc]
  have hnext : offset chunks (k + 1) = offset chunks k + c.length := hc ▸ offset_succ hk
  have hoff := h.position
  obtain ⟨done, ps', v, hd, hps, hv, hrest⟩ := hserve
  obtain ⟨htakej, hdropj, hstart⟩ := start_add frame hps
  have hlen := congrArg List.length hv
  simp only [List.length_append] at hlen
  have hbehind : offset chunks k ≤ start frame ps (j + done.length) := by
    by_cases hm : m = .idle
    · subst hm
      simp only [h.rests.nil_of_idle, List.length_nil] at hoff
      omega
    · obtain ⟨p, hp, hle, hlt, -⟩ := h.begun hcut hps hv hrest (hthrough hm)
      have hs := (start_frame hcut hp).1
      omega
  refine ⟨j + done.length, restMode v, v, htake ▸ h.feeds.snoc hr, ?_, ?_, hdropj ▸ hrest,
    trace_rest hbehind (by omega), ?_⟩
  · rw [htakej]
    simpa using h.delivered.append hd
  · simp only [htake, htakej, List.flatten_append, h.bytes, stream_append, List.flatten_cons,
      List.flatten_nil, List.append_nil, List.append_assoc, hv]
  · intro i hi p hp
    obtain ⟨hs, h5⟩ := start_frame hcut hp
    by_cases hij : i < j
    · exact h.passes i hij p hp
    have hmono : start frame ps (i + 1) ≤ start frame ps (j + done.length) := start_mono ps hi
    have hend : start frame ps (i + 1) ≤ offset chunks (k + 1) := by omega
    by_cases hm : m = .idle
    · subst hm
      have hle : start frame ps j ≤ start frame ps i := start_mono ps (by omega)
      simp only [h.rests.nil_of_idle, List.length_nil] at hoff
      exact passes_of_whole (by omega) (by omega) hend
    · obtain ⟨p', hp', -, hlt, hle⟩ := h.begun hcut hps hv hrest (hthrough hm)
      rcases Nat.lt_or_eq_of_le (Nat.le_of_not_lt hij) with hlt' | rfl
      · have hle' : start frame ps (j + 1) ≤ start frame ps i := start_mono ps hlt'
        have hs' := (start_frame hcut hp').1
        exact passes_of_whole (by omega) (by omega) hend
      · obtain rfl : p = p' := Option.some.inj (hp.symm.trans hp')
        obtain ⟨qs, hdrop⟩ := drop_of_getElem? hp
        exact passes_first h.trace (hfin p qs hdrop hle) hm hoff hnext hs hlt

/-- A call that neither serves nor keeps: frame `j` does not pass. -/
private theorem Through.stops {c : List UInt8} {ps' : List (List UInt8)}
    (h : Through clientfd ps chunks k outs o j m w) (hcut : Cutting ps chunks)
    (hk : k < chunks.length) (hc : chunks[k] = c) (hfirst : ps.drop j = p :: ps')
    (hwhole : (frame p).length ≤ w.length + c.length) (hlate : ¬ m.Finishes p w c) :
    m ≠ .idle ∧ (∃ p, ps[j]? = some p ∧ ¬ Passes ps chunks j p) ∧
      start frame ps (j + 1) ≤ offset chunks (k + 1) := by
  have hm : m ≠ .idle := by
    intro hidle
    subst hidle
    exact hlate trivial
  have hp : ps[j]? = some p := by
    rw [← List.head?_drop, hfirst]
    rfl
  have hnext : offset chunks (k + 1) = offset chunks k + c.length := hc ▸ offset_succ hk
  have hpos := h.position
  have hs := (start_frame hcut hp).1
  have hpart := (hfirst ▸ h.rests).length_lt (hcut.fits p (List.mem_of_getElem? hp)).le
  exact ⟨hm, ⟨p, hp, not_passes h.trace hlate (h.rests.ne_nil hm) hpos hnext hs hpart hwhole⟩,
    by omega⟩

/-- One more chunk: the calls go on along the stream, or a frame fails with it. -/
theorem Through.step (h : Through clientfd ps chunks k outs o j m w) (hcut : Cutting ps chunks)
    (hk : k < chunks.length) :
    (∃ outs o j m w, Through clientfd ps chunks (k + 1) outs o j m w) ∨
      Fails clientfd ps chunks k j := by
  have hsize := hcut.sizes chunks[k] (List.getElem_mem hk)
  have hne : chunks[k] ≠ [] := List.length_pos_iff.mp hsize.1
  have hfits : ∀ p ∈ ps.drop j, Fits p := fun p hp => hcut.fits p (List.mem_of_mem_drop hp)
  have hsmall : ∀ d ∈ chunks.take k ++ [chunks[k]], d.length ≤ bufLength := by
    rw [← List.take_succ_eq_append_getElem hk]
    exact fun d hd => hcut.small d (List.mem_of_mem_take hd)
  have hleft : ∀ d ∈ chunks.take k, d.length ≤ bufLength :=
    fun d hd => hcut.small d (List.mem_of_mem_take hd)
  cases call_step clientfd h.rests hfits hne hsize.2 (h.prefix_frame hcut hk) with
  | serves hr hserve hfin hthrough =>
    obtain ⟨j', m', w', h'⟩ := h.serves hcut hk rfl hr hserve hfin hthrough
    exact .inl ⟨_, _, j', m', w', h'⟩
  | keeps hfirst hr hnone hrest hshort hm =>
    exact .inl ⟨_, _, _, _, _, h.keeps hk rfl hr hnone hrest hm⟩
  | delays hfirst hr hnone hwhole hlate hstuck =>
    obtain ⟨hm, hp, hend⟩ := h.stops hcut hk rfl hfirst hwhole hlate
    refine .inr ⟨hk, hp, fun outs' o₁ hf _ => .inl ⟨cut_of_trace h.trace hm hstuck, ?_, hend⟩⟩
    rw [List.take_succ_eq_append_getElem hk] at hf
    obtain ⟨rfl, rfl⟩ := hf.unique hsmall (h.feeds.snoc hr)
    simpa using h.delivered.append hnone
  | loses hfirst hlose hwhole hlate =>
    obtain ⟨hm, hp, hend⟩ := h.stops hcut hk rfl hfirst hwhole hlate
    refine .inr ⟨hk, hp, fun outs' o₁ hf hsound => .inr ?_⟩
    rw [List.take_succ_eq_append_getElem hk] at hf
    obtain ⟨calls, hr, rfl⟩ := h.feeds.last hleft hf
    rw [List.flatten_append, sound_append] at hsound
    have hlt := hlose o₁ calls hr (by simpa using hsound.2)
    have hcost := h.delivered.cost
      (fun q hq => (hcut.fits q (List.mem_of_mem_take hq)).le)
    have hpos := h.position
    rw [start] at hpos
    rw [offset_succ hk, List.flatten_append, cost_append, hcost]
    simp only [List.flatten_cons, List.flatten_nil, List.append_nil]
    omega

/-- Every chunk goes through, or a frame has failed. -/
theorem through_or_fails (clientfd : HSocket) (hcut : Cutting ps chunks) (hk : k ≤ chunks.length) :
    (∃ outs o j m w, Through clientfd ps chunks k outs o j m w) ∨
      ∃ i j, Fails clientfd ps chunks i j := by
  induction k with
  | zero => exact .inl ⟨_, _, _, _, _, through_zero⟩
  | succ k ih =>
    rcases ih (by omega) with ⟨outs, o, j, m, w, h⟩ | hfail
    · exact (h.step hcut hk).imp id fun hf => ⟨k, j, hf⟩
    · exact .inr hfail

/-- At the end of the stream nothing is kept. -/
theorem Through.all (h : Through clientfd ps chunks chunks.length outs o j m w)
    (hcut : Cutting ps chunks) : ps.length ≤ j ∧ Idle o := by
  have hbytes := congrArg List.length h.bytes
  rw [List.take_length, hcut.whole, stream_split ps j, List.length_append, List.length_append]
    at hbytes
  have hrests := h.rests
  cases hd : ps.drop j with
  | nil =>
    rw [hd] at hrests
    cases hrests with
    | idle hi => exact ⟨List.drop_eq_nil_iff.mp hd, hi⟩
  | cons p ps' =>
    have hp : p ∈ ps := List.mem_of_mem_drop (hd ▸ List.mem_cons_self)
    have hlt := (hd ▸ hrests).length_lt (hcut.fits p hp).le
    rw [hd, stream_cons, List.length_append] at hbytes
    omega

end RTPVoice.ClientObj
