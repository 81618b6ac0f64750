import RTPVoice.ClientObj.Jumps

namespace RTPVoice.ClientObj

open Framework Framework.Loop

/-- No header looked at in the run leaves a negative value in `pro_length`. -/
def ScansNonnegative (clientfd : HSocket) (chunks : List (List UInt8)) : Prop :=
  ∀ t, Visits clientfd chunks t → Header t → t.option.bytesRemained = 0 → 0 ≤ declaredAt t

/-- What one pass from `t` accesses lies in `data`, and what it leaves or hands on was received. -/
structure InBounds (clientfd : HSocket) (t : AtStart) : Prop where
  /-- outside a frame `bytes_remained` is zero -/
  other : ¬ 0 < t.option.bytesRemained → t.option.bytesRemained = 0
  /-- every byte read, copied or cleared is one of `data` -/
  access : startPass clientfd t ≠ none
  index : 0 < t.option.bytesRemained → t.option.bytesRemained < t.recvLength →
    0 ≤ t.option.proLength + protocolPackageLengthSize ∧
      t.option.proLength + protocolPackageLengthSize < bufLength
  residual : ∀ es t', startPass clientfd t = some ⟨es, .jump t'⟩ →
    1 ≤ t'.recvLength ∧ t'.recvLength ≤ t.option.count + t.recvLength
  pushed : ∀ p fd buff (len : Int), startPass clientfd t = some p →
    .pushRecvBuffToQueue fd buff len ∈ p.events → 0 ≤ len ∧ 5 + len ≤ bufLength

variable {clientfd : HSocket} {s t : AtStart} {w : List UInt8} {p : StartPass} {es : List Call}

/-! ### One pass -/

private theorem protocolStart_sound (hd : 0 ≤ declaredAt s)
    (hp : protocolStart clientfd s.option s.recvLength = some p) : Sound p.events := by
  simp only [protocolStart, Option.bind_eq_bind, Option.bind_eq_some_iff] at hp
  obtain ⟨lenStr, hread, hp⟩ := hp
  rw [declaredAt, hread, Option.bind_some] at hd
  have hpush : Sound ([.sscanf lenStr] ++ [{ s.option with
      proLength := (Decimal.scan lenStr).getD s.option.proLength }.push clientfd]) :=
    sound_append.mpr ⟨sound_sscanf lenStr, sound_push hd⟩
  split at hp
  · obtain rfl := Option.some.inj hp
    exact hpush
  · split at hp
    · obtain rfl := Option.some.inj hp
      exact sound_sscanf lenStr
    · simp only [Option.bind_eq_some_iff] at hp
      obtain ⟨_, -, _, -, _, -, hp⟩ := hp
      obtain rfl := Option.some.inj hp
      exact hpush

/-- What is handed on is as long as the header or `pro_length` says. -/
theorem startPass_sound_of_declared (hlen : 0 ≤ s.option.proLength)
    (hd : Header s → s.option.bytesRemained = 0 → 0 ≤ declaredAt s)
    (hp : startPass clientfd s = some p) : Sound p.events := by
  by_cases hhead : Header s ∧ s.option.bytesRemained = 0
  · obtain ⟨hh, hr⟩ := hhead
    rw [startPass_header clientfd hh hr] at hp
    exact protocolStart_sound (hd hh hr) hp
  · cases startPass_form hp with
    | exact hh hr | stick hh hr | dismantle hh hr => exact absurd ⟨hh, hr⟩ hhead
    | exactLater | dismantleLater => exact sound_push hlen
    | stickLater | loss | short => exact sound_nil
    | clear => simp [Sound]

/-- With the books in order and no negative length read every access is in bounds. -/
theorem startPass_ne_none (hs : Ready s w)
    (hd : Header s → s.option.bytesRemained = 0 → 0 ≤ declaredAt s) :
    startPass clientfd s ≠ none := by
  have hw := hs.toWindow
  obtain ⟨p, hp, -⟩ := startPass_keeps clientfd hs fun hhead h5 hr => by
    rw [← declaredAt_eq hw h5]
    exact hd ⟨by rw [get_front hw hs.ne_nil, hhead], h5⟩ hr
  rw [hp]
  exact Option.some_ne_none p

theorem cost_nonneg {calls : List Call} (h : Sound calls) : 0 ≤ cost calls := by
  induction calls with
  | nil => exact le_rfl
  | cons call calls ih =>
    have hrest := ih fun fd buff len hm => h fd buff len (List.mem_cons_of_mem call hm)
    rw [cost_cons]
    cases call with
    | pushRecvBuffToQueue fd buff len =>
      have hlen := h fd buff len List.mem_cons_self
      simp only [Call.cost]
      omega
    | sscanf | socketClearRecvBuffer => simpa [Call.cost] using hrest

theorem push_le_cost {calls : List Call} (h : Sound calls) {fd : HSocket} {buff : List UInt8}
    {len : Int} (hm : .pushRecvBuffToQueue fd buff len ∈ calls) : len + 5 ≤ cost calls := by
  obtain ⟨before, after, rfl⟩ := List.append_of_mem hm
  obtain ⟨hbefore, hrest⟩ := sound_append.mp h
  have h₁ := cost_nonneg hbefore
  have h₂ := cost_nonneg fun fd' buff' len' hm' =>
    hrest fd' buff' len' (List.mem_cons_of_mem _ hm')
  rw [cost_append, cost_cons]
  simp only [Call.cost]
  omega

/-- The books are what keeps a pass in bounds. -/
theorem Ready.inBounds (hs : Ready s w)
    (hd : Header s → s.option.bytesRemained = 0 → 0 ≤ declaredAt s) : InBounds clientfd s := by
  have hspan := hs.span
  have hcap := hs.length_le
  have hrem := hs.book.remained
  have hlen := hs.book.length
  have hsound (p : StartPass) (hp : startPass clientfd s = some p) : Sound p.events :=
    startPass_sound_of_declared hlen hd hp
  refine ⟨fun hr => by omega, startPass_ne_none hs hd, fun hr hlt => ?_, fun es t' hp => ?_,
    fun p fd buff len hp hm => ?_⟩
  · obtain ⟨hle, hge⟩ := hs.book.inside hr
    simp only [protocolPackageLengthSize]
    omega
  · rcases startPass_books hs hp (hsound _ hp) with ⟨o, he, -⟩ | ⟨s', w', he, hr, hc, hlt, -⟩
    · cases he
    · cases he
      have hspan' := hr.span
      have hfresh := hr.fresh
      omega
  · have hle := push_le_cost (hsound p hp) hm
    refine ⟨hsound p hp fd buff len hm, ?_⟩
    rcases startPass_books hs hp (hsound p hp) with ⟨o, -, -, hc⟩ | ⟨s', w', -, -, -, -, hc⟩
    all_goals omega

/-! ### Calls and runs -/

theorem Ready.reaches (hs : Ready s w) (h : Reaches (startPass clientfd) s t)
    (hd : ∀ u, Reaches (startPass clientfd) s u → Header u → u.option.bytesRemained = 0 →
      0 ≤ declaredAt u) : ∃ v, Ready t v := by
  refine h.invariant (I := fun u => ∃ v, Ready u v) ⟨w, hs⟩ fun u u' es hu hready hp => ?_
  obtain ⟨v, hv⟩ := hready
  have hsound := startPass_sound_of_declared hv.book.length (hd u hu) hp
  rcases startPass_books hv hp hsound with ⟨o, he, -⟩ | ⟨s', w', he, hr, -⟩
  · cases he
  · cases he
    exact ⟨w', hr⟩

theorem returns_sound_of_declared {r : Int × StickDismantleOptions}
    (h : Returns (startPass clientfd) s r es) (hs : Ready s w)
    (hd : ∀ u, Reaches (startPass clientfd) s u → Header u → u.option.bytesRemained = 0 →
      0 ≤ declaredAt u) : Sound es := by
  induction h generalizing w with
  | leave h => exact startPass_sound_of_declared hs.book.length (hd _ (.refl _)) h
  | jump h _ ih =>
    have hsound := startPass_sound_of_declared hs.book.length (hd _ (.refl _)) h
    rcases startPass_books hs h hsound with ⟨o, he, -⟩ | ⟨s', w', he, hr, -⟩
    · cases he
    · cases he
      exact sound_append.mpr ⟨hsound, ih hr fun u hu => hd u (.step h hu)⟩

/-- A call that finds the books in order returns and leaves them so. -/
theorem call_consistent {o : StickDismantleOptions} {c : List UInt8} (hb : Bookkeeping o)
    (hc : c ≠ []) (hfits : o.count + c.length ≤ bufLength)
    (hd : ∀ data t, o.data.write o.count c = some data →
      Reaches (startPass clientfd) ⟨{ o with data }, c.length⟩ t → Header t →
      t.option.bytesRemained = 0 → 0 ≤ declaredAt t) :
    ∃ o' calls, Receives clientfd o c o' calls ∧ Bookkeeping o' := by
  obtain ⟨data, hwrite⟩ : ∃ data, o.data.write o.count c = some data := ⟨_, dif_pos hfits⟩
  have hready := ready_of_write hb hc hwrite
  have hhalts : Halts (startPass clientfd) ⟨{ o with data }, c.length⟩ :=
    halts_of_legible fun t ht hh hr => by
      have h0 := hd data t hwrite ht hh hr
      omega
  obtain ⟨⟨ret, o'⟩, calls, hret⟩ := hhalts.returns fun t ht => by
    obtain ⟨v, hv⟩ := hready.reaches ht (hd data · hwrite)
    exact startPass_ne_none hv (hd data t hwrite ht)
  have hsound := returns_sound_of_declared hret hready (hd data · hwrite)
  obtain ⟨hb', -⟩ := returns_books hret hready hsound
  exact ⟨o', calls, (receives_iff (by omega)).mpr ⟨data, ret, hwrite, hret⟩, hb'⟩

variable {chunks : List (List UInt8)}

theorem run_consistent (hsizes : ∀ c ∈ chunks, 1 ≤ c.length ∧ c.length ≤ recvLimit)
    (hscan : ScansNonnegative clientfd chunks) (hfits : FitsIn clientfd chunks) {k : Nat}
    (hk : k ≤ chunks.length) :
    ∃ outs o, Feeds clientfd .zero (chunks.take k) outs o ∧ Bookkeeping o := by
  induction k with
  | zero => exact ⟨[], .zero, .nil _, bookkeeping_zero⟩
  | succ k ih =>
    obtain ⟨outs, o, hf, hb⟩ := ih (by omega)
    have hpos := (hsizes chunks[k] (List.getElem_mem hk)).1
    obtain ⟨o', calls, hr, hb'⟩ := call_consistent hb (List.length_pos_iff.mp hpos)
      (hfits k hk outs o hf) fun data t hwrite ht =>
        hscan t ⟨k, hk, outs, o, data, hf, hwrite, ht⟩
    refine ⟨outs ++ [calls], o', ?_, hb'⟩
    rw [List.take_succ_eq_append_getElem hk]
    exact hf.snoc hr

/-- On any bytes, cut anywhere: while no negative length is read and every chunk fits behind the
bytes kept, every call returns with the books in order and makes no access outside `data`. -/
theorem reassembly_consistent (clientfd : HSocket) (chunks : List (List UInt8))
    (hsizes : ∀ c ∈ chunks, 1 ≤ c.length ∧ c.length ≤ recvLimit)
    (hscan : ScansNonnegative clientfd chunks) (hfits : FitsIn clientfd chunks) :
    (∀ k ≤ chunks.length, ∃ outs o, Feeds clientfd .zero (chunks.take k) outs o ∧
      0 ≤ o.bytesRemained ∧ (0 < o.bytesRemained →
        o.bytesRemained ≤ o.proLength ∧ o.proLength + 5 ≤ o.count + o.bytesRemained)) ∧
    ∀ t, Visits clientfd chunks t → InBounds clientfd t := by
  constructor
  · intro k hk
    obtain ⟨outs, o, hf, hb⟩ := run_consistent hsizes hscan hfits hk
    exact ⟨outs, o, hf, hb.remained, hb.inside⟩
  · intro t hvisit
    obtain ⟨k, hk, outs, o, data, hf, hwrite, ht⟩ := hvisit
    have hsmall : ∀ c ∈ chunks.take k, c.length ≤ bufLength :=
      fun c hc => (hsizes c (List.mem_of_mem_take hc)).2.trans (by decide)
    obtain ⟨outs', o', hf', hb⟩ := run_consistent hsizes hscan hfits hk.le
    obtain ⟨-, rfl⟩ := hf.unique hsmall hf'
    have hpos := (hsizes chunks[k] (List.getElem_mem hk)).1
    have hd (u : AtStart) (hu : Reaches (startPass clientfd) ⟨{ o with data }, chunks[k].length⟩ u)
        (hh : Header u) (hr : u.option.bytesRemained = 0) : 0 ≤ declaredAt u :=
      hscan u ⟨k, hk, outs, o, data, hf, hwrite, hu⟩ hh hr
    obtain ⟨v, hv⟩ := (ready_of_write hb (List.length_pos_iff.mp hpos) hwrite).reaches ht hd
    exact hv.inBounds (hd t ht)

/-- Four chunks, after three of which bytes of a frame are missing whose header was cut. -/
theorem reassembly_consistent_four : ∃ outs o, Feeds 7 .zero (fourChunks.take 3) outs o ∧
    o.bytesRemained = 1 ∧ o.bytesRemained ≤ o.proLength ∧
    o.proLength + 5 ≤ o.count + o.bytesRemained ∧
    ∀ t, Visits 7 fourChunks t → InBounds 7 t := by
  have hscan : ScansNonnegative 7 fourChunks :=
    fun t ht hh hr => ((visits_modest ht).declared hh hr).1
  obtain ⟨hbooks, hbounds⟩ :=
    reassembly_consistent 7 fourChunks fourChunks_sizes hscan fourChunks_fits
  obtain ⟨outs, o, hf, -, hinside⟩ := hbooks 3 (by decide)
  have hrem := fourChunks_remained hf
  obtain ⟨hle, hge⟩ := hinside (by omega)
  exact ⟨outs, o, hf, hrem, hle, hge, hbounds⟩

end RTPVoice.ClientObj
