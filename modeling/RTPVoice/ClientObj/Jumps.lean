import Mathlib.Data.Prod.Lex
import RTPVoice.ClientObj.CopyIn

namespace RTPVoice.ClientObj

open Framework Framework.Loop

/-- The states some call of the run is in at `Start`. -/
def Visits (clientfd : HSocket) (chunks : List (List UInt8)) (t : AtStart) : Prop :=
  ∃ k, ∃ _ : k < chunks.length, ∃ outs o data, Feeds clientfd .zero (chunks.take k) outs o ∧
    o.data.write o.count chunks[k] = some data ∧
    Reaches (startPass clientfd) ⟨{ o with data }, chunks[k].length⟩ t

/-- The call on `ptr` returns, after finitely many jumps to `Start`. -/
def Terminates (clientfd : HSocket) (option : StickDismantleOptions) (ptr : List UInt8) : Prop :=
  ∃ option' calls, Receives clientfd option ptr option' calls

/-- Neither a frame of no bytes at all nor one that would end in front of `data`. -/
def Legible (s : AtStart) : Prop :=
  Header s → s.option.bytesRemained = 0 → -5 < declaredAt s

variable {clientfd : HSocket} {s t : AtStart} {o : StickDismantleOptions} {c : List UInt8}
  {es : List Call}

theorem terminates_iff_halts (hc : c.length ≤ bufLength) : Terminates clientfd o c ↔
    ∃ data, o.data.write o.count c = some data ∧
      Halts (startPass clientfd) ⟨{ o with data }, c.length⟩ ∧
      ∀ t, Reaches (startPass clientfd) ⟨{ o with data }, c.length⟩ t →
        startPass clientfd t ≠ none := by
  constructor
  · intro h
    obtain ⟨o', calls, hr⟩ := h
    obtain ⟨data, ret, hwrite, hret⟩ := (receives_iff hc).mp hr
    exact ⟨data, hwrite, returns_iff_halts.mp ⟨_, _, hret⟩⟩
  · intro h
    obtain ⟨data, hwrite, h⟩ := h
    obtain ⟨⟨ret, o'⟩, calls, hret⟩ := returns_iff_halts.mpr h
    exact ⟨o', calls, (receives_iff hc).mpr ⟨data, ret, hwrite, hret⟩⟩

/-! ### What a jump leaves to look at -/

/-- The bytes received are at the front of `data`, outside a frame. -/
structure AtFront (t : AtStart) : Prop where
  remained : t.option.bytesRemained = 0
  count : t.option.count = 0
  received : 0 ≤ t.recvLength
  span : t.recvLength ≤ bufLength

private theorem protocolStart_jump
    (hp : protocolStart clientfd s.option s.recvLength = some ⟨es, .jump t⟩) :
    AtFront t ∧ t.recvLength = s.recvLength - 5 - declaredAt s ∧ -5 ≤ declaredAt s := by
  simp only [protocolStart, Option.bind_eq_bind, Option.bind_eq_some_iff] at hp
  obtain ⟨lenStr, hread, hp⟩ := hp
  have hdecl : declaredAt s = (Decimal.scan lenStr).getD s.option.proLength := by
    rw [declaredAt, hread, Option.bind_some]
  split at hp
  · cases hp
  · split at hp
    · cases hp
    · simp only [Option.bind_eq_some_iff] at hp
      obtain ⟨rest, hrest, _, -, _, -, hp⟩ := hp
      cases hp
      obtain ⟨⟨hoff, hlen, hle⟩, -⟩ := Block.read_eq_some.mp hrest
      rw [← hdecl] at *
      exact ⟨⟨rfl, rfl, hlen, by simp only; omega⟩, rfl, by omega⟩

private theorem protocolContinue_jump
    (hp : protocolContinue clientfd s.option s.recvLength = some ⟨es, .jump t⟩) : AtFront t := by
  simp only [protocolContinue] at hp
  split at hp
  · cases hp
  · split at hp
    · cases hp
    · simp only [Option.bind_eq_bind, Option.bind_eq_some_iff] at hp
      obtain ⟨_, -, hp⟩ := hp
      split at hp
      all_goals
        simp only [Option.bind_eq_some_iff] at hp
        obtain ⟨rest, hrest, _, -, _, -, hp⟩ := hp
        cases hp
        obtain ⟨⟨hoff, hlen, hle⟩, -⟩ := Block.read_eq_some.mp hrest
        exact ⟨rfl, rfl, hlen, by simp only; omega⟩

/-- A jump is made either inside a frame, which is then over, or from a header of a frame that ends
before the bytes received do. -/
theorem startPass_jump (hp : startPass clientfd s = some ⟨es, .jump t⟩) :
    AtFront t ∧ (0 < s.option.bytesRemained ∨ Header s ∧ s.option.bytesRemained = 0 ∧
      t.recvLength = s.recvLength - 5 - declaredAt s ∧ -5 ≤ declaredAt s) := by
  simp only [startPass, Option.bind_eq_bind, Option.bind_eq_some_iff] at hp
  obtain ⟨head, hget, hp⟩ := hp
  split at hp
  · next hhead =>
    obtain ⟨rfl, h5, hr⟩ := hhead
    obtain ⟨hfront, hrecv, hdecl⟩ := protocolStart_jump hp
    exact ⟨hfront, .inr ⟨⟨hget, h5⟩, hr, hrecv, hdecl⟩⟩
  · split at hp
    · next hr =>
      exact ⟨protocolContinue_jump hp, .inl hr⟩
    · unfold protocolOther at hp
      split at hp <;> cases hp

/-- First the frame begun, then the bytes left. -/
def jumpsLeft (s : AtStart) : Nat ×ₗ Nat :=
  toLex (if 0 < s.option.bytesRemained then 1 else 0, s.recvLength.toNat)

theorem jumpsLeft_lt (hp : startPass clientfd s = some ⟨es, .jump t⟩)
    (h : Legible s) : jumpsLeft t < jumpsLeft s := by
  obtain ⟨hfront, hcase⟩ := startPass_jump hp
  have h0 := hfront.remained
  rw [jumpsLeft, jumpsLeft, Prod.Lex.toLex_lt_toLex, if_neg (by omega)]
  rcases hcase with hr | ⟨hh, hr, hrecv, hdecl⟩
  · exact .inl (by rw [if_pos hr]; exact Nat.zero_lt_one)
  · have hlt := h hh hr
    have h5 := hh.2
    exact .inr ⟨by rw [if_neg (by omega)], by simp only; omega⟩

theorem halts_of_legible (h : ∀ t, Reaches (startPass clientfd) s t → Legible t) :
    Halts (startPass clientfd) s := by
  apply halts_of_measure jumpsLeft
  intro t t' es ht hp
  exact jumpsLeft_lt hp (h t ht)

/-! ### What keeps a pass in bounds -/

/-- What the bytes kept satisfy between two calls, whatever the sign of `pro_length`. -/
structure Afloat (o : StickDismantleOptions) : Prop where
  capacity : o.count ≤ bufLength
  remained : 0 ≤ o.bytesRemained
  inside : 0 < o.bytesRemained →
    o.bytesRemained ≤ o.proLength ∧ o.proLength + 5 ≤ o.count + o.bytesRemained

/-- The same at `Start`. -/
structure AfloatAt (s : AtStart) : Prop extends Afloat s.option where
  received : 0 ≤ s.recvLength
  span : s.option.count + s.recvLength ≤ bufLength

theorem afloat_zero : Afloat .zero := ⟨Nat.zero_le _, le_rfl, fun h => absurd h (by decide)⟩

theorem AtFront.afloatAt (h : AtFront s) : AfloatAt s := by
  have hcount := h.count
  have hremained := h.remained
  have hspan := h.span
  exact ⟨⟨by omega, by omega, fun hr => by omega⟩, h.received, by omega⟩

/-- Bytes of `data` moved to its front, and the rest of it cleared. -/
theorem exists_moved (b : Block bufLength) (off len : Int) (h0 : 0 ≤ off) (hl : 0 ≤ len)
    (he : off + len ≤ bufLength) : ∃ r b₁ b₂, b.read off len = some r ∧ b.write 0 r = some b₁ ∧
      b₁.zeroFrom len = some b₂ := by
  have hsize : off + len ≤ b.bytes.length := by
    rw [b.size]
    exact he
  obtain ⟨b₁, b₂, hread, hb₁, hb₂, -⟩ := shift_down (List.prefix_refl b.bytes) off len h0 hl hsize
  exact ⟨_, b₁, b₂, hread, hb₁, hb₂⟩

private theorem protocolStart_ne_none (hs : AfloatAt s) (hd : -5 ≤ declaredAt s) :
    protocolStart clientfd s.option s.recvLength ≠ none := by
  obtain ⟨lenStr, hread⟩ : ∃ f, s.option.data.read 1 protocolPackageLengthSize = some f :=
    ⟨_, if_pos (by decide)⟩
  have hdecl : declaredAt s = (Decimal.scan lenStr).getD s.option.proLength := by
    rw [declaredAt, hread, Option.bind_some]
  have hspan := hs.span
  simp only [protocolStart, hread, Option.bind_eq_bind, Option.bind_some, ← hdecl]
  split
  · exact Option.some_ne_none _
  · split
    · exact Option.some_ne_none _
    · have hlen : s.recvLength - declaredAt s - 5 = s.recvLength - 5 - declaredAt s := by omega
      obtain ⟨r, b₁, b₂, hr, hb₁, hb₂⟩ := exists_moved s.option.data (declaredAt s + 5)
        (s.recvLength - 5 - declaredAt s) (by omega) (by omega) (by omega)
      simp only [hr, hb₁, hlen, hb₂, Option.bind_some]
      exact Option.some_ne_none _

private theorem protocolContinue_ne_none (hs : AfloatAt s) (hr : 0 < s.option.bytesRemained) :
    protocolContinue clientfd s.option s.recvLength ≠ none := by
  obtain ⟨hle, hge⟩ := hs.inside hr
  have hspan := hs.span
  simp only [protocolContinue]
  split
  · exact Option.some_ne_none _
  · split
    · exact Option.some_ne_none _
    · obtain ⟨last, hlast⟩ : ∃ last,
          s.option.data.get (s.option.proLength + protocolPackageLengthSize) = some last := by
        simp only [protocolPackageLengthSize]
        rw [Block.get, if_pos (by omega)]
        exact ⟨_, List.getElem?_eq_getElem (by rw [s.option.data.size]; omega)⟩
      simp only [hlast, Option.bind_eq_bind, Option.bind_some]
      split
      · obtain ⟨r, b₁, b₂, hread, hb₁, hb₂⟩ := exists_moved s.option.data
          (s.option.proLength + 5) (s.option.count + s.recvLength - s.option.proLength - 5)
          (by omega) (by omega) (by omega)
        simp only [hread, hb₁, hb₂, Option.bind_some]
        exact Option.some_ne_none _
      · obtain ⟨r, b₁, b₂, hread, hb₁, hb₂⟩ := exists_moved s.option.data
          s.option.count s.recvLength (by omega) (by omega) (by omega)
        simp only [hread, hb₁, hb₂, Option.bind_some]
        exact Option.some_ne_none _

theorem startPass_ne_none_of_legible (hs : AfloatAt s) (hd : Legible s) :
    startPass clientfd s ≠ none := by
  by_cases hhead : Header s ∧ s.option.bytesRemained = 0
  · obtain ⟨hh, hr⟩ := hhead
    rw [startPass_header clientfd hh hr]
    exact protocolStart_ne_none hs (Int.le_of_lt (hd hh hr))
  · by_cases hr : 0 < s.option.bytesRemained
    · obtain ⟨head, hget⟩ : ∃ head, s.option.data.get 0 = some head :=
        ⟨_, List.getElem?_eq_getElem (by rw [s.option.data.size]; decide)⟩
      have hcond : ¬ (head = protocolHead ∧ 5 ≤ s.recvLength ∧ s.option.bytesRemained = 0) :=
        fun hc => hr.ne' hc.2.2
      simp only [startPass, hget, Option.bind_eq_bind, Option.bind_some, if_neg hcond, if_pos hr]
      exact protocolContinue_ne_none hs hr
    · have hr0 : s.option.bytesRemained = 0 := Int.le_antisymm (Int.not_lt.mp hr) hs.remained
      rw [startPass_outside clientfd (fun hh => hhead ⟨hh, hr0⟩) hr]
      exact Option.some_ne_none _

theorem startPass_afloat {p : StartPass} {ret : Int} (hs : AfloatAt s)
    (hp : startPass clientfd s = some p) (he : p.exit = .leave (ret, o)) : Afloat o := by
  have hspan := hs.span
  have hcapacity := hs.capacity
  have hreceived := hs.received
  have hremained := hs.remained
  cases startPass_form hp with
  | exact | exactLater | clear =>
    cases he
    exact afloat_zero
  | stick hh hr hlt =>
    cases he
    have h5 := hh.2
    refine ⟨?_, ?_, fun _ => ⟨?_, ?_⟩⟩ <;> simp only <;> omega
  | stickLater hr hlt =>
    cases he
    obtain ⟨hle, hge⟩ := hs.inside hr
    refine ⟨?_, ?_, fun _ => ⟨?_, ?_⟩⟩ <;> simp only <;> omega
  | short hr =>
    cases he
    exact ⟨by simp only; omega, hremained, fun h => absurd h hr⟩
  | dismantle | dismantleLater | loss => cases he

theorem AfloatAt.reaches (hs : AfloatAt s) (h : Reaches (startPass clientfd) s t) : AfloatAt t :=
  h.invariant hs fun _ _ _ _ _ hp => (startPass_jump hp).1.afloatAt

theorem returns_afloat {r : Int × StickDismantleOptions}
    (h : Returns (startPass clientfd) s r es) (hs : AfloatAt s) : Afloat r.2 := by
  induction h with
  | leave h => exact startPass_afloat hs h rfl
  | jump h _ ih => exact ih (startPass_jump h).1.afloatAt

theorem afloatAt_of_write (ho : Afloat o) {data : Block bufLength}
    (hwrite : o.data.write o.count c = some data) : AfloatAt ⟨{ o with data }, c.length⟩ := by
  have hle := (Block.write_eq_some.mp hwrite).1
  exact ⟨⟨ho.capacity, ho.remained, ho.inside⟩, Int.natCast_nonneg _, by simp only; omega⟩

/-- A call on a chunk that fits, with legible headers only, returns. -/
theorem terminates_of_legible (ho : Afloat o) (hfits : o.count + c.length ≤ bufLength)
    (h : ∀ data t, o.data.write o.count c = some data →
      Reaches (startPass clientfd) ⟨{ o with data }, c.length⟩ t → Legible t) :
    Terminates clientfd o c := by
  obtain ⟨data, hwrite⟩ : ∃ data, o.data.write o.count c = some data := ⟨_, dif_pos hfits⟩
  have hs := afloatAt_of_write ho hwrite
  exact (terminates_iff_halts (by omega)).mpr ⟨data, hwrite,
    halts_of_legible fun t ht => h data t hwrite ht,
    fun t ht => startPass_ne_none_of_legible (hs.reaches ht) (h data t hwrite ht)⟩

theorem receives_afloat {o' : StickDismantleOptions} {calls : List Call}
    (h : Receives clientfd o c o' calls) (hc : c.length ≤ bufLength) (ho : Afloat o) :
    Afloat o' := by
  obtain ⟨data, ret, hwrite, hret⟩ := (receives_iff hc).mp h
  exact returns_afloat hret (afloatAt_of_write ho hwrite)

/-! ### A frame of no bytes at all -/

/-- A frame that ends where it begins is dismantled to itself. -/
theorem startPass_empty (clientfd : HSocket) {w : List UInt8} {b₁ b₂ : Block bufLength}
    (hh : Header s) (hr : s.option.bytesRemained = 0) (hd : declaredAt s = -5)
    (hlen : s.recvLength = w.length)
    (hread : s.option.data.read 0 w.length = some w) (hb₁ : s.option.data.write 0 w = some b₁)
    (hb₂ : b₁.zeroFrom w.length = some b₂) :
    ∃ es, startPass clientfd s = some ⟨es, .jump ⟨⟨0, 0, -5, b₂⟩, w.length⟩⟩ := by
  obtain ⟨lenStr, hlenStr⟩ : ∃ f, s.option.data.read 1 protocolPackageLengthSize = some f :=
    ⟨_, if_pos (by decide)⟩
  have hdecl : (Decimal.scan lenStr).getD s.option.proLength = -5 := by
    rw [← hd, declaredAt, hlenStr, Option.bind_some]
  have h5 := hh.2
  have hne : -5 - (s.recvLength - 5) ≠ 0 := by omega
  have hnpos : ¬ 0 < -5 - (s.recvLength - 5) := by omega
  have hres : s.recvLength - 5 - -5 = w.length := by omega
  have hres' : s.recvLength - -5 - 5 = w.length := by omega
  refine ⟨[.sscanf lenStr, { s.option with proLength := -5 }.push clientfd], ?_⟩
  simp only [startPass, hh.1, Option.bind_eq_bind, Option.bind_some, h5, hr, and_self, if_true,
    protocolStart, hlenStr, hdecl, if_neg hne, if_neg hnpos, hres, hres', hread, hb₁, hb₂,
    Int.add_left_neg]
  rfl

/-- Reading a length of -5, the call never comes to an end. -/
theorem not_halts_of_header (hh : Header s) (hr : s.option.bytesRemained = 0)
    (hd : declaredAt s = -5) (hle : s.recvLength ≤ bufLength) :
    ¬ Halts (startPass clientfd) s := by
  have h5 := hh.2
  have hsize := s.option.data.size
  obtain ⟨w, hw, hlen⟩ : ∃ w, s.option.data.Holds w ∧ s.recvLength = w.length :=
    ⟨s.option.data.bytes.take s.recvLength.toNat, List.take_prefix _ _, by
      rw [List.length_take]
      omega⟩
  obtain ⟨b₁, b₂, hread, hb₁, hb₂, hfill⟩ := hw.keep
  obtain ⟨b₁', b₂', hread', hb₁', hb₂', hfill'⟩ := hfill.holds.keep
  obtain rfl := hfill'.unique hfill
  obtain ⟨es, hp⟩ := startPass_empty clientfd hh hr hd hlen hread hb₁ hb₂
  -- the second pass looks at the same header, and moves what is in its place already
  have hget (b : Block bufLength) (h : b.Holds w) : b.get 0 = w[0]? :=
    h.get (Int.le_refl 0) (by omega)
  have hfield (b : Block bufLength) (h : b.Holds w) :
      b.read 1 protocolPackageLengthSize = some ((w.drop 1).take 4) :=
    h.read (by decide) (by decide) (by simp only [protocolPackageLengthSize]; omega)
  have hh' : Header ⟨⟨0, 0, -5, b₂'⟩, w.length⟩ :=
    ⟨by rw [hget b₂' hfill.holds, ← hget _ hw]; exact hh.1, by simp only; omega⟩
  have hd' : declaredAt ⟨⟨0, 0, -5, b₂'⟩, w.length⟩ = -5 := by
    rw [declaredAt, hfield _ hw, Option.bind_some] at hd
    rw [declaredAt, hfield b₂' hfill.holds, Option.bind_some]
    cases hscan : Decimal.scan ((w.drop 1).take 4) with
    | none => rfl
    | some v =>
      rw [hscan] at hd
      exact hd
  obtain ⟨es', hp'⟩ := startPass_empty clientfd hh' rfl hd' rfl hread' hb₁' hb₂'
  rw [halts_jump_iff hp]
  exact not_halts_of_cycle hp'

/-- A frame that ends in front of `data` is not moved to its front: there is nothing to move. -/
theorem startPass_eq_none (hh : Header s) (hr : s.option.bytesRemained = 0)
    (hd : declaredAt s < -5) : startPass clientfd s = none := by
  obtain ⟨lenStr, hread⟩ : ∃ f, s.option.data.read 1 protocolPackageLengthSize = some f :=
    ⟨_, if_pos (by decide)⟩
  have hdecl : declaredAt s = (Decimal.scan lenStr).getD s.option.proLength := by
    rw [declaredAt, hread, Option.bind_some]
  have h5 := hh.2
  have hoff : s.option.data.read (declaredAt s + 5) (s.recvLength - 5 - declaredAt s) = none :=
    if_neg fun h => by omega
  simp only [startPass_header clientfd hh hr, protocolStart, hread, Option.bind_eq_bind,
    Option.bind_some, ← hdecl, hoff, Option.bind_none]
  rw [if_neg (by omega), if_neg (by omega)]

/-- A call that returns has met legible headers only. -/
theorem Terminates.legible (h : Terminates clientfd o c) (hc : c.length ≤ bufLength)
    {data : Block bufLength} (hwrite : o.data.write o.count c = some data)
    (ht : Reaches (startPass clientfd) ⟨{ o with data }, c.length⟩ t) (ho : Afloat o) :
    Legible t := by
  obtain ⟨data', hwrite', hhalts, hdefined⟩ := (terminates_iff_halts hc).mp h
  obtain rfl := Option.some.inj (hwrite.symm.trans hwrite')
  intro hh hr
  rcases Int.lt_trichotomy (declaredAt t) (-5) with hlt | heq | hgt
  · exact absurd (startPass_eq_none hh hr hlt) (hdefined t ht)
  · have hspan := ((afloatAt_of_write ho hwrite).reaches ht).span
    exact absurd (ht.halts_iff.mp hhalts) (not_halts_of_header hh hr heq (by omega))
  · exact hgt

/-! ### Runs -/

variable {chunks : List (List UInt8)} {outs : List (List Call)}

theorem feeds_afloat {o' : StickDismantleOptions} (h : Feeds clientfd o chunks outs o')
    (hsmall : ∀ c ∈ chunks, c.length ≤ bufLength) (ho : Afloat o) : Afloat o' := by
  induction h with
  | nil => exact ho
  | cons hc _ ih =>
    exact ih (fun d hd => hsmall d (by simp [hd]))
      (receives_afloat hc (hsmall _ (by simp)) ho)

/-- Every call of a run is come to and returns precisely when every chunk fits behind the bytes
kept and no call looks at a header that reads as -5 or less. -/
theorem terminates_iff (clientfd : HSocket) (chunks : List (List UInt8))
    (hsizes : ∀ c ∈ chunks, 1 ≤ c.length ∧ c.length ≤ recvLimit) :
    (∀ k (hk : k < chunks.length), ∃ outs o, Feeds clientfd .zero (chunks.take k) outs o ∧
      Terminates clientfd o chunks[k]) ↔
    FitsIn clientfd chunks ∧ ∀ t, Visits clientfd chunks t → Legible t := by
  have hsmall : ∀ c ∈ chunks, c.length ≤ bufLength := fun c hc => (hsizes c hc).2.trans (by decide)
  have hleft (k : Nat) : ∀ c ∈ chunks.take k, c.length ≤ bufLength :=
    fun c hc => hsmall c (List.mem_of_mem_take hc)
  constructor
  · intro h
    constructor
    · intro k hk outs o hf
      obtain ⟨outs', o', hf', o'', calls, hr⟩ := h k hk
      obtain ⟨-, rfl⟩ := hf.unique (hleft k) hf'
      exact receives_fits hr (hsmall _ (List.getElem_mem hk))
    · intro t hvisit
      obtain ⟨k, hk, outs, o, data, hf, hwrite, ht⟩ := hvisit
      obtain ⟨outs', o', hf', hterm⟩ := h k hk
      obtain ⟨-, rfl⟩ := hf.unique (hleft k) hf'
      exact hterm.legible (hsmall _ (List.getElem_mem hk)) hwrite ht
        (feeds_afloat hf (hleft k) afloat_zero)
  · intro h
    obtain ⟨hfits, hlegible⟩ := h
    have hcall (k : Nat) (hk : k < chunks.length) (outs : List (List Call))
        (o : StickDismantleOptions) (hf : Feeds clientfd .zero (chunks.take k) outs o) :
        Terminates clientfd o chunks[k] :=
      terminates_of_legible (feeds_afloat hf (hleft k) afloat_zero) (hfits k hk outs o hf)
        fun data t hwrite ht => hlegible t ⟨k, hk, outs, o, data, hf, hwrite, ht⟩
    intro k hk
    induction k with
    | zero => exact ⟨[], .zero, .nil _, hcall 0 hk [] .zero (.nil _)⟩
    | succ k ih =>
      obtain ⟨outs, o, hf, o', calls, hr⟩ := ih (by omega)
      have hf' := hf.snoc hr
      rw [← List.take_succ_eq_append_getElem (by omega)] at hf'
      exact ⟨_, o', hf', hcall (k + 1) hk _ o' hf'⟩

theorem visits_modest (h : Visits 7 fourChunks t) : Modest t := by
  obtain ⟨k, hk, outs, o, data, hf, hwrite, ht⟩ := h
  exact (fourChunks_modest hf).2.2 hk data t hwrite ht

theorem fourChunks_fits : FitsIn 7 fourChunks := by
  intro k hk outs o hf
  have hcount := (fourChunks_modest hf).2.1
  have hlen := (fourChunks_few fourChunks[k] (List.getElem_mem hk)).2
  simp only [bufLength]
  omega

/-- Four chunks, with two jumps and three headers, of which one is cut. -/
theorem terminates_iff_four : fourChunks.length = 4 ∧ ∀ k (hk : k < fourChunks.length), ∃ outs o,
    Feeds 7 .zero (fourChunks.take k) outs o ∧ Terminates 7 o fourChunks[k] := by
  refine ⟨rfl, (terminates_iff 7 fourChunks fourChunks_sizes).mpr ⟨fourChunks_fits, ?_⟩⟩
  intro t ht hh hr
  have h0 := ((visits_modest ht).declared hh hr).1
  omega

/-- A single header, its length `-005`. -/
theorem negative_length_loops : ∃ chunks : List (List UInt8),
    chunks = [[0x01, 0x2D, 0x30, 0x30, 0x35]] ∧
    (∀ c ∈ chunks, 1 ≤ c.length ∧ c.length ≤ recvLimit) ∧
    ¬ ∀ k (hk : k < chunks.length), ∃ outs o, Feeds 7 .zero (chunks.take k) outs o ∧
      Terminates 7 o chunks[k] := by
  refine ⟨_, rfl, by simp [recvLimit], fun h => ?_⟩
  obtain ⟨data, hwrite, hw⟩ := copy_in (c := [0x01, 0x2D, 0x30, 0x30, 0x35])
    (Block.holds_nil StickDismantleOptions.zero.data) rfl (by decide)
  obtain ⟨outs, o, hf, hcall⟩ := h 0 (by decide)
  cases hf
  obtain ⟨data', hwrite', hhalts, -⟩ := (terminates_iff_halts (by decide)).mp hcall
  obtain rfl := Option.some.inj (hwrite.symm.trans hwrite')
  refine not_halts_of_header ⟨?_, le_refl (5 : Int)⟩ rfl ?_
    (show (5 : Int) ≤ bufLength by decide) hhalts
  · rw [hw.holds.get (by decide) (by decide)]
    rfl
  · have hscan : Decimal.scan [0x2D, 0x30, 0x30, 0x35] = some (-5) := by decide
    rw [declaredAt, hw.holds.read (by decide) (by decide) (by decide)]
    exact congrArg (Option.getD · 0) hscan

end RTPVoice.ClientObj
