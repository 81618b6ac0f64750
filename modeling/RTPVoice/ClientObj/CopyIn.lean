import RTPVoice.ClientObj.Progress

namespace RTPVoice.ClientObj

open Framework Framework.Loop

/-- What one `recv` brings at most. -/
def recvLimit : Nat := 512

/-- The test of the header branch that looks at the bytes. -/
def Header (s : AtStart) : Prop := s.option.data.get 0 = some protocolHead ∧ 5 ≤ s.recvLength

/-- The length a header at the front of `data` declares. -/
def declaredAt (s : AtStart) : Int :=
  ((s.option.data.read 1 protocolPackageLengthSize).bind Decimal.scan).getD s.option.proLength

/-- A header begins a frame whose end leaves room for one `recv` more, with the bytes kept before
it; and so does a piece too short for a header. -/
def Bounded (s : AtStart) : Prop :=
  s.option.bytesRemained = 0 →
    (Header s → s.recvLength - 5 < declaredAt s → s.option.count + declaredAt s ≤ 1532) ∧
    (¬ Header s → s.recvLength < 5 → s.option.count + s.recvLength ≤ 1536)

/-- The call on `c` comes to `Start` in bounded states only. -/
def Within (clientfd : HSocket) (o : StickDismantleOptions) (c : List UInt8) : Prop :=
  ∀ data t, o.data.write o.count c = some data →
    Reaches (startPass clientfd) ⟨{ o with data }, c.length⟩ t → Bounded t

/-- Room for one `recv` more, now and until the frame begun is complete. -/
structure Room (o : StickDismantleOptions) : Prop where
  count : o.count ≤ 1536
  frame : 0 < o.bytesRemained → o.count + o.bytesRemained ≤ 1537

/-- The headers looked at were four decimal digits. -/
def DigitHeaders (calls : List Call) : Prop :=
  ∀ f, Call.sscanf f ∈ calls → ∀ b ∈ f, Decimal.isDigit b = true

variable {clientfd : HSocket} {s : AtStart} {o o' : StickDismantleOptions} {p : StartPass}
  {w c : List UInt8} {calls : List Call}

theorem digitHeaders_append {cs ds : List Call} :
    DigitHeaders (cs ++ ds) ↔ DigitHeaders cs ∧ DigitHeaders ds := by
  simp only [DigitHeaders, List.mem_append]
  exact ⟨fun h => ⟨fun f hf => h f (.inl hf), fun f hf => h f (.inr hf)⟩,
    fun h f hf => hf.elim (h.1 f) (h.2 f)⟩

/-! ### What one pass does -/

theorem declaredAt_eq (hw : Window s w) (h5 : 5 ≤ s.recvLength) :
    declaredAt s = declared s.option w := by
  have hspan := hw.span
  rw [declaredAt, hw.holds.read (by decide) (by decide)
    (by simp only [protocolPackageLengthSize]; omega)]
  rfl

/-- Everything a pass can be, without regard to the bytes moved by a jump. -/
inductive PassForm (clientfd : HSocket) (s : AtStart) : StartPass → Prop where
  | exact {lenStr : List UInt8} (header : Header s) (fresh : s.option.bytesRemained = 0) :
      PassForm clientfd s ⟨[.sscanf lenStr, { s.option with
        proLength := (Decimal.scan lenStr).getD s.option.proLength }.push clientfd],
        .leave (0, .zero)⟩
  | stick {lenStr : List UInt8} (header : Header s) (fresh : s.option.bytesRemained = 0)
      (goesOn : s.recvLength - 5 < declaredAt s) :
      PassForm clientfd s ⟨[.sscanf lenStr], .leave (0, { s.option with
        bytesRemained := declaredAt s - (s.recvLength - 5)
        proLength := declaredAt s
        count := s.option.count + s.recvLength.toNat })⟩
  | dismantle {lenStr : List UInt8} {s' : AtStart} (header : Header s)
      (fresh : s.option.bytesRemained = 0) :
      PassForm clientfd s ⟨[.sscanf lenStr, { s.option with
        proLength := (Decimal.scan lenStr).getD s.option.proLength }.push clientfd], .jump s'⟩
  | exactLater (inside : 0 < s.option.bytesRemained) :
      PassForm clientfd s ⟨[s.option.push clientfd], .leave (0, .zero)⟩
  | stickLater (inside : 0 < s.option.bytesRemained)
      (goesOn : s.recvLength < s.option.bytesRemained) :
      PassForm clientfd s ⟨[], .leave (0, { s.option with
        bytesRemained := s.option.bytesRemained - s.recvLength
        count := s.option.count + s.recvLength.toNat })⟩
  | dismantleLater {s' : AtStart} (inside : 0 < s.option.bytesRemained) :
      PassForm clientfd s ⟨[s.option.push clientfd], .jump s'⟩
  | loss {s' : AtStart} (inside : 0 < s.option.bytesRemained) :
      PassForm clientfd s ⟨[], .jump s'⟩
  | short (outside : ¬ 0 < s.option.bytesRemained)
      (other : ¬ (Header s ∧ s.option.bytesRemained = 0)) (few : s.recvLength < 5) :
      PassForm clientfd s ⟨[], .leave (0,
        { s.option with count := s.option.count + s.recvLength.toNat })⟩
  | clear (outside : ¬ 0 < s.option.bytesRemained) :
      PassForm clientfd s ⟨[.socketClearRecvBuffer clientfd], .leave (0, .zero)⟩

theorem startPass_header (clientfd : HSocket) (hh : Header s)
    (hr : s.option.bytesRemained = 0) :
    startPass clientfd s = protocolStart clientfd s.option s.recvLength := by
  simp [startPass, hh.1, hh.2, hr]

theorem startPass_outside (clientfd : HSocket) (hh : ¬ Header s)
    (hr : ¬ 0 < s.option.bytesRemained) :
    startPass clientfd s = some (protocolOther clientfd s.option s.recvLength) := by
  have hsize := s.option.data.size
  obtain ⟨head, hget⟩ : ∃ head, s.option.data.get 0 = some head :=
    ⟨_, List.getElem?_eq_getElem (by rw [hsize]; decide)⟩
  have hcond : ¬ (head = protocolHead ∧ 5 ≤ s.recvLength ∧ s.option.bytesRemained = 0) :=
    fun hc => hh ⟨hc.1 ▸ hget, hc.2.1⟩
  simp only [startPass, hget, Option.bind_eq_bind, Option.bind_some, if_neg hcond, if_neg hr]
  rfl

private theorem protocolStart_form (hh : Header s) (hr : s.option.bytesRemained = 0)
    (hp : protocolStart clientfd s.option s.recvLength = some p) : PassForm clientfd s p := by
  simp only [protocolStart, Option.bind_eq_bind, Option.bind_eq_some_iff] at hp
  obtain ⟨lenStr, hread, hp⟩ := hp
  have hdecl : declaredAt s = (Decimal.scan lenStr).getD s.option.proLength := by
    rw [declaredAt, hread, Option.bind_some]
  split at hp
  · obtain rfl := Option.some.inj hp
    exact .exact hh hr
  · split at hp
    · obtain rfl := Option.some.inj hp
      rw [← hdecl] at *
      exact .stick hh hr (by omega)
    · simp only [Option.bind_eq_some_iff] at hp
      obtain ⟨_, -, _, -, _, -, hp⟩ := hp
      obtain rfl := Option.some.inj hp
      exact .dismantle hh hr

private theorem protocolContinue_form (hr : 0 < s.option.bytesRemained)
    (hp : protocolContinue clientfd s.option s.recvLength = some p) : PassForm clientfd s p := by
  simp only [protocolContinue] at hp
  split at hp
  · obtain rfl := Option.some.inj hp
    exact .exactLater hr
  · split at hp
    · next hlt =>
      obtain rfl := Option.some.inj hp
      exact .stickLater hr hlt
    · simp only [Option.bind_eq_bind, Option.bind_eq_some_iff] at hp
      obtain ⟨_, -, hp⟩ := hp
      split at hp
      · simp only [Option.bind_eq_some_iff] at hp
        obtain ⟨_, -, _, -, _, -, hp⟩ := hp
        obtain rfl := Option.some.inj hp
        exact .dismantleLater hr
      · simp only [Option.bind_eq_some_iff] at hp
        obtain ⟨_, -, _, -, _, -, hp⟩ := hp
        obtain rfl := Option.some.inj hp
        exact .loss hr

theorem startPass_form (hp : startPass clientfd s = some p) : PassForm clientfd s p := by
  simp only [startPass, Option.bind_eq_bind, Option.bind_eq_some_iff] at hp
  obtain ⟨head, hget, hp⟩ := hp
  split at hp
  · next hhead =>
    obtain ⟨rfl, h5, hr⟩ := hhead
    exact protocolStart_form ⟨hget, h5⟩ hr hp
  · next hhead =>
    split at hp
    · next hr => exact protocolContinue_form hr hp
    · next hrem =>
      obtain rfl := Option.some.inj hp
      unfold protocolOther
      split
      · next hlt =>
        refine .short hrem ?_ hlt
        intro hheader
        obtain ⟨⟨hh, h5⟩, hr⟩ := hheader
        exact hhead ⟨Option.some.inj (hget.symm.trans hh), h5, hr⟩
      · exact .clear hrem

/-- Digits do not read as a negative length. -/
theorem scan_digits_nonneg {f : List UInt8} (h : ∀ b ∈ f, Decimal.isDigit b = true) {n : Int}
    (hn : 0 ≤ n) : 0 ≤ (Decimal.scan f).getD n := by
  by_cases hf : f = []
  · subst hf
    exact hn
  · rw [Decimal.scan_digits hf h]
    exact Int.natCast_nonneg _

theorem sound_push {data : StickDismantleOptions} (hd : 0 ≤ data.proLength) :
    Sound [data.push clientfd] := by
  intro fd buff len hm
  cases List.mem_singleton.mp hm
  exact hd

theorem sound_sscanf (f : List UInt8) : Sound [.sscanf f] := by simp [Sound]

theorem startPass_sound (hlen : 0 ≤ s.option.proLength) (hp : startPass clientfd s = some p)
    (hd : DigitHeaders p.events) : Sound p.events := by
  cases startPass_form hp with
  | @exact lenStr _ _ | @dismantle lenStr _ _ _ =>
    exact sound_append.mpr ⟨sound_sscanf lenStr,
      sound_push (scan_digits_nonneg (hd lenStr List.mem_cons_self) hlen)⟩
  | @stick lenStr => exact sound_sscanf lenStr
  | exactLater | dismantleLater => exact sound_push hlen
  | stickLater | loss | short => exact sound_nil
  | clear => simp [Sound]

theorem returns_sound {r : Int × StickDismantleOptions}
    (h : Returns (startPass clientfd) s r calls) (hs : Ready s w) (hd : DigitHeaders calls) :
    Sound calls := by
  induction h generalizing w with
  | leave h => exact startPass_sound hs.book.length h hd
  | jump h _ ih =>
    obtain ⟨h1, h2⟩ := digitHeaders_append.mp hd
    have hsound := startPass_sound hs.book.length h h1
    rcases startPass_books hs h hsound with ⟨o, he, -⟩ | ⟨s', w', he, hr, -⟩
    · cases he
    · cases he
      exact sound_append.mpr ⟨hsound, ih hr h2⟩

/-- From bounded states the room is kept. -/
theorem startPass_room {ret : Int} (hs : Ready s w) (hb : Bounded s)
    (hroom : 0 < s.option.bytesRemained → s.option.count + s.option.bytesRemained ≤ 1537)
    (hp : startPass clientfd s = some p) (he : p.exit = .leave (ret, o)) : Room o := by
  have hfresh := hs.fresh
  have hrem := hs.book.remained
  cases startPass_form hp with
  | exact | exactLater | clear =>
    cases he
    exact ⟨by decide, by decide⟩
  | stick hh hr hlt =>
    cases he
    have h5 := hh.2
    have hle := (hb hr).1 hh hlt
    constructor <;> simp only <;> omega
  | stickLater hr hlt =>
    cases he
    have hle := hroom hr
    constructor <;> simp only <;> omega
  | short hr hh hlt =>
    cases he
    have hle := (hb (by omega)).2 (fun h => hh ⟨h, by omega⟩) hlt
    constructor <;> simp only <;> omega
  | dismantle | dismantleLater | loss => cases he

theorem returns_room {r : Int × StickDismantleOptions}
    (h : Returns (startPass clientfd) s r calls) (hs : Ready s w) (hsound : Sound calls)
    (hroom : 0 < s.option.bytesRemained → s.option.count + s.option.bytesRemained ≤ 1537)
    (hb : ∀ t, Reaches (startPass clientfd) s t → Bounded t) : Room r.2 := by
  induction h generalizing w with
  | @leave s r es h => exact startPass_room hs (hb s (.refl s)) hroom h rfl
  | @jump s s₁ r es es' h _ ih =>
    obtain ⟨h1, h2⟩ := sound_append.mp hsound
    rcases startPass_books hs h h1 with ⟨o, he, -⟩ | ⟨s', w', he, hr, hc, -⟩
    · cases he
    · obtain rfl : s₁ = s' := Exit.jump.inj he
      refine ih hr h2 (fun hpos => ?_) fun t ht => hb t (.step h ht)
      have := hr.book.inside hpos
      omega

/-! ### Runs that keep the room -/

variable {chunks : List (List UInt8)} {outs : List (List Call)}

theorem receives_sound (h : Receives clientfd o c o' calls) (hb : Bookkeeping o) (hc : c ≠ [])
    (hlen : c.length ≤ bufLength) (hd : DigitHeaders calls) : Sound calls := by
  obtain ⟨data, ret, hwrite, hret⟩ := (receives_iff hlen).mp h
  exact returns_sound hret (ready_of_write hb hc hwrite) hd

/-- With headers of digits the books are kept over a whole run. -/
theorem feeds_book (h : Feeds clientfd o chunks outs o') (hb : Bookkeeping o)
    (hsizes : ∀ c ∈ chunks, 1 ≤ c.length ∧ c.length ≤ recvLimit)
    (hd : DigitHeaders outs.flatten) : Bookkeeping o' := by
  induction h with
  | nil => exact hb
  | @cons o c o₁ calls cs outs o₂ hc _ ih =>
    rw [List.flatten_cons, digitHeaders_append] at hd
    obtain ⟨hpos, hle⟩ := hsizes c (by simp)
    have hne : c ≠ [] := List.length_pos_iff.mp hpos
    have hcap : c.length ≤ bufLength := hle.trans (by decide)
    have hsound := receives_sound hc hb hne hcap hd.1
    exact ih (receives_books hc hb hne hcap hsound).1 (fun d hd => hsizes d (by simp [hd])) hd.2

theorem receives_room (h : Receives clientfd o c o' calls) (hb : Bookkeeping o) (hroom : Room o)
    (hc : c ≠ []) (hlen : c.length ≤ bufLength) (hd : DigitHeaders calls)
    (hwithin : Within clientfd o c) : Bookkeeping o' ∧ Room o' := by
  obtain ⟨data, ret, hwrite, hret⟩ := (receives_iff hlen).mp h
  have hready := ready_of_write hb hc hwrite
  have hsound := returns_sound hret hready hd
  exact ⟨(receives_books h hb hc hlen hsound).1,
    returns_room hret hready hsound hroom.frame fun t ht => hwithin data t hwrite ht⟩

theorem feeds_room (h : Feeds clientfd o chunks outs o') (hb : Bookkeeping o) (hroom : Room o)
    (hsizes : ∀ c ∈ chunks, 1 ≤ c.length ∧ c.length ≤ recvLimit)
    (hd : DigitHeaders outs.flatten)
    (hwithin : ∀ k (hk : k < chunks.length) outs₁ o₁,
      Feeds clientfd o (chunks.take k) outs₁ o₁ → Within clientfd o₁ chunks[k]) :
    Bookkeeping o' ∧ Room o' := by
  induction h with
  | nil => exact ⟨hb, hroom⟩
  | @cons o c o₁ calls cs outs o₂ hc _ ih =>
    rw [List.flatten_cons, digitHeaders_append] at hd
    obtain ⟨hpos, hle⟩ := hsizes c (by simp)
    obtain ⟨hb₁, hroom₁⟩ := receives_room hc hb hroom (List.length_pos_iff.mp hpos)
      (hle.trans (by decide)) hd.1 (hwithin 0 (by simp) [] o (.nil o))
    refine ih hb₁ hroom₁ (fun d hd => hsizes d (by simp [hd])) hd.2 fun k hk outs₁ o₃ hf => ?_
    exact hwithin (k + 1) (Nat.succ_lt_succ hk) (calls :: outs₁) o₃ (.cons hc hf)

/-! ### Runs that leave it -/

/-- A chunk that the frame begun still asks for is kept, whatever its bytes. -/
theorem receives_inside (clientfd : HSocket) (hb : Bookkeeping o) (hc : c ≠ [])
    (hcap : o.count + c.length ≤ bufLength)
    (hlt : (c.length : Int) < o.bytesRemained) : ∃ o', Receives clientfd o c o' [] ∧
      Bookkeeping o' ∧ o'.count = o.count + c.length ∧
      o'.bytesRemained = o.bytesRemained - c.length := by
  have hpos : 0 < c.length := List.length_pos_iff.mpr hc
  obtain ⟨data, hwrite⟩ : ∃ data, o.data.write o.count c = some data := ⟨_, dif_pos hcap⟩
  have hready := ready_of_write hb hc hwrite
  have hpass := startPass_continue clientfd hready.toWindow hready.ne_nil (by simp only; omega)
  rw [protocolContinue_stick hlt] at hpass
  have hr : Receives clientfd o c _ [] := receives_of_pass (by omega) hwrite hpass
  exact ⟨_, hr, (receives_books hr hb hc (by omega) sound_nil).1, by simp, rfl⟩

/-- Once the room is gone some chunks without another header bring the overflow. -/
theorem overflows (clientfd : HSocket) (hb : Bookkeeping o)
    (h : 1536 < o.count ∨ (0 < o.bytesRemained ∧ 1537 < o.count + o.bytesRemained)) :
    ∃ more outs o', (∀ c ∈ more, 1 ≤ c.length ∧ c.length ≤ recvLimit) ∧
      Feeds clientfd o more outs o' ∧ outs.flatten = [] ∧ 1536 < o'.count := by
  induction hn : o.bytesRemained.toNat using Nat.strongRecOn generalizing o with
  | ind n ih =>
    by_cases hcount : 1536 < o.count
    · exact ⟨[], [], o, by simp, .nil o, rfl, hcount⟩
    obtain ⟨hpos, hsum⟩ := h.resolve_left hcount
    -- one byte less than the frame asks for, or a full chunk of it
    have hlen : (List.replicate (min 512 (n - 1)) (0 : UInt8)).length = min 512 (n - 1) :=
      List.length_replicate
    have hne : List.replicate (min 512 (n - 1)) (0 : UInt8) ≠ [] :=
      List.length_pos_iff.mp (by omega)
    obtain ⟨o₁, hr, hb₁, hc₁, hr₁⟩ := receives_inside clientfd hb hne
      (by simp only [bufLength]; omega) (by omega)
    obtain ⟨more, outs, o', hsizes, hf, hflat, hover⟩ := ih o₁.bytesRemained.toNat (by omega) hb₁
      (.inr ⟨by omega, by omega⟩) rfl
    refine ⟨_ :: more, [] :: outs, o', ?_, .cons hr hf, by simpa using hflat, hover⟩
    intro c hc
    rcases List.mem_cons.mp hc with rfl | hc
    · rw [hlen, recvLimit]
      omega
    · exact hsizes c hc

/-- A state out of bounds leaves the function at once, with no room. -/
theorem leaves_of_not_bounded (clientfd : HSocket) (h : ¬ Bounded s) : ∃ o es,
    startPass clientfd s =
    some ⟨es, .leave (0, o)⟩ ∧
    (1536 < o.count ∨ (0 < o.bytesRemained ∧ 1537 < o.count + o.bytesRemained)) := by
  simp only [Bounded, Classical.not_imp, not_and_or, not_le] at h
  obtain ⟨hr, h⟩ := h
  rcases h with ⟨hh, hlt, hgt⟩ | ⟨hh, hlt, hgt⟩
  · obtain ⟨lenStr, hread⟩ : ∃ f, s.option.data.read 1 protocolPackageLengthSize = some f :=
      ⟨_, if_pos (by decide)⟩
    have h5 := hh.2
    have hdecl : declaredAt s = (Decimal.scan lenStr).getD s.option.proLength := by
      rw [declaredAt, hread, Option.bind_some]
    have hne : declaredAt s - (s.recvLength - 5) ≠ 0 := by omega
    have hpos : 0 < declaredAt s - (s.recvLength - 5) := by omega
    refine ⟨{ s.option with
        bytesRemained := declaredAt s - (s.recvLength - 5)
        proLength := declaredAt s
        count := s.option.count + s.recvLength.toNat }, [.sscanf lenStr], ?_, .inr ?_⟩
    · simp only [startPass_header clientfd hh hr, protocolStart, hread, Option.bind_eq_bind,
        Option.bind_some, ← hdecl, if_neg hne, if_pos hpos]
      rfl
    · constructor <;> simp only <;> omega
  · refine ⟨{ s.option with count := s.option.count + s.recvLength.toNat }, [], ?_, .inl ?_⟩
    · rw [startPass_outside clientfd hh (by omega), protocolOther, if_pos hlt]
    · simp only
      omega

/-! ### The bound on copying in -/

/-- At every call of the run the chunk fits behind the bytes kept. -/
def FitsIn (clientfd : HSocket) (chunks : List (List UInt8)) : Prop :=
  ∀ k (hk : k < chunks.length) outs o, Feeds clientfd .zero (chunks.take k) outs o →
    o.count + chunks[k].length ≤ bufLength

/-- No call of the run looks at a header that is not four digits. -/
def ReadsDigits (clientfd : HSocket) (chunks : List (List UInt8)) : Prop :=
  ∀ k outs o, Feeds clientfd .zero (chunks.take k) outs o → DigitHeaders outs.flatten

/-- Every call of the run stays within bounds. -/
def StaysWithin (clientfd : HSocket) (chunks : List (List UInt8)) : Prop :=
  ∀ k (hk : k < chunks.length) outs o, Feeds clientfd .zero (chunks.take k) outs o →
    Within clientfd o chunks[k]

theorem room_zero : Room .zero := ⟨by decide, by decide⟩

theorem fitsIn_of_staysWithin (hsizes : ∀ c ∈ chunks, 1 ≤ c.length ∧ c.length ≤ recvLimit)
    (hd : ReadsDigits clientfd chunks) (h : StaysWithin clientfd chunks) :
    FitsIn clientfd chunks := by
  intro k hk outs o hf
  obtain ⟨-, hroom⟩ := feeds_room hf bookkeeping_zero room_zero
    (fun c hc => hsizes c (List.mem_of_mem_take hc)) (hd k outs o hf) (fun i hi outs₁ o₁ hf₁ => by
      have hik : i < k := by
        simp only [List.length_take] at hi
        omega
      rw [List.take_take, Nat.min_eq_left hik.le] at hf₁
      rw [List.getElem_take]
      exact h i (hik.trans hk) outs₁ o₁ hf₁)
  have hcount := hroom.count
  have hle := (hsizes chunks[k] (List.getElem_mem hk)).2
  simp only [recvLimit, bufLength] at *
  omega

theorem Feeds.append {more : List (List UInt8)} {outs' : List (List Call)}
    {o₀ : StickDismantleOptions} (h : Feeds clientfd o₀ chunks outs o)
    (h' : Feeds clientfd o more outs' o') :
    Feeds clientfd o₀ (chunks ++ more) (outs ++ outs') o' := by
  induction h with
  | nil => exact h'
  | cons hc _ ih => exact .cons hc (ih h')

/-- A call out of bounds can be followed by chunks, with no header among them, that overflow. -/
theorem overflow_of_not_within {k : Nat} (hk : k < chunks.length)
    (hsizes : ∀ c ∈ chunks, 1 ≤ c.length ∧ c.length ≤ recvLimit)
    (hd : ReadsDigits clientfd chunks) (hf : Feeds clientfd .zero (chunks.take k) outs o)
    (h : ¬ Within clientfd o chunks[k]) : ∃ more outs' o',
      (∀ c ∈ more, 1 ≤ c.length ∧ c.length ≤ recvLimit) ∧
      Feeds clientfd .zero (chunks.take (k + 1) ++ more) outs' o' ∧ DigitHeaders outs'.flatten ∧
      bufLength < o'.count + recvLimit := by
  have hsmall (c : List UInt8) (hc : c ∈ chunks) : c ≠ [] ∧ c.length ≤ bufLength :=
    ⟨List.length_pos_iff.mp (hsizes c hc).1, (hsizes c hc).2.trans (by decide)⟩
  simp only [Within, not_forall] at h
  obtain ⟨data, t, hwrite, hreach, hnot⟩ := h
  obtain ⟨o₁, es, hpass, hgone⟩ := leaves_of_not_bounded clientfd hnot
  obtain ⟨es', hret⟩ := hreach.returns (.leave hpass)
  have hr : Receives clientfd o chunks[k] o₁ (es' ++ es) :=
    (receives_iff (hsmall _ (List.getElem_mem hk)).2).mpr ⟨data, 0, hwrite, hret⟩
  have hf₁ := hf.snoc hr
  rw [← List.take_succ_eq_append_getElem hk] at hf₁
  have hdigits := hd (k + 1) _ _ hf₁
  have hb := feeds_book hf₁ bookkeeping_zero
    (fun c hc => hsizes c (List.mem_of_mem_take hc)) hdigits
  obtain ⟨more, outs₂, o₂, hmore, hf₂, hflat, hover⟩ := overflows clientfd hb hgone
  refine ⟨more, _, o₂, hmore, hf₁.append hf₂, ?_, by simp only [recvLimit, bufLength]; omega⟩
  rw [List.flatten_append, hflat, List.append_nil]
  exact hdigits

theorem receives_fits (h : Receives clientfd o c o' calls) (hlen : c.length ≤ bufLength) :
    o.count + c.length ≤ bufLength := by
  obtain ⟨data, ret, hwrite, -⟩ := (receives_iff hlen).mp h
  exact (Block.write_eq_some.mp hwrite).1

/-- A run up to a chunk that does not fit. -/
theorem not_fitsIn_snoc (hf : Feeds clientfd .zero chunks outs o)
    (hover : bufLength < o.count + c.length) : ¬ FitsIn clientfd (chunks ++ [c]) := by
  intro h
  have hle := h chunks.length (by simp) outs o (by rwa [List.take_left])
  simp only [List.getElem_append_right le_rfl, Nat.sub_self, List.getElem_cons_zero] at hle
  omega

theorem readsDigits_snoc (hf : Feeds clientfd .zero chunks outs o)
    (hsmall : ∀ d ∈ chunks ++ [c], d.length ≤ bufLength) (hd : DigitHeaders outs.flatten)
    (hover : bufLength < o.count + c.length) : ReadsDigits clientfd (chunks ++ [c]) := by
  intro k outs' o' hf'
  cases Nat.lt_or_ge chunks.length k with
  | inl hk =>
    rw [List.take_of_length_le (by simp only [List.length_append, List.length_singleton]; omega)]
      at hf'
    obtain ⟨calls, hr, -⟩ := hf.last (fun d hd => hsmall d (by simp [hd])) hf'
    have hle := receives_fits hr (hsmall c (by simp))
    omega
  | inr hk =>
    rw [List.take_append_of_le_length hk] at hf'
    obtain ⟨o₁, hfirst, -⟩ := hf.take k
    obtain ⟨rfl, -⟩ := hf'.unique
      (fun d hd => hsmall d (List.mem_append_left _ (List.mem_of_mem_take hd))) hfirst
    have hflat : (outs.take k).flatten ++ (outs.drop k).flatten = outs.flatten := by
      rw [← List.flatten_append, List.take_append_drop]
    rw [← hflat, digitHeaders_append] at hd
    exact hd.1

/-- In a run whose headers are digits every chunk fits when every call stays within bounds; and a
call that does not can be followed by chunks that do not fit, with no further header. -/
theorem copy_in_fits (clientfd : HSocket) (chunks : List (List UInt8))
    (hsizes : ∀ c ∈ chunks, 1 ≤ c.length ∧ c.length ≤ recvLimit)
    (hd : ReadsDigits clientfd chunks) :
    (StaysWithin clientfd chunks → FitsIn clientfd chunks) ∧
    (¬ StaysWithin clientfd chunks → ∃ k ≤ chunks.length, ∃ more,
      (∀ c ∈ more, 1 ≤ c.length ∧ c.length ≤ recvLimit) ∧
      ReadsDigits clientfd (chunks.take k ++ more) ∧
      ¬ FitsIn clientfd (chunks.take k ++ more)) := by
  refine ⟨fitsIn_of_staysWithin hsizes hd, fun h => ?_⟩
  simp only [StaysWithin, not_forall] at h
  obtain ⟨k, hk, outs, o, hf, hnot⟩ := h
  obtain ⟨more, outs', o', hmore, hf', hdigits, hover⟩ :=
    overflow_of_not_within hk hsizes hd hf hnot
  have hlast : ∀ c ∈ [List.replicate recvLimit (0 : UInt8)],
      1 ≤ c.length ∧ c.length ≤ recvLimit := by
    intro c hc
    rw [List.mem_singleton.mp hc, List.length_replicate]
    decide
  have hall : ∀ c ∈ chunks.take (k + 1) ++ more ++ [List.replicate recvLimit 0],
      c.length ≤ bufLength := by
    intro c hc
    have hle : c.length ≤ recvLimit := by
      cases List.mem_append.mp hc with
      | inl hc =>
        cases List.mem_append.mp hc with
        | inl hc => exact (hsizes c (List.mem_of_mem_take hc)).2
        | inr hc => exact (hmore c hc).2
      | inr hc => exact (hlast c hc).2
    exact hle.trans (by decide)
  rw [← List.length_replicate (n := recvLimit) (a := (0 : UInt8))] at hover
  refine ⟨k + 1, hk, more ++ [List.replicate recvLimit 0], ?_, ?_, ?_⟩
  · intro c hc
    exact (List.mem_append.mp hc).elim (hmore c) (hlast c)
  · rw [← List.append_assoc]
    exact readsDigits_snoc hf' hall hdigits hover
  · rw [← List.append_assoc]
    exact not_fitsIn_snoc hf' hover

/-- The header of the longest frame there is, alone in its chunk. -/
private theorem receives_longest (clientfd : HSocket) : ∃ o',
    Receives clientfd .zero [1, 0x39, 0x39, 0x39, 0x39] o' [.sscanf [0x39, 0x39, 0x39, 0x39]] ∧
      o'.count = 5 ∧ o'.bytesRemained = 9999 := by
  obtain ⟨data, hwrite, hwin⟩ := copy_in (c := [1, 0x39, 0x39, 0x39, 0x39])
    (Block.holds_nil StickDismantleOptions.zero.data) rfl (by decide)
  have hdecl (x : StickDismantleOptions) : declared x [1, 0x39, 0x39, 0x39, 0x39] = 9999 := by
    have hscan : Decimal.scan (lenField [1, 0x39, 0x39, 0x39, 0x39]) = some 9999 := by decide
    rw [declared, hscan]
    rfl
  have hpass := startPass_start clientfd hwin rfl (by simp) rfl
  rw [protocolStart_stick hwin (by simp) (by rw [List.nil_append, hdecl]; simp)] at hpass
  refine ⟨_, receives_of_pass (by decide) hwrite hpass, rfl, ?_⟩
  simp only [List.nil_append, hdecl]
  decide

private theorem longest_overflows {r : List UInt8} (hlen : r.length = 512) :
    (∀ c ∈ [[1, 0x39, 0x39, 0x39, 0x39], r, r, r] ++ [r], 1 ≤ c.length ∧ c.length ≤ recvLimit) ∧
    ReadsDigits 7 ([[1, 0x39, 0x39, 0x39, 0x39], r, r, r] ++ [r]) ∧
    ¬ FitsIn 7 ([[1, 0x39, 0x39, 0x39, 0x39], r, r, r] ++ [r]) := by
  have hne : r ≠ [] := List.length_pos_iff.mp (by omega)
  have hcap {n : Nat} (hn : n ≤ 1536) : n + r.length ≤ bufLength := by
    simp only [bufLength]
    omega
  obtain ⟨o₁, h₁, c₁, r₁⟩ := receives_longest 7
  obtain ⟨b₁, -⟩ := receives_books h₁ bookkeeping_zero (by simp) (by decide) (sound_sscanf _)
  obtain ⟨o₂, h₂, b₂, c₂, r₂⟩ := receives_inside 7 b₁ hne (hcap (by omega)) (by omega)
  obtain ⟨o₃, h₃, b₃, c₃, r₃⟩ := receives_inside 7 b₂ hne (hcap (by omega)) (by omega)
  obtain ⟨o₄, h₄, b₄, c₄, r₄⟩ := receives_inside 7 b₃ hne (hcap (by omega)) (by omega)
  have hf : Feeds 7 .zero [[1, 0x39, 0x39, 0x39, 0x39], r, r, r]
      [[.sscanf [0x39, 0x39, 0x39, 0x39]], [], [], []] o₄ :=
    .cons h₁ (.cons h₂ (.cons h₃ (.cons h₄ (.nil o₄))))
  have hover : bufLength < o₄.count + r.length := by
    simp only [bufLength]
    omega
  have hsizes : ∀ c ∈ [[1, 0x39, 0x39, 0x39, 0x39], r, r, r] ++ [r],
      1 ≤ c.length ∧ c.length ≤ recvLimit := by
    simp [hlen, recvLimit]
  refine ⟨hsizes, readsDigits_snoc hf (fun c hc => (hsizes c hc).2.trans (by decide)) ?_ hover,
    not_fitsIn_snoc hf hover⟩
  intro f hm
  have he : f = [0x39, 0x39, 0x39, 0x39] := by simpa using hm
  subst he
  decide +kernel

/-- The longest declared length and four full chunks: the last one does not fit. -/
theorem copy_in_overflows : ∃ chunks : List (List UInt8),
    chunks = [1, 0x39, 0x39, 0x39, 0x39] :: List.replicate 4 (List.replicate 512 0) ∧
    (∀ c ∈ chunks, 1 ≤ c.length ∧ c.length ≤ recvLimit) ∧ ReadsDigits 7 chunks ∧
    ¬ FitsIn 7 chunks :=
  ⟨_, rfl, longest_overflows List.length_replicate⟩

/-! ### A run of four chunks -/

/-- A frame and the head byte of another, whose header goes on in the next chunk and whose end comes
alone; then a third frame. -/
def fourChunks : List (List UInt8) :=
  [[1, 0x30, 0x30, 0x30, 0x31, 0x7D, 1], [0x30, 0x30, 0x30, 0x33, 0x7B, 0x61], [0x7D],
    [1, 0x30, 0x30, 0x30, 0x31, 0x7D]]

/-- Few bytes are kept and few have come, and a header at the front declares few more. -/
structure Modest (s : AtStart) : Prop where
  count : s.option.count ≤ 8
  recvLength : s.recvLength ≤ 7
  declared : Header s → s.option.bytesRemained = 0 → 0 ≤ declaredAt s ∧ declaredAt s ≤ 3

/-- What the call on `c` needs of the state before, and what it comes to. -/
structure Turns (o : StickDismantleOptions) (c : List UInt8) (o' : StickDismantleOptions)
    (calls : List Call) : Prop where
  receives : Receives 7 o c o' calls
  count : o.count ≤ 8
  digits : DigitHeaders calls
  modest : ∀ data t, o.data.write o.count c = some data →
    Reaches (startPass 7) ⟨{ o with data }, c.length⟩ t → Modest t

inductive TurnsThrough : StickDismantleOptions → List (List UInt8) → Prop where
  | nil (o : StickDismantleOptions) (count : o.count ≤ 8) : TurnsThrough o []
  | cons {o o' : StickDismantleOptions} {c : List UInt8} {cs : List (List UInt8)}
      {calls : List Call} (h : Turns o c o' calls) (ht : TurnsThrough o' cs) :
      TurnsThrough o (c :: cs)

private theorem modest_of_scan {n : Int} (hw : Window s w) (hc : s.option.count ≤ 8)
    (hr : s.recvLength ≤ 7) (hscan : Decimal.scan (lenField w) = some n) (h0 : 0 ≤ n)
    (h3 : n ≤ 3) : Modest s := by
  refine ⟨hc, hr, fun hh _ => ?_⟩
  rw [declaredAt_eq hw hh.2, declared, hscan]
  exact ⟨h0, h3⟩

private theorem modest_of_few (hc : s.option.count ≤ 8) (hr : s.recvLength < 5) : Modest s :=
  ⟨hc, by omega, fun hh _ => absurd hh.2 (by omega)⟩

private theorem turns_dismantle : ∃ o calls,
    Turns .zero [1, 0x30, 0x30, 0x30, 0x31, 0x7D, 1] o calls ∧ o.data.Holds [1] ∧ o.count = 1 ∧
      o.bytesRemained = 0 := by
  obtain ⟨data, hwrite, hwin⟩ := copy_in (c := [1, 0x30, 0x30, 0x30, 0x31, 0x7D, 1])
    (Block.holds_nil StickDismantleOptions.zero.data) rfl (by decide)
  rw [List.nil_append] at hwin
  have hscan : Decimal.scan (lenField [1, 0x30, 0x30, 0x30, 0x31, 0x7D, 1]) = some 1 := by decide
  have hdecl (x : StickDismantleOptions) :
      declared x [1, 0x30, 0x30, 0x30, 0x31, 0x7D, 1] = 1 := by
    rw [declared, hscan]
    rfl
  have hfirst := startPass_start 7 hwin rfl (by simp) rfl
  obtain ⟨left, hjump, hholds⟩ := protocolStart_dismantle 7 hwin (by simp)
    (by rw [hdecl]; decide) (by rw [hdecl]; simp)
  rw [hjump] at hfirst
  simp only [hdecl] at hfirst hholds
  have hwin' : Window ⟨⟨0, 0, 1, left⟩, 1⟩ [1] := ⟨hholds, rfl⟩
  have hlast := startPass_other 7 hwin' (by simp) rfl (.inr (by simp))
  refine ⟨_, _, ⟨(receives_iff (by decide)).mpr ⟨data, 0, hwrite, .jump hfirst (.leave hlast)⟩,
    by decide, ?_, fun data' t hwrite' ht => ?_⟩, hholds, rfl, rfl⟩
  · intro f hm
    have he : f = [0x30, 0x30, 0x30, 0x31] := by
      simpa [StickDismantleOptions.push, lenField, protocolOther] using hm
    subst he
    decide +kernel
  · obtain rfl := Option.some.inj (hwrite.symm.trans hwrite')
    rcases (reaches_jump_iff hfirst).mp ht with rfl | ht
    · exact modest_of_scan hwin (Nat.zero_le 8) (by simp) hscan (by decide) (by decide)
    · rw [(reaches_leave_iff hlast).mp ht]
      exact modest_of_few (Nat.zero_le 8) (by simp)

private theorem turns_stick (hh : o.data.Holds [1]) (hc : o.count = 1) (hr : o.bytesRemained = 0) :
    ∃ o' calls, Turns o [0x30, 0x30, 0x30, 0x33, 0x7B, 0x61] o' calls ∧
      o'.data.Holds [1, 0x30, 0x30, 0x30, 0x33, 0x7B, 0x61] ∧ o'.count = 7 ∧
      o'.bytesRemained = 2 ∧ o'.proLength = 3 := by
  obtain ⟨data, hwrite, hwin⟩ := copy_in (c := [0x30, 0x30, 0x30, 0x33, 0x7B, 0x61]) hh hc
    (by decide)
  have hscan : Decimal.scan (lenField [1, 0x30, 0x30, 0x30, 0x33, 0x7B, 0x61]) = some 3 := by
    decide
  have hdecl (x : StickDismantleOptions) :
      declared x [1, 0x30, 0x30, 0x30, 0x33, 0x7B, 0x61] = 3 := by
    rw [declared, hscan]
    rfl
  have hpass := startPass_start 7 hwin rfl (by simp) hr
  rw [protocolStart_stick hwin (by simp) (by simp [hdecl])] at hpass
  refine ⟨_, _, ⟨receives_of_pass (by decide) hwrite hpass, by simp [hc], ?_,
    fun data' t hwrite' ht => ?_⟩, hwin.holds, by simp [hc], by simp [hdecl], by simp [hdecl]⟩
  · intro f hm
    have he : f = [0x30, 0x30, 0x30, 0x33] := by simpa [lenField] using hm
    subst he
    decide +kernel
  · obtain rfl := Option.some.inj (hwrite.symm.trans hwrite')
    rw [(reaches_leave_iff hpass).mp ht]
    exact modest_of_scan hwin (by simp [hc]) (by simp) hscan (by decide) (by decide)

private theorem turns_stickLater (hh : o.data.Holds [1, 0x30, 0x30, 0x30, 0x33, 0x7B, 0x61])
    (hc : o.count = 7) (hr : o.bytesRemained = 2) (hp : o.proLength = 3) :
    ∃ o', Turns o [0x7D] o' [] ∧ o'.data.Holds [1, 0x30, 0x30, 0x30, 0x33, 0x7B, 0x61, 0x7D] ∧
      o'.count = 8 ∧ o'.bytesRemained = 1 ∧ o'.proLength = 3 := by
  obtain ⟨data, hwrite, hwin⟩ := copy_in (c := [0x7D]) hh hc (by decide)
  have hpass := startPass_continue 7 hwin (by simp) (by simp [hr])
  rw [protocolContinue_stick (by simp [hr])] at hpass
  refine ⟨_, ⟨receives_of_pass (by decide) hwrite hpass, by simp [hc], by simp [DigitHeaders],
    fun data' t hwrite' ht => ?_⟩, hwin.holds, by simp [hc], by simp [hr], hp⟩
  obtain rfl := Option.some.inj (hwrite.symm.trans hwrite')
  rw [(reaches_leave_iff hpass).mp ht]
  exact modest_of_few (by simp [hc]) (by simp)

private theorem turns_dismantleLater
    (hh : o.data.Holds [1, 0x30, 0x30, 0x30, 0x33, 0x7B, 0x61, 0x7D]) (hc : o.count = 8)
    (hr : o.bytesRemained = 1) (hp : o.proLength = 3) :
    ∃ calls, Turns o [1, 0x30, 0x30, 0x30, 0x31, 0x7D] .zero calls := by
  obtain ⟨data, hwrite, hwin⟩ := copy_in (c := [1, 0x30, 0x30, 0x30, 0x31, 0x7D]) hh hc (by decide)
  obtain ⟨r, n, p, data₀⟩ := o
  obtain ⟨rfl, rfl, rfl⟩ : r = 1 ∧ n = 8 ∧ p = 3 := ⟨hr, hc, hp⟩
  have hfirst := startPass_continue 7 hwin (by simp) (by simp)
  obtain ⟨left, hjump, hholds⟩ := protocolContinue_dismantle 7 hwin (by simp) (by simp)
    (by simp) (by simp)
  rw [hjump] at hfirst
  have hwin' : Window ⟨⟨0, 0, 3, left⟩, 6⟩ [1, 0x30, 0x30, 0x30, 0x31, 0x7D] := ⟨hholds, rfl⟩
  have hscan : Decimal.scan (lenField [1, 0x30, 0x30, 0x30, 0x31, 0x7D]) = some 1 := by decide
  have hdecl (x : StickDismantleOptions) : declared x [1, 0x30, 0x30, 0x30, 0x31, 0x7D] = 1 := by
    rw [declared, hscan]
    rfl
  have hlast := startPass_start 7 hwin' rfl (by simp) rfl
  rw [protocolStart_exact hwin' (by simp) (by rw [hdecl]; rfl)] at hlast
  refine ⟨_, (receives_iff (by decide)).mpr ⟨data, 0, hwrite, .jump hfirst (.leave hlast)⟩,
    Nat.le_refl 8, ?_, fun data' t hwrite' ht => ?_⟩
  · intro f hm
    have he : f = [0x30, 0x30, 0x30, 0x31] := by
      simpa [StickDismantleOptions.push, lenField] using hm
    subst he
    decide +kernel
  · obtain rfl := Option.some.inj (hwrite.symm.trans hwrite')
    rcases (reaches_jump_iff hfirst).mp ht with rfl | ht
    · exact ⟨Nat.le_refl 8, by simp, fun _ hz => absurd hz Int.one_ne_zero⟩
    · rw [(reaches_leave_iff hlast).mp ht]
      exact modest_of_scan hwin' (Nat.zero_le 8) (by simp) hscan (by decide) (by decide)

theorem fourChunks_few : ∀ c ∈ fourChunks, 1 ≤ c.length ∧ c.length ≤ 7 := by decide

theorem fourChunks_sizes : ∀ c ∈ fourChunks, 1 ≤ c.length ∧ c.length ≤ recvLimit :=
  fun c hc => ⟨(fourChunks_few c hc).1, (fourChunks_few c hc).2.trans (by decide)⟩

theorem turnsThrough_fourChunks : TurnsThrough .zero fourChunks := by
  obtain ⟨o₁, cs₁, h₁, hh₁, hc₁, hr₁⟩ := turns_dismantle
  obtain ⟨o₂, cs₂, h₂, hh₂, hc₂, hr₂, hp₂⟩ := turns_stick hh₁ hc₁ hr₁
  obtain ⟨o₃, h₃, hh₃, hc₃, hr₃, hp₃⟩ := turns_stickLater hh₂ hc₂ hr₂ hp₂
  obtain ⟨cs₄, h₄⟩ := turns_dismantleLater hh₃ hc₃ hr₃ hp₃
  exact .cons h₁ (.cons h₂ (.cons h₃ (.cons h₄ (.nil _ (by decide)))))

/-- Wherever the run is between two calls, its headers were digits, it has kept few bytes, and the
next call is at `Start` in modest states only. -/
theorem TurnsThrough.modest {k : Nat} (h : TurnsThrough o chunks)
    (hsmall : ∀ c ∈ chunks, c.length ≤ bufLength) (hf : Feeds 7 o (chunks.take k) outs o') :
    DigitHeaders outs.flatten ∧ o'.count ≤ 8 ∧
      ∀ (hk : k < chunks.length) data t, o'.data.write o'.count chunks[k] = some data →
        Reaches (startPass 7) ⟨{ o' with data }, chunks[k].length⟩ t → Modest t := by
  induction h generalizing k outs with
  | nil o hcount =>
    rw [List.take_nil] at hf
    cases hf
    exact ⟨by simp [DigitHeaders], hcount, fun hk => absurd hk (Nat.not_lt_zero k)⟩
  | cons h _ ih =>
    cases k with
    | zero =>
      cases hf
      exact ⟨by simp [DigitHeaders], h.count, fun _ => h.modest⟩
    | succ k =>
      cases hf with
      | cons hc hrest =>
        obtain ⟨rfl, rfl⟩ := hc.unique (hsmall _ (by simp)) h.receives
        obtain ⟨hdigits, hcount, hmodest⟩ := ih (fun d hd => hsmall d (by simp [hd])) hrest
        refine ⟨?_, hcount, fun hk => hmodest (Nat.lt_of_succ_lt_succ hk)⟩
        rw [List.flatten_cons, digitHeaders_append]
        exact ⟨h.digits, hdigits⟩

theorem fourChunks_modest {k : Nat} (hf : Feeds 7 .zero (fourChunks.take k) outs o) :
    DigitHeaders outs.flatten ∧ o.count ≤ 8 ∧
      ∀ (hk : k < fourChunks.length) data t, o.data.write o.count fourChunks[k] = some data →
        Reaches (startPass 7) ⟨{ o with data }, fourChunks[k].length⟩ t → Modest t :=
  turnsThrough_fourChunks.modest
    (fun c hc => (fourChunks_sizes c hc).2.trans (by decide)) hf

/-- In front of the last chunk one byte more is asked for. -/
theorem fourChunks_remained (hf : Feeds 7 .zero (fourChunks.take 3) outs o) :
    o.bytesRemained = 1 := by
  obtain ⟨o₁, cs₁, h₁, hh₁, hc₁, hr₁⟩ := turns_dismantle
  obtain ⟨o₂, cs₂, h₂, hh₂, hc₂, hr₂, hp₂⟩ := turns_stick hh₁ hc₁ hr₁
  obtain ⟨o₃, h₃, -, -, hr₃, -⟩ := turns_stickLater hh₂ hc₂ hr₂ hp₂
  have hf' : Feeds 7 .zero (fourChunks.take 3) [cs₁, cs₂, []] o₃ :=
    .cons h₁.receives (.cons h₂.receives (.cons h₃.receives (.nil _)))
  obtain ⟨-, rfl⟩ := hf.unique (by decide) hf'
  exact hr₃

/-- A run of several chunks that stays within bounds. -/
theorem copy_in_fits_four : FitsIn 7 fourChunks :=
  (copy_in_fits 7 fourChunks fourChunks_sizes fun _ _ _ hf => (fourChunks_modest hf).1).1
    fun _ hk _ _ hf data t hwrite ht hr => by
      have h := (fourChunks_modest hf).2.2 hk data t hwrite ht
      have hcount := h.count
      have hrecv := h.recvLength
      exact ⟨fun hh _ => by have := (h.declared hh hr).2; omega, fun _ _ => by omega⟩

end RTPVoice.ClientObj
