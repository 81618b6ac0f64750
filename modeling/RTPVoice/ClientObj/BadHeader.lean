import RTPVoice.ClientObj.CopyIn

namespace RTPVoice.ClientObj

open Framework Framework.Loop

/-- A header is looked for at the front of `data`, with five bytes or more to look at, and the four
behind the head byte are not all digits. -/
structure BadHeader (s : AtStart) : Prop where
  remained : s.option.bytesRemained = 0
  count : s.option.count = 0
  header : Header s
  length : ∃ lenStr, s.option.data.read 1 protocolPackageLengthSize = some lenStr ∧
    ∃ b ∈ lenStr, Decimal.isDigit b = false

/-- Nothing is pushed for what is at the front of `data`, and the call ends in the reset state. -/
def Rejected (clientfd : HSocket) (s : AtStart) : Prop :=
  ∃ p ret o calls, startPass clientfd s = some p ∧ (∀ call ∈ p.events, call.isPush = false) ∧
    Returns (startPass clientfd) s (ret, o) calls ∧
    o.proLength = 0 ∧ o.count = 0 ∧ o.bytesRemained = 0

variable {clientfd : HSocket} {s : AtStart}

theorem push_isPush (clientfd : HSocket) (o : StickDismantleOptions) :
    (o.push clientfd).isPush = true := rfl

/-- The branch for headers hands something on, or begins to wait for the rest of a frame. -/
theorem protocolStart_takes {o : StickDismantleOptions} {len : Int} {p : StartPass}
    (hp : protocolStart clientfd o len = some p) :
    (∃ call ∈ p.events, call.isPush = true) ∨
      ∃ ret o', p.exit = .leave (ret, o') ∧ 0 < o'.bytesRemained := by
  simp only [protocolStart, Option.bind_eq_bind, Option.bind_eq_some_iff] at hp
  obtain ⟨lenStr, -, hp⟩ := hp
  split at hp
  · -- the frame ends with the chunk
    obtain rfl := Option.some.inj hp
    exact .inl ⟨_, List.mem_cons_of_mem _ List.mem_cons_self, push_isPush _ _⟩
  · split at hp
    · next hpos =>
      obtain rfl := Option.some.inj hp
      exact .inr ⟨_, _, rfl, hpos⟩
    · simp only [Option.bind_eq_some_iff] at hp
      obtain ⟨_, -, _, -, _, -, hp⟩ := hp
      obtain rfl := Option.some.inj hp
      exact .inl ⟨_, List.mem_cons_of_mem _ List.mem_cons_self, push_isPush _ _⟩

/-- No state at a header is rejected, whatever its four bytes are. -/
theorem header_not_rejected (hh : Header s) (hr : s.option.bytesRemained = 0) :
    ¬ Rejected clientfd s := by
  intro hrej
  obtain ⟨p, ret, o, calls, hp, hquiet, hreturns, -, -, hzero⟩ := hrej
  rw [startPass_header clientfd hh hr] at hp
  cases protocolStart_takes hp with
  | inl hpush =>
    obtain ⟨call, hmem, hcall⟩ := hpush
    rw [hquiet call hmem] at hcall
    cases hcall
  | inr hwait =>
    obtain ⟨ret', o', hexit, hpos⟩ := hwait
    obtain ⟨events, exit⟩ := p
    subst hexit
    have hleave := Returns.leave ((startPass_header clientfd hh hr).trans hp)
    obtain ⟨he, -⟩ := hreturns.unique hleave
    cases he
    omega

/-- The digits are never checked: `sscanf` takes blanks, signs and letters behind a digit, and
without a number `pro_length` stays what the frame before has left. -/
theorem bad_header_never_rejected (clientfd : HSocket) (s : AtStart) (h : BadHeader s) :
    ¬ Rejected clientfd s := header_not_rejected h.header h.remained

/-- A header whose length is written with a sign. -/
theorem signed_header_taken : ∃ data, StickDismantleOptions.zero.data.write 0
      [1, 0x2B, 0x30, 0x30, 0x31, 0x7D] = some data ∧
    BadHeader ⟨{ StickDismantleOptions.zero with data }, 6⟩ ∧
    ¬ Rejected 7 ⟨{ StickDismantleOptions.zero with data }, 6⟩ := by
  obtain ⟨data, hwrite, hwin⟩ := copy_in (c := [1, 0x2B, 0x30, 0x30, 0x31, 0x7D])
    (Block.holds_nil StickDismantleOptions.zero.data) rfl (by decide)
  have hheader : Header ⟨{ StickDismantleOptions.zero with data }, 6⟩ :=
    ⟨hwin.holds.get (by decide) (by decide), by simp only; omega⟩
  have hread : data.read 1 protocolPackageLengthSize = some [0x2B, 0x30, 0x30, 0x31] :=
    hwin.holds.read (by decide) (by decide) (by decide)
  exact ⟨data, hwrite, ⟨rfl, rfl, hheader, _, hread, 0x2B, by decide, by decide⟩,
    header_not_rejected hheader rfl⟩

/-- Letters behind a frame whose payload is one byte: that length is taken for theirs. -/
theorem bad_header_never_rejected_stale : ∃ s t, s.recvLength = 12 ∧
    Reaches (startPass 7) s t ∧ t.option.proLength = 1 ∧ BadHeader t ∧ ¬ Rejected 7 t := by
  obtain ⟨data, hwrite, hwin⟩ := copy_in
    (c := [1, 0x30, 0x30, 0x30, 0x31, 0x7D, 1, 0x61, 0x62, 0x63, 0x64, 0x7D])
    (Block.holds_nil StickDismantleOptions.zero.data) rfl (by decide)
  have hdecl : declared { StickDismantleOptions.zero with data }
      [1, 0x30, 0x30, 0x30, 0x31, 0x7D, 1, 0x61, 0x62, 0x63, 0x64, 0x7D] = 1 := by
    have hscan : Decimal.scan (lenField
      [1, 0x30, 0x30, 0x30, 0x31, 0x7D, 1, 0x61, 0x62, 0x63, 0x64, 0x7D]) = some 1 := by decide
    rw [declared, hscan]
    rfl
  have hpass := startPass_start 7 hwin rfl (by simp) rfl
  obtain ⟨left, hjump, hholds⟩ := protocolStart_dismantle 7 hwin (by simp)
    (by rw [List.nil_append, hdecl]; decide) (by rw [List.nil_append, hdecl]; simp)
  rw [hjump] at hpass
  simp only [List.nil_append, hdecl] at hpass hholds
  have hbad : BadHeader ⟨⟨0, 0, 1, left⟩, 6⟩ :=
    ⟨rfl, rfl, ⟨hholds.get (by decide) (by decide), by simp only; omega⟩, _,
      hholds.read (by decide) (by decide) (by decide), 0x61, by decide, by decide⟩
  exact ⟨_, _, rfl, .step hpass (.refl _), rfl, hbad, bad_header_never_rejected 7 _ hbad⟩

end RTPVoice.ClientObj
