import RTPVoice.ClientObj.StartPass

namespace RTPVoice.ClientObj

open Framework Framework.Loop

/-- What the fields satisfy between two calls, whatever bytes were received. `count` may exceed the
bytes of the current frame, so only an inequality ties it to `pro_length`. -/
structure Bookkeeping (o : StickDismantleOptions) : Prop where
  capacity : o.count ≤ bufLength
  remained : 0 ≤ o.bytesRemained
  length : 0 ≤ o.proLength
  inside : 0 < o.bytesRemained →
    o.bytesRemained ≤ o.proLength ∧ o.proLength + 5 ≤ o.count + o.bytesRemained

theorem bookkeeping_zero : Bookkeeping .zero :=
  ⟨Nat.zero_le _, le_rfl, le_rfl, fun h => absurd h (by decide)⟩

/-- The same at `Start`, where `w` is everything buffered and some of it is new. -/
structure Ready (s : AtStart) (w : List UInt8) : Prop extends Window s w where
  book : Bookkeeping s.option
  fresh : 0 < s.recvLength

theorem Ready.ne_nil {s : AtStart} {w : List UInt8} (h : Ready s w) : w ≠ [] := by
  intro hw
  subst hw
  have h1 := h.span
  have h2 := h.fresh
  simp only [List.length_nil] at h1
  omega

/-- No length handed on is negative. -/
def Sound (calls : List Call) : Prop :=
  ∀ fd buff len, Call.pushRecvBuffToQueue fd buff len ∈ calls → 0 ≤ len

theorem sound_nil : Sound [] := by simp [Sound]

theorem sound_append {cs ds : List Call} : Sound (cs ++ ds) ↔ Sound cs ∧ Sound ds := by
  simp only [Sound, List.mem_append]
  exact ⟨fun h => ⟨fun a b c hm => h a b c (.inl hm), fun a b c hm => h a b c (.inr hm)⟩,
    fun h a b c hm => hm.elim (h.1 a b c) (h.2 a b c)⟩

/-- Stream bytes a call stands for: a pushed payload and its header. -/
def Call.cost : Call → Int
  | .pushRecvBuffToQueue _ _ len => len + 5
  | _ => 0

def cost (calls : List Call) : Int := (calls.map Call.cost).sum

@[simp] theorem cost_nil : cost [] = 0 := rfl

@[simp] theorem cost_cons (c : Call) (cs : List Call) : cost (c :: cs) = c.cost + cost cs := by
  simp [cost]

@[simp] theorem cost_append (cs ds : List Call) : cost (cs ++ ds) = cost cs + cost ds := by
  simp [cost]

@[simp] theorem cost_push (fd : HSocket) (o : StickDismantleOptions) :
    (o.push fd).cost = o.proLength + 5 := rfl

@[simp] theorem cost_sscanf (f : List UInt8) : (Call.sscanf f).cost = 0 := rfl

@[simp] theorem cost_clear (fd : HSocket) : (Call.socketClearRecvBuffer fd).cost = 0 := rfl

variable {clientfd : HSocket} {s : AtStart} {w : List UInt8}

/-- A header that reads as a negative length is only ever dismantled, and its length handed on. -/
theorem protocolStart_negative (hw : Window s w) (h5 : 5 ≤ s.recvLength)
    (hneg : declared s.option w < 0) {p : StartPass}
    (hp : protocolStart clientfd s.option s.recvLength = some p) : ¬ Sound p.events := by
  have hread : s.option.data.read 1 protocolPackageLengthSize = some (lenField w) :=
    hw.holds.read (by omega) (by decide) (by
      have := hw.span
      simp only [protocolPackageLengthSize]
      omega)
  unfold declared at hneg
  have hne : (Decimal.scan (lenField w)).getD s.option.proLength - (s.recvLength - 5) ≠ 0 := by
    omega
  have hn : ¬ s.recvLength - 5 < (Decimal.scan (lenField w)).getD s.option.proLength := by omega
  simp only [protocolStart, hread, Option.pure_def, Option.bind_eq_bind, Option.bind_some, hne,
    if_false, Int.sub_pos, hn, Option.bind_eq_some_iff, Option.some.injEq] at hp
  obtain ⟨_, -, _, -, _, -, rfl⟩ := hp
  intro hs
  have := hs clientfd (s.option.data.bytes.drop 5)
    ((Decimal.scan (lenField w)).getD s.option.proLength) (by simp [StickDismantleOptions.push])
  omega

/-! ### One pass -/

/-- The books after a pass over `w`: what it hands on and what it keeps was buffered before, and a
jump leaves strictly less to look at. -/
def Keeps (w : List UInt8) (p : StartPass) : Prop :=
  (∃ o, p.exit = .leave (0, o) ∧ Bookkeeping o ∧ cost p.events + o.count ≤ w.length) ∨
  (∃ s' w', p.exit = .jump s' ∧ Ready s' w' ∧ s'.option.count = 0 ∧ w'.length < w.length ∧
    cost p.events + w'.length ≤ w.length)

private theorem protocolContinue_keeps (clientfd : HSocket) (hs : Ready s w)
    (hr : 0 < s.option.bytesRemained) :
    ∃ p, protocolContinue clientfd s.option s.recvLength = some p ∧ Keeps w p := by
  have hw := hs.toWindow
  have hspan := hw.span
  have hcap := hw.length_le
  have hfresh := hs.fresh
  obtain ⟨-, -, hlen, hin⟩ := hs.book
  obtain ⟨hle, hge⟩ := hin hr
  rcases lt_trichotomy s.option.bytesRemained s.recvLength with hlt | heq | hgt
  · have hl : s.option.proLength + 5 < w.length := by omega
    by_cases hlast : w[(s.option.proLength + 4).toNat]? = some 0x7D
    · obtain ⟨data, hd, hh⟩ := protocolContinue_dismantle clientfd hw hlt hlen hl hlast
      refine ⟨_, hd, .inr ⟨_, _, rfl, ⟨⟨hh, ?_⟩,
        ⟨Nat.zero_le _, le_rfl, hlen, fun h => absurd h (lt_irrefl _)⟩, ?_⟩, rfl, ?_, ?_⟩⟩ <;>
      simp only [List.length_drop, cost_cons, cost_push, cost_nil] <;> omega
    · obtain ⟨data, hd, hh⟩ := protocolContinue_loss clientfd hw hlt hfresh.le hlen hl hlast
      refine ⟨_, hd, .inr ⟨_, _, rfl, ⟨⟨hh, ?_⟩,
        ⟨Nat.zero_le _, le_rfl, hlen, fun h => absurd h (lt_irrefl _)⟩, hfresh⟩, rfl, ?_, ?_⟩⟩ <;>
      simp only [List.length_drop, cost_nil] <;> omega
  · refine ⟨_, protocolContinue_exact heq, .inl ⟨_, rfl, bookkeeping_zero, ?_⟩⟩
    simp only [cost_cons, cost_push, cost_nil, StickDismantleOptions.zero]
    omega
  · refine ⟨_, protocolContinue_stick hgt, .inl ⟨_, rfl, ⟨?_, ?_, hlen, fun _ => ⟨?_, ?_⟩⟩, ?_⟩⟩ <;>
    simp only [cost_nil] <;> omega

private theorem protocolStart_keeps (clientfd : HSocket) (hs : Ready s w) (h5 : 5 ≤ s.recvLength)
    (hd0 : 0 ≤ declared s.option w) :
    ∃ p, protocolStart clientfd s.option s.recvLength = some p ∧ Keeps w p := by
  have hw := hs.toWindow
  have hspan := hw.span
  have hcap := hw.length_le
  rcases lt_trichotomy (declared s.option w) (s.recvLength - 5) with hlt | heq | hgt
  · obtain ⟨data, hd, hh⟩ := protocolStart_dismantle clientfd hw h5 hd0 hlt
    refine ⟨_, hd, .inr ⟨_, _, rfl, ⟨⟨hh, ?_⟩,
      ⟨Nat.zero_le _, le_rfl, hd0, fun h => absurd h (lt_irrefl _)⟩, ?_⟩, rfl, ?_, ?_⟩⟩ <;>
    simp only [List.length_take, List.length_drop, cost_cons, cost_sscanf, cost_push,
      cost_nil] <;> omega
  · refine ⟨_, protocolStart_exact hw h5 heq, .inl ⟨_, rfl, bookkeeping_zero, ?_⟩⟩
    simp only [cost_cons, cost_sscanf, cost_push, cost_nil, StickDismantleOptions.zero]
    omega
  · refine ⟨_, protocolStart_stick hw h5 hgt,
      .inl ⟨_, rfl, ⟨?_, ?_, hd0, fun _ => ⟨?_, ?_⟩⟩, ?_⟩⟩ <;>
    simp only [cost_cons, cost_sscanf, cost_nil] <;> omega

private theorem protocolOther_keeps (clientfd : HSocket) (hs : Ready s w)
    (hr : ¬ 0 < s.option.bytesRemained) :
    Keeps w (protocolOther clientfd s.option s.recvLength) := by
  have hspan := hs.span
  have hcap := hs.length_le
  have hfresh := hs.fresh
  unfold protocolOther
  split
  · refine .inl ⟨_, rfl, ⟨?_, hs.book.remained, hs.book.length, fun h => absurd h hr⟩, ?_⟩ <;>
    simp only [cost_nil] <;> omega
  · refine .inl ⟨_, rfl, bookkeeping_zero, ?_⟩
    simp only [cost_cons, cost_clear, cost_nil]
    omega

/-- With the books in order and no negative length read a pass is inside `data` and keeps the
books. -/
theorem startPass_keeps (clientfd : HSocket) (hs : Ready s w)
    (hd : w.head? = some protocolHead → 5 ≤ s.recvLength → s.option.bytesRemained = 0 →
      0 ≤ declared s.option w) : ∃ p, startPass clientfd s = some p ∧ Keeps w p := by
  have hw := hs.toWindow
  have hrem := hs.book.remained
  by_cases hr : 0 < s.option.bytesRemained
  · rw [startPass_continue clientfd hw hs.ne_nil hr]
    exact protocolContinue_keeps clientfd hs hr
  · have hr0 : s.option.bytesRemained = 0 := by omega
    by_cases hhead : w.head? = some protocolHead ∧ 5 ≤ s.recvLength
    · obtain ⟨hh, h5⟩ := hhead
      rw [startPass_start clientfd hw hh h5 hr0]
      exact protocolStart_keeps clientfd hs h5 (hd hh h5 hr0)
    · have hcases : w.head? ≠ some protocolHead ∨ s.recvLength < 5 := by
        by_cases hh : w.head? = some protocolHead
        · exact .inr (Int.not_le.mp fun h5 => hhead ⟨hh, h5⟩)
        · exact .inl hh
      rw [startPass_other clientfd hw hs.ne_nil hr0 hcases]
      exact ⟨_, rfl, protocolOther_keeps clientfd hs hr⟩

/-- A pass that hands on no negative length keeps the books. -/
theorem startPass_books (hs : Ready s w) {p : StartPass} (hp : startPass clientfd s = some p)
    (hsound : Sound p.events) : Keeps w p := by
  have hd (hh : w.head? = some protocolHead) (h5 : 5 ≤ s.recvLength)
      (hr : s.option.bytesRemained = 0) : 0 ≤ declared s.option w := by
    by_contra hneg
    rw [startPass_start clientfd hs.toWindow hh h5 hr] at hp
    exact protocolStart_negative hs.toWindow h5 (by omega) hp hsound
  obtain ⟨p', hp', hkeeps⟩ := startPass_keeps clientfd hs hd
  obtain rfl := Option.some.inj (hp'.symm.trans hp)
  exact hkeeps

/-! ### Whole calls and runs -/

theorem returns_books {r : Int × StickDismantleOptions} {calls : List Call}
    (h : Returns (startPass clientfd) s r calls) (hs : Ready s w) (hsound : Sound calls) :
    Bookkeeping r.2 ∧ cost calls + r.2.count ≤ w.length := by
  induction h generalizing w with
  | @leave s r es h =>
    rcases startPass_books hs h hsound with ⟨o, he, hb, hc⟩ | ⟨s', w', he, -⟩
    · obtain rfl : r = (0, o) := Exit.leave.inj he
      exact ⟨hb, hc⟩
    · cases he
  | @jump s s₁ r es es' h _ ih =>
    obtain ⟨h1, h2⟩ := sound_append.mp hsound
    rcases startPass_books hs h h1 with ⟨o, he, -⟩ | ⟨s', w', he, hr, -, -, hc⟩
    · cases he
    · obtain rfl : s₁ = s' := Exit.jump.inj he
      obtain ⟨hb, hc'⟩ := ih hr h2
      have hfirst : cost es + w'.length ≤ w.length := hc
      refine ⟨hb, ?_⟩
      rw [cost_append]
      omega

variable {o o' : StickDismantleOptions} {c : List UInt8} {calls : List Call}

theorem receives_iff (hc : c.length ≤ bufLength) : Receives clientfd o c o' calls ↔
    ∃ data ret, o.data.write o.count c = some data ∧
      Returns (startPass clientfd) ⟨{ o with data }, c.length⟩ (ret, o') calls := by
  have hlt : ¬ bufLength < c.length := by omega
  simp only [Receives, stickDismantleProtocol, if_neg hlt]
  cases hwrite : o.data.write o.count c with
  | none => simp
  | some data =>
    simp only [Option.some.injEq, exists_and_left, exists_eq_left', returns_iff_run]
    exact ⟨fun ⟨fuel, ret, h⟩ => ⟨ret, fuel, h⟩, fun ⟨ret, fuel, h⟩ => ⟨fuel, ret, h⟩⟩

/-- A call looks at the bytes kept from before and then the new ones. -/
theorem ready_of_write (hb : Bookkeeping o) (hc : c ≠ []) {data : Block bufLength}
    (hwrite : o.data.write o.count c = some data) :
    Ready ⟨{ o with data }, c.length⟩ (o.data.bytes.take o.count ++ c) := by
  have hsize := o.data.size
  have hcap := hb.capacity
  obtain ⟨hle, hbytes⟩ := Block.write_eq_some.mp hwrite
  have hpos : 0 < c.length := List.length_pos_iff.mpr hc
  refine ⟨⟨⟨o.data.bytes.drop (o.count + c.length), ?_⟩, ?_⟩,
    ⟨hcap, hb.remained, hb.length, hb.inside⟩, ?_⟩
  · rw [hbytes, List.append_assoc]
  · simp only [List.length_append, List.length_take]
    omega
  · simpa using hpos

theorem receives_books (h : Receives clientfd o c o' calls) (hb : Bookkeeping o) (hc : c ≠ [])
    (hlen : c.length ≤ bufLength) (hsound : Sound calls) :
    Bookkeeping o' ∧ cost calls + o'.count ≤ o.count + c.length := by
  obtain ⟨data, ret, hwrite, hret⟩ := (receives_iff hlen).mp h
  obtain ⟨hb', hcost⟩ := returns_books hret (ready_of_write hb hc hwrite) hsound
  have hsize := o.data.size
  have hcap := hb.capacity
  refine ⟨hb', ?_⟩
  simp only [List.length_append, List.length_take] at hcost
  omega

/-- Every received byte is handed on at most once: payloads with their headers, and the bytes kept,
never exceed what came in. -/
theorem feeds_books {chunks : List (List UInt8)} {outs : List (List Call)}
    (h : Feeds clientfd o chunks outs o') (hb : Bookkeeping o)
    (hsize : ∀ c ∈ chunks, c ≠ [] ∧ c.length ≤ bufLength) (hsound : Sound outs.flatten) :
    Bookkeeping o' ∧ cost outs.flatten + o'.count ≤ o.count + chunks.flatten.length := by
  induction h with
  | nil o => exact ⟨hb, by simp⟩
  | @cons o c o₁ calls cs outs o₂ h _ ih =>
    rw [List.flatten_cons, sound_append] at hsound
    obtain ⟨hne, hle⟩ := hsize c (by simp)
    obtain ⟨hb₁, hc₁⟩ := receives_books h hb hne hle hsound.1
    obtain ⟨hb₂, hc₂⟩ := ih hb₁ (fun d hd => hsize d (by simp [hd])) hsound.2
    refine ⟨hb₂, ?_⟩
    simp only [List.flatten_cons, cost_append, List.length_append]
    omega

end RTPVoice.ClientObj
