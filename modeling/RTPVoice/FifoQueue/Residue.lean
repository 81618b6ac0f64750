import RTPVoice.ClientObj.Envelope
import RTPVoice.FifoQueue.Refinement

namespace RTPVoice.FifoQueue

open Framework Framework.Transition ClientObj

/-- The packets that `earlier` put into the slot of the next one, oldest first. -/
def sameSlot (earlier : List (List UInt8)) : List (List UInt8) :=
  (earlier.zipIdx.filter fun item => item.2 % slotCount = earlier.length % slotCount).map Prod.fst

/-- What the earlier packets left at position `j` of the next slot: the byte of the last of them
that was longer, or the zero of the constructor. -/
def residue (earlier : List (List UInt8)) (j : Nat) : UInt8 :=
  match ((sameSlot earlier).filter fun p => j < p.length).getLast? with
  | some p => p[j]?.getD 0
  | none => 0

/-- `data` is what a take brings for `packet`, pushed behind `earlier` in a run that keeps within
the capacity of the queue. -/
def HandedOut (earlier : List (List UInt8)) (packet data : List UInt8) : Prop :=
  ∃ (ops : List (Fifo.Op (List UInt8))) (t : Fifo (List UInt8)) (s : System),
    run (Fifo.step slotCount) .empty ops = some t ∧
    (∀ p, .push p ∈ ops → p.length ≤ 512) ∧ run perform .fresh (ops.map .of) = some s ∧
    earlier ++ [packet] <+: Fifo.pushes ops ∧ s.taken[earlier.length]? = some data

/-- The cells a fresh queue begins with. -/
def freshCells : Nat → List UInt8 := System.fresh.ring.cells

/-- The slots are the packets pushed over each other, and each packet was taken as it then was. -/
structure Layered (s : System) : Prop where
  cells : s.ring.cells = SlotRing.layers slotCount packets freshCells s.pushed
  taken : ∀ (k : Nat) data, s.taken[k]? = some data →
    data = SlotRing.layers slotCount packets freshCells (s.pushed.take (k + 1)) (k % slotCount)

variable {s s' : System} {t t' : Fifo (List UInt8)} {packet : List UInt8}

theorem layered_fresh : Layered .fresh := ⟨rfl, by simp [System.fresh]⟩

theorem Layered.push (h : Layered s) (hle : s.taken.length ≤ s.pushed.length)
    (hring : s'.ring = s.ring.push slotCount packets packet) (htaken : s'.taken = s.taken) :
    Layered s' := by
  have hpushed : s'.pushed = s.pushed ++ [packet] := congrArg SlotRing.items hring
  constructor
  · rw [show s'.pushed = s'.ring.items from rfl, hring]
    exact SlotRing.push_layers h.cells packet
  · intro k data hk
    rw [htaken] at hk
    have hlt := (List.getElem?_eq_some_iff.mp hk).1
    rw [hpushed, List.take_append_of_le_length (by omega)]
    exact h.taken k data hk

/-- Twenty packets at most are unread, so the slot of the oldest holds nothing younger. -/
theorem Layered.take (h : Layered s) (hlt : s.taken.length < s.pushed.length)
    (hroom : s.pushed.length ≤ s.taken.length + slotCount) (hpushed : s'.pushed = s.pushed)
    (hbuff : s'.queue.fifobuff = s.queue.fifobuff)
    (htaken : s'.taken =
      s.taken ++ [s.queue.fifobuff.slice (address s.taken.length) slotSize]) : Layered s' := by
  constructor
  · rw [hpushed, ← h.cells]
    funext k
    simp only [System.ring, hbuff]
  · intro k data hk
    rw [hpushed]
    rw [htaken] at hk
    cases getElem?_snoc.mp hk with
    | inl hk => exact h.taken k data hk
    | inr hnew =>
      obtain ⟨rfl, rfl⟩ := hnew
      have hcell : s.queue.fifobuff.slice (address s.taken.length) slotSize =
          s.ring.cells (s.taken.length % slotCount) := rfl
      rw [hcell, h.cells]
      have hsplit := List.take_append_drop (s.taken.length + 1) s.pushed
      conv_lhs => rw [← hsplit]
      apply SlotRing.layers_append
      intro i hi
      simp only [List.length_drop, List.length_take, slotCount] at *
      omega

theorem Layered.operation {op : Fifo.Op (List UInt8)} (h : Layered s) (hr : Refines s t)
    (hsize : ∀ packet, op = .push packet → packet.length ≤ slotSize)
    (hs : Fifo.step slotCount t op = some t') :
    ∃ s', perform s (.of op) = some s' ∧ Refines s' t' ∧ Layered s' := by
  obtain ⟨s', hperform, hr'⟩ := hr.operation hsize hs
  refine ⟨s', hperform, hr', ?_⟩
  have hlen := hr.queued_length
  cases op with
  | push packet =>
    obtain ⟨s₁, hperform₁, -, hring, htaken, -⟩ :=
      performs_push hr.toShape (hsize packet rfl)
    obtain rfl := Option.some.inj (hperform.symm.trans hperform₁)
    exact h.push hr.le hring htaken
  | take =>
    cases Fifo.step_take hs with
    | inl hempty =>
      have hsem : s.queue.queuesem = 0 := by
        rw [hr.permits, hr.mList_length, hempty.1]
        rfl
      obtain rfl := Option.some.inj ((perform_timeOut hsem).symm.trans hperform)
      exact h
    | inr hnext =>
      obtain ⟨b, hqueued, -⟩ := hnext
      have hroom := hr.room
      rw [hqueued, List.length_cons] at hlen hroom
      have hsem : s.queue.queuesem ≠ 0 := by
        rw [hr.permits, hr.mList_length, hqueued]
        exact Nat.succ_ne_zero _
      obtain ⟨s₁, hperform₁, hpushed, hbuff, htaken⟩ :=
        performs_take hr.toShape hsem (by omega)
      obtain rfl := Option.some.inj (hperform.symm.trans hperform₁)
      exact h.take (by omega) (by omega) hpushed hbuff htaken

theorem run_layered {ops : List (Fifo.Op (List UInt8))}
    (hsize : ∀ packet, .push packet ∈ ops → packet.length ≤ slotSize)
    (hrun : run (Fifo.step slotCount) .empty ops = some t) :
    ∃ s, run perform .fresh (ops.map .of) = some s ∧ Refines s t ∧ Layered s := by
  apply run_simulation (R := fun s t => Refines s t ∧ Layered s) ?_ ⟨refines_fresh, layered_fresh⟩
    hrun
  intro s t op t' hop h hs
  exact h.2.operation h.1 (fun packet he => hsize packet (he ▸ hop)) hs

/-! ### The bytes behind a packet -/

theorem foldl_put_getElem? (ps : List (List UInt8)) (cell : List UInt8) (j : Nat) :
    (ps.foldl packets.put cell)[j]? =
      match (ps.filter fun p => j < p.length).getLast? with
      | some p => p[j]?
      | none => cell[j]? := by
  induction ps using List.reverseRecOn with
  | nil => rfl
  | append_singleton ps p ih =>
    have hput : (ps ++ [p]).foldl packets.put cell =
        p ++ (ps.foldl packets.put cell).drop p.length := by
      rw [List.foldl_append]
      rfl
    rw [hput, List.filter_append]
    by_cases hj : j < p.length
    · rw [List.getElem?_append_left hj]
      simp [hj]
    · rw [List.getElem?_append_right (by omega), List.getElem?_drop]
      have hsub : p.length + (j - p.length) = j := by omega
      rw [hsub, ih]
      simp [hj]

theorem freshCells_getElem? {k : Nat} (hk : k < slotCount) (j : Nat) :
    (freshCells k)[j]? = if j < slotSize then some 0 else none := by
  simp only [freshCells, System.ring, Block.slice_getElem?]
  split
  · next hj =>
    show (Block.zero bufferSize).bytes[slotSize * k + j]? = some 0
    rw [Block.zero, List.getElem?_replicate, if_pos]
    simp only [bufferSize, slotCount, slotSize] at *
    omega
  · rfl

theorem layers_getElem? {earlier : List (List UInt8)}
    (hsize : ∀ p ∈ earlier, p.length ≤ slotSize) (j : Nat) :
    (SlotRing.layers slotCount packets freshCells earlier (earlier.length % slotCount))[j]? =
      if j < slotSize then some (residue earlier j) else none := by
  have hfold : SlotRing.layers slotCount packets freshCells earlier (earlier.length % slotCount) =
      (sameSlot earlier).foldl packets.put (freshCells (earlier.length % slotCount)) := by
    rw [sameSlot, List.foldl_map]
    rfl
  have hslot : earlier.length % slotCount < slotCount := Nat.mod_lt _ (by decide)
  rw [hfold, foldl_put_getElem?, residue]
  cases hlast : ((sameSlot earlier).filter fun p => j < p.length).getLast? with
  | none => exact freshCells_getElem? hslot j
  | some p =>
    obtain ⟨hmem, hlt⟩ := List.mem_filter.mp (List.mem_of_getLast? hlast)
    obtain ⟨⟨p', i⟩, hitem, rfl⟩ := List.mem_map.mp hmem
    have hp : p' ∈ earlier := List.fst_mem_of_mem_zipIdx (List.mem_of_mem_filter hitem)
    have hle := hsize p' hp
    have hj : j < p'.length := by simpa using hlt
    simp only [if_pos (show j < slotSize by omega), List.getElem?_eq_getElem hj, Option.getD_some]

variable {earlier : List (List UInt8)} {data : List UInt8}

/-- A packet is taken with its own bytes and, behind them, what is left of the earlier ones. -/
theorem HandedOut.bytes (h : HandedOut earlier packet data) : packet <+: data ∧
    ∀ j, packet.length ≤ j →
      data[j]? = if j < slotSize then some (residue earlier j) else none := by
  obtain ⟨ops, t, s, hrun, hsize, hperform, hpushes, hdata⟩ := h
  obtain ⟨s₁, hperform₁, hr, hl⟩ := run_layered hsize hrun
  obtain rfl := Option.some.inj (hperform.symm.trans hperform₁)
  have hpushed : s.pushed = Fifo.pushes ops := by
    rw [hr.items, Fifo.run_items hrun]
    rfl
  rw [← hpushed] at hpushes
  have htake : s.pushed.take (earlier.length + 1) = earlier ++ [packet] := by
    rw [List.prefix_iff_eq_take.mp hpushes, List.length_append]
    rfl
  have hput : data = packets.put (SlotRing.layers slotCount packets freshCells earlier
      (earlier.length % slotCount)) packet := by
    rw [hl.taken _ _ hdata, htake]
    exact SlotRing.layers_snoc_self rfl
  have hsmall : ∀ p ∈ earlier, p.length ≤ slotSize := by
    intro p hp
    exact hr.small p (hpushes.subset (List.mem_append_left _ hp))
  subst hput
  refine ⟨List.prefix_append _ _, ?_⟩
  intro j hj
  rw [← layers_getElem? hsmall j]
  show (packet ++ (SlotRing.layers slotCount packets freshCells earlier
    (earlier.length % slotCount)).drop packet.length)[j]? = _
  rw [List.getElem?_append_right hj, List.getElem?_drop]
  congr 1
  omega

/-- Behind two histories the same packet is taken as the same bytes, and so reaches the parser as
the same text, precisely when they left the same bytes behind it: at each position the last earlier
packet in the slot that went so far has the same byte there, or zero where none did. -/
theorem taken_alike_iff (earlier₁ earlier₂ : List (List UInt8)) (packet data₁ data₂ : List UInt8)
    (h₁ : HandedOut earlier₁ packet data₁) (h₂ : HandedOut earlier₂ packet data₂) :
    (data₁ = data₂ ∧ cString (jsonData data₁) = cString (jsonData data₂)) ↔
      ∀ j, packet.length ≤ j → j < 512 → residue earlier₁ j = residue earlier₂ j := by
  obtain ⟨⟨rest₁, rfl⟩, hbytes₁⟩ := h₁.bytes
  obtain ⟨⟨rest₂, rfl⟩, hbytes₂⟩ := h₂.bytes
  constructor
  · intro h j hj hlt
    have he := hbytes₁ j hj
    rw [h.1, hbytes₂ j hj] at he
    simp only [if_pos (show j < slotSize from hlt)] at he
    exact (Option.some.inj he).symm
  · intro h
    have hsame : packet ++ rest₁ = packet ++ rest₂ := by
      apply List.ext_getElem?
      intro j
      by_cases hj : packet.length ≤ j
      · rw [hbytes₁ j hj, hbytes₂ j hj]
        split
        · next hlt => rw [h j hj hlt]
        · rfl
      · have hj : j < packet.length := by omega
        rw [List.getElem?_append_left hj, List.getElem?_append_left hj]
    exact ⟨hsame, by rw [hsame]⟩

/-- Whatever came earlier can have come earlier. -/
theorem handedOut_each (earlier : List (List UInt8)) (packet : List UInt8)
    (hearlier : ∀ p ∈ earlier, p.length ≤ 512) (hpacket : packet.length ≤ 512) :
    ∃ data, HandedOut earlier packet data := by
  have hsize : ∀ p, Fifo.Op.push p ∈ Fifo.each (earlier ++ [packet]) → p.length ≤ 512 := by
    intro p hp
    obtain ⟨p', hp', hmem⟩ := List.mem_flatMap.mp hp
    obtain rfl : p = p' := by simpa using hmem
    exact forall_mem_snoc.mpr ⟨hearlier, hpacket⟩ p hp'
  have hrun : run (Fifo.step slotCount) .empty (Fifo.each (earlier ++ [packet])) = some _ :=
    Fifo.run_each (by decide) _ _
  obtain ⟨s, hperform, hr⟩ := run_refines hsize hrun
  have hlt : earlier.length < s.taken.length := by
    rw [hr.given]
    simp
  refine ⟨_, _, _, s, hrun, hsize, hperform, ?_, List.getElem?_eq_getElem hlt⟩
  rw [Fifo.pushes_each]

/-- Twenty pushes after a payload of two braces, a payload of one is taken with both. -/
theorem taken_with_residue : ∃ data₁ data₂, HandedOut [] [0x37, 0, 0, 0, 0x7b] data₁ ∧
    HandedOut ([0x37, 0, 0, 0, 0x7b, 0x7d] :: List.replicate 19 [0x37, 0, 0, 0])
      [0x37, 0, 0, 0, 0x7b] data₂ ∧
    data₁[5]? = some 0 ∧ data₂[5]? = some 0x7d ∧
    ¬ (data₁ = data₂ ∧ cString (jsonData data₁) = cString (jsonData data₂)) := by
  obtain ⟨data₁, h₁⟩ := handedOut_each [] [0x37, 0, 0, 0, 0x7b] (by simp) (by decide)
  obtain ⟨data₂, h₂⟩ := handedOut_each
    ([0x37, 0, 0, 0, 0x7b, 0x7d] :: List.replicate 19 [0x37, 0, 0, 0]) [0x37, 0, 0, 0, 0x7b]
    (by decide) (by decide)
  have hbyte₁ : data₁[5]? = some 0 := h₁.bytes.2 5 (by decide)
  have hbyte₂ : data₂[5]? = some 0x7d := h₂.bytes.2 5 (by decide)
  refine ⟨data₁, data₂, h₁, h₂, hbyte₁, hbyte₂, ?_⟩
  intro h
  rw [h.1, hbyte₂] at hbyte₁
  cases hbyte₁

/-- Two histories of a round each, whose first packets begin otherwise and end alike. -/
theorem taken_alike_iff_round : ∃ data,
    HandedOut ([1, 2, 3] :: List.replicate 19 [7]) [4] data ∧
    HandedOut ([9, 2, 3] :: List.replicate 19 [8, 8, 8, 8]) [4] data ∧ data[2]? = some 3 := by
  obtain ⟨data₁, h₁⟩ := handedOut_each ([1, 2, 3] :: List.replicate 19 [7]) [4] (by decide)
    (by decide)
  obtain ⟨data₂, h₂⟩ := handedOut_each ([9, 2, 3] :: List.replicate 19 [8, 8, 8, 8]) [4]
    (by decide) (by decide)
  have hslot₁ : sameSlot ([1, 2, 3] :: List.replicate 19 [7]) = [[1, 2, 3]] := by decide
  have hslot₂ : sameSlot ([9, 2, 3] :: List.replicate 19 [8, 8, 8, 8]) = [[9, 2, 3]] := by decide
  have hsame := (taken_alike_iff _ _ _ _ _ h₁ h₂).mpr fun j hj _ => by
    simp only [List.length_singleton] at hj
    rw [residue, residue, hslot₁, hslot₂]
    by_cases hlt : j < 3
    · obtain rfl | rfl : j = 1 ∨ j = 2 := by omega
      all_goals rfl
    · simp [hlt]
  have hbyte : data₁[2]? = some 3 := by
    rw [h₁.bytes.2 2 (by decide), residue, hslot₁]
    rfl
  exact ⟨data₁, h₁, hsame.1 ▸ h₂, hbyte⟩

end RTPVoice.FifoQueue
