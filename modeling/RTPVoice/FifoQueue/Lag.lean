import RTPVoice.FifoQueue.Slots

namespace RTPVoice.FifoQueue

open Framework Framework.Transition

/-- A slot shows a packet when it begins with it; two packets agree as far as both go. -/
def packets : Overlay (List UInt8) (List UInt8) where
  put cell packet := packet ++ cell.drop packet.length
  Shows cell packet := packet <+: cell
  Agrees packet old := old <+: packet ∨ packet <+: old
  shows_put cell packet := List.prefix_append _ _
  shows_put_iff cell packet old hold := by
    constructor
    · exact fun h => List.prefix_or_prefix_of_prefix h (List.prefix_append _ _)
    · intro h
      cases h with
      | inl h => exact h.trans (List.prefix_append _ _)
      | inr h =>
        obtain ⟨t, rfl⟩ := h.trans hold
        rwa [List.drop_left]

variable {s s₁ s₂ : System} {a : Action} {packet : List UInt8}

/-- The slots as a ring, with the packets pushed and taken. -/
def System.ring (s : System) : SlotRing (List UInt8) (List UInt8) :=
  ⟨fun k => s.queue.fifobuff.slice (slotSize * k) slotSize, s.pushed, s.taken.length⟩

/-- `m_list` is the slots of the packets not taken, and `fifo_counter` the slot behind them. -/
structure Shape (s : System) : Prop where
  counter : s.queue.fifoCounter.toNat = s.pushed.length % slotCount
  le : s.taken.length ≤ s.pushed.length
  list : s.queue.mList =
    (List.range' s.taken.length (s.pushed.length - s.taken.length)).map address

/-- The packets taken are the packets pushed, in order and each with its own bytes. -/
def InOrder (s : System) : Prop :=
  s.taken.length ≤ s.pushed.length ∧
    ∀ (k : Nat) (data old : List UInt8), s.taken[k]? = some data →
      s.pushed[k]? = some old → old <+: data

/-- A push leaves the bytes of every packet that is queued and not yet taken. -/
def Unaltered (s₁ : System) (a : Action) (s₂ : System) : Prop :=
  ∀ packet, a = .store packet → ∀ i old, s₁.taken.length ≤ i → s₁.pushed[i]? = some old →
    s₂.queue.fifobuff.slice (address i) old.length =
      s₁.queue.fifobuff.slice (address i) old.length

/-- A packet pushed into the slot of a packet not yet taken agrees with it as far as both go. -/
def Agreeing (s₁ : System) (a : Action) (_ : System) : Prop :=
  ∀ packet, a = .store packet → ∀ i old, s₁.taken.length ≤ i →
    i % slotCount = s₁.pushed.length % slotCount → s₁.pushed[i]? = some old →
    old <+: packet ∨ packet <+: old

theorem shape_fresh : Shape .fresh := ⟨rfl, le_rfl, rfl⟩

/-- A store is a push onto the ring. -/
theorem store_ring (h : Shape s₁) (hp : packet.length ≤ slotSize)
    (hs : step s₁ (.store packet) = some s₂) :
    Shape s₂ ∧ s₂.ring = s₁.ring.push slotCount packets packet ∧ s₂.taken = s₁.taken ∧
      s₂.pushed = s₁.pushed ++ [packet] := by
  obtain ⟨buff, fifoCounter, hbuff, hcounter, hstore⟩ := store_of_le h.counter hp
  simp only [step, hstore, Option.map_some, Option.some.injEq] at hs
  subst hs
  have hle := h.le
  refine ⟨⟨?_, ?_, ?_⟩, ?_, rfl, rfl⟩
  · simpa using hcounter
  · simp only [List.length_append, List.length_singleton]
    omega
  · have hn : (s₁.pushed ++ [packet]).length - s₁.taken.length =
        (s₁.pushed.length - s₁.taken.length) + 1 := by
      simp only [List.length_append, List.length_singleton]
      omega
    simp only [hn, h.list, List.range'_concat, List.map_append, List.map_cons, List.map_nil]
    congr 3
    omega
  · refine SlotRing.ext (funext fun k => ?_) rfl rfl
    by_cases hk : k = s₁.pushed.length % slotCount
    · subst hk
      rw [show s₁.pushed = s₁.ring.items from rfl, SlotRing.push_cells_self]
      exact Block.slice_write_same hbuff hp
    · rw [SlotRing.push_cells_ne _ _ hk]
      refine Block.slice_write_disjoint hbuff ?_
      simp only [address, slotSize] at *
      omega

/-- Everything but a store leaves memory and the packets pushed alone. -/
theorem quiet_step (ha : ∀ packet, a ≠ .store packet) (hs : step s₁ a = some s₂) :
    s₂.queue.fifobuff = s₁.queue.fifobuff ∧ s₂.queue.fifoCounter = s₁.queue.fifoCounter ∧
    s₂.pushed = s₁.pushed ∧
    ((s₂.taken = s₁.taken ∧ s₂.queue.mList = s₁.queue.mList) ∨
      ∃ sBuffer data, s₁.queue.mList = sBuffer :: s₂.queue.mList ∧
        s₁.queue.object.read sBuffer slotSize = some data ∧ s₂.taken = s₁.taken ++ [data]) := by
  cases step_stepsTo hs with
  | store => exact absurd rfl (ha _)
  | semPost | semWait | timeOut | abandon | test => exact ⟨rfl, rfl, rfl, .inl ⟨rfl, rfl⟩⟩
  | pop _ hpop =>
    obtain ⟨sBuffer, mList, hlist, hread, rfl⟩ := popFront_eq_some hpop
    exact ⟨rfl, rfl, rfl, .inr ⟨sBuffer, _, hlist, hread, rfl⟩⟩

theorem read_address (q : FifoQueue) (i : Nat) : q.object.read (address i) slotSize =
    some (q.fifobuff.slice (address i) slotSize) := by
  have hlt : i % slotCount < 20 := Nat.mod_lt i (by decide)
  have hsize := q.fifobuff.size
  have hfit : address i + slotSize ≤ bufferSize := by
    simp only [address, slotSize, bufferSize, slotCount] at *
    omega
  rw [Block.read_eq_slice _ (by omega), Block.slice, FifoQueue.object,
    List.drop_append_of_le_length (by omega), List.take_append_of_le_length
      (by simp only [List.length_drop]; omega)]
  rfl

/-- What holds in every state reached while no push alters an unread packet. -/
structure Sane (s : System) : Prop extends Shape s where
  small : ∀ packet ∈ s.pushed, packet.length ≤ slotSize
  intact : s.ring.Intact slotCount packets
  inOrder : InOrder s

theorem sane_fresh : Sane .fresh :=
  ⟨shape_fresh, by simp [System.fresh], fun i b _ h => by simp [System.ring, System.fresh] at h,
    le_rfl, by simp [System.fresh]⟩

theorem Shape.front (h : Shape s) {sBuffer : Nat} {rest : List Nat}
    (hl : s.queue.mList = sBuffer :: rest) : s.taken.length < s.pushed.length ∧
      sBuffer = address s.taken.length ∧
      rest = (List.range' (s.taken.length + 1) (s.pushed.length - (s.taken.length + 1))).map
        address := by
  have hlist := h.list
  rw [hl] at hlist
  cases hn : s.pushed.length - s.taken.length with
  | zero => simp [hn] at hlist
  | succ n =>
    rw [hn, List.range'_succ, List.map_cons, List.cons.injEq] at hlist
    have hrest : s.pushed.length - (s.taken.length + 1) = n := by omega
    exact ⟨by omega, hlist.1, by rw [hrest]; exact hlist.2⟩

theorem Shape.quiet (h : Shape s₁) (ha : ∀ packet, a ≠ .store packet)
    (hs : step s₁ a = some s₂) : Shape s₂ := by
  obtain ⟨-, hcounter, hpushed, ⟨htaken, hlist⟩ | ⟨sBuffer, data, hlist, -, htaken⟩⟩ :=
    quiet_step ha hs
  · exact ⟨by rw [hcounter, hpushed, h.counter], by rw [htaken, hpushed]; exact h.le,
      by rw [hlist, htaken, hpushed, h.list]⟩
  · obtain ⟨hlt, -, hrest⟩ := h.front hlist
    have hlen : s₂.taken.length = s₁.taken.length + 1 := by simp [htaken]
    exact ⟨by rw [hcounter, hpushed, h.counter], by rw [hlen, hpushed]; exact hlt,
      by rw [hlen, hpushed, hrest]⟩

theorem Sane.quiet (h : Sane s₁) (ha : ∀ packet, a ≠ .store packet)
    (hs : step s₁ a = some s₂) : Sane s₂ := by
  have hshape := h.toShape.quiet ha hs
  obtain ⟨hbuff, -, hpushed, htaken⟩ := quiet_step ha hs
  have hcells : s₂.ring.cells = s₁.ring.cells := by
    funext k
    simp only [System.ring, hbuff]
  have hmono : s₁.taken.length ≤ s₂.taken.length := by
    rcases htaken with ⟨ht, -⟩ | ⟨_, _, -, -, ht⟩ <;> simp [ht]
  refine ⟨hshape, hpushed ▸ h.small, fun i old hi hold => ?_, hshape.le,
    fun k data old hk hold => ?_⟩
  · rw [hcells]
    have hold₁ : s₂.pushed[i]? = some old := hold
    rw [hpushed] at hold₁
    exact h.intact i old (hmono.trans hi) hold₁
  · rw [hpushed] at hold
    rcases htaken with ⟨ht, -⟩ | ⟨sBuffer, data', hlist, hread, ht⟩
    · exact h.inOrder.2 k data old (ht ▸ hk) hold
    · rw [ht] at hk
      cases getElem?_snoc.mp hk with
      | inl hk => exact h.inOrder.2 k data old hk hold
      | inr hnew =>
        obtain ⟨rfl, rfl⟩ := hnew
        obtain ⟨-, rfl, -⟩ := h.toShape.front hlist
        rw [read_address, Option.some.injEq] at hread
        exact hread ▸ h.intact _ old le_rfl hold

/-- A store that alters no unread packet keeps the queue sane, and it is one that agrees. -/
theorem store_unaltered (h : Sane s₁) (hp : packet.length ≤ slotSize)
    (hs : step s₁ (.store packet) = some s₂) :
    (Unaltered s₁ (.store packet) s₂ ↔ s₂.ring.Intact slotCount packets) ∧
    (Unaltered s₁ (.store packet) s₂ ↔ Agreeing s₁ (.store packet) s₂) := by
  obtain ⟨-, hring, htaken, hpushed⟩ := store_ring h.toShape hp hs
  -- an unread packet is unaltered when its slot still shows it
  have hshown (i : Nat) (old : List UInt8) (hi : s₁.taken.length ≤ i)
      (hold : s₁.pushed[i]? = some old) :
      s₂.queue.fifobuff.slice (address i) old.length =
        s₁.queue.fifobuff.slice (address i) old.length ↔
      old <+: s₂.queue.fifobuff.slice (address i) slotSize := by
    have hle : old.length ≤ slotSize := h.small old (List.mem_of_getElem? hold)
    have hnow : old <+: s₁.queue.fifobuff.slice (address i) slotSize := h.intact i old hi hold
    have hcut (b : Block bufferSize) : b.slice (address i) old.length =
        (b.slice (address i) slotSize).take old.length := by
      rw [Block.slice, Block.slice, List.take_take, Nat.min_eq_left hle]
    rw [hcut, hcut, ← List.prefix_iff_eq_take.mp hnow, List.prefix_iff_eq_take]
    exact eq_comm
  have hintact : Unaltered s₁ (.store packet) s₂ ↔ s₂.ring.Intact slotCount packets := by
    constructor
    · intro hu i old hi hold
      have hi₁ : s₁.taken.length ≤ i := htaken ▸ hi
      have hold₁ : (s₁.pushed ++ [packet])[i]? = some old := hpushed ▸ hold
      cases getElem?_snoc.mp hold₁ with
      | inl hold₁ => exact (hshown i old hi₁ hold₁).mp (hu packet rfl i old hi₁ hold₁)
      | inr hnew =>
        obtain ⟨rfl, rfl⟩ := hnew
        rw [hring]
        exact s₁.ring.push_shows old
    · intro hI p he i old hi hold
      cases he
      have hold₂ : s₂.pushed[i]? = some old := by
        rw [hpushed]
        exact getElem?_snoc.mpr (.inl hold)
      have hi₂ : s₂.taken.length ≤ i := by rwa [htaken]
      exact (hshown i old hi hold).mpr (hI i old hi₂ hold₂)
  refine ⟨hintact, ?_⟩
  have hadmits : Agreeing s₁ (.store packet) s₂ ↔ s₁.ring.Admits slotCount packets packet :=
    ⟨fun ha i old hi hcell hold => ha packet rfl i old hi hcell hold,
      fun ha p he i old hi hcell hold => by cases he; exact ha i old hi hcell hold⟩
  rw [hadmits, ← SlotRing.intact_push_iff h.intact, ← hring, hintact]

theorem Sane.store (h : Sane s₁) (hp : packet.length ≤ slotSize)
    (hs : step s₁ (.store packet) = some s₂) (hu : Unaltered s₁ (.store packet) s₂) : Sane s₂ := by
  obtain ⟨hshape, -, htaken, hpushed⟩ := store_ring h.toShape hp hs
  refine ⟨hshape, ?_, (store_unaltered h hp hs).1.mp hu, hshape.le, ?_⟩
  · rw [hpushed]
    exact forall_mem_snoc.mpr ⟨h.small, hp⟩
  · intro k data old hk hold
    rw [htaken] at hk
    have hlt := (List.getElem?_eq_some_iff.mp hk).1
    rw [hpushed, List.getElem?_append_left (hlt.trans_le h.le)] at hold
    exact h.inOrder.2 k data old hk hold

variable {actions : List Action}

theorem sane_step (hsmall : ∀ packet, Action.store packet ∈ actions → packet.length ≤ slotSize)
    (ha : a ∈ actions) (h : Sane s₁) (hs : step s₁ a = some s₂) (hu : Unaltered s₁ a s₂) :
    Sane s₂ := by
  by_cases hstore : ∃ packet, a = .store packet
  · obtain ⟨packet, rfl⟩ := hstore
    exact h.store (hsmall packet ha) hs hu
  · exact h.quiet (fun packet he => hstore ⟨packet, he⟩) hs

/-- The locked part of a push: its thread is then in front of the post. -/
theorem store_steps (h : Shape s) {p : List UInt8} (hp : p.length ≤ slotSize) : ∃ queue,
    step s (.store p) =
      some { s with queue, posting := s.posting + 1, pushed := s.pushed ++ [p] } ∧
    queue.mList = s.queue.mList ++ [address s.pushed.length] ∧
    queue.queuesem = s.queue.queuesem := by
  obtain ⟨buff, fifoCounter, -, -, hstore⟩ := store_of_le h.counter hp
  exact ⟨{ s.queue with
    mList := s.queue.mList ++ [address s.pushed.length]
    fifobuff := buff
    fifoCounter }, by rw [step, hstore]; rfl, rfl, rfl⟩

private theorem step_semPost (h : s.posting ≠ 0) : step s .semPost =
    some { s with queue := s.queue.semPost, posting := s.posting - 1 } := if_neg h

/-- One push: the packet is on the ring, and there is a permit for it. -/
theorem run_push (h : Shape s) {p : List UInt8} (hp : p.length ≤ slotSize) :
    ∃ s', run step s [.store p, .semPost] = some s' ∧ Shape s' ∧
      s'.ring = s.ring.push slotCount packets p ∧
      s'.queue.queuesem = min (s.queue.queuesem + 1) maxPermits := by
  obtain ⟨queue, hstore, -, hsem⟩ := store_steps h hp
  obtain ⟨hshape, hring, -, -⟩ := store_ring h hp hstore
  have hpost := step_semPost (s := { s with
    queue
    posting := s.posting + 1
    pushed := s.pushed ++ [p] }) (Nat.succ_ne_zero s.posting)
  refine ⟨_, by rw [run_cons, hstore, Option.bind_some, run_cons, hpost, Option.bind_some, run_nil],
    hshape.quiet (by simp) hpost, hring, ?_⟩
  simp only [semPost, hsem]

/-- Any number of pushes can follow each other. -/
theorem run_pushes (h : Shape s) (ps : List (List UInt8)) (hp : ∀ p ∈ ps, p.length ≤ slotSize) :
    ∃ s', run step s (ps.flatMap fun p => [.store p, .semPost]) = some s' ∧ Shape s' ∧
      s'.ring = ps.foldl (SlotRing.push slotCount packets) s.ring ∧
      min (s.queue.queuesem + ps.length) maxPermits ≤ s'.queue.queuesem := by
  induction ps generalizing s with
  | nil => exact ⟨s, rfl, h, rfl, Nat.min_le_left _ _⟩
  | cons p ps ih =>
    obtain ⟨s₁, hrun, hshape, hring, hsem⟩ := run_push h (hp p (by simp))
    obtain ⟨s', hrun', hshape', hring', hsem'⟩ := ih hshape fun q hq => hp q (by simp [hq])
    refine ⟨s', ?_, hshape', by rw [hring', hring]; rfl, ?_⟩
    · rw [List.flatMap_cons, run_append, hrun, Option.bind_some, hrun']
    · rw [List.length_cons]
      omega

/-- However threads interleave and however far the takers lag behind, the takers get the packets
pushed, in order and unaltered, precisely when the packets pushed into a slot agree with the unread
ones in it. -/
theorem lagging_takes_iff (actions : List Action) (s : System)
    (hrun : run step .fresh actions = some s)
    (hsmall : ∀ packet, Action.store packet ∈ actions → packet.length ≤ 512) :
    (InOrder s ∧ Throughout step Unaltered .fresh actions) ↔
      Throughout step Agreeing .fresh actions := by
  have hkeep : ∀ s₁ a s₂, a ∈ actions → Sane s₁ → step s₁ a = some s₂ → Unaltered s₁ a s₂ →
      Sane s₂ := fun s₁ a s₂ ha hI hs hu => sane_step hsmall ha hI hs hu
  have hsame : ∀ s₁ a s₂, a ∈ actions → Sane s₁ → step s₁ a = some s₂ →
      (Unaltered s₁ a s₂ ↔ Agreeing s₁ a s₂) := by
    intro s₁ a s₂ ha hI hs
    by_cases hstore : ∃ packet, a = .store packet
    · obtain ⟨packet, rfl⟩ := hstore
      exact (store_unaltered hI (hsmall packet ha) hs).2
    · exact ⟨fun _ p he => absurd ⟨p, he⟩ hstore, fun _ p he => absurd ⟨p, he⟩ hstore⟩
  rw [← throughout_iff sane_fresh hkeep hsame hrun]
  exact ⟨fun h => h.2, fun h => ⟨(throughout_invariant sane_fresh hkeep hrun h).inOrder, h⟩⟩

private theorem step_semWait (h : s.queue.queuesem ≠ 0) : ∃ s', step s .semWait = some s' ∧
    s'.holding ≠ 0 ∧ s'.queue.mList = s.queue.mList ∧ s'.queue.fifobuff = s.queue.fifobuff ∧
    s'.queue.queuesem = s.queue.queuesem - 1 ∧ s'.pushed = s.pushed ∧ s'.taken = s.taken :=
  ⟨_, if_neg h, Nat.succ_ne_zero _, rfl, rfl, rfl, rfl, rfl⟩

private theorem step_test (h : s.holding ≠ 0) (hlist : s.queue.mList ≠ []) : ∃ s',
    step s .test = some s' ∧ s'.passed ≠ 0 ∧ s'.queue = s.queue ∧ s'.pushed = s.pushed ∧
    s'.taken = s.taken :=
  ⟨_, (if_neg h).trans (if_neg hlist), Nat.succ_ne_zero _, rfl, rfl, rfl⟩

private theorem step_pop {i : Nat} {rest : List Nat} (h : s.passed ≠ 0)
    (hlist : s.queue.mList = address i :: rest) : ∃ s', step s .pop = some s' ∧
    s'.queue.queuesem = s.queue.queuesem ∧ s'.pushed = s.pushed ∧
    s'.taken = s.taken ++ [s.queue.fifobuff.slice (address i) slotSize] := by
  rw [step, if_neg h, popFront, hlist]
  simp only [read_address, Option.bind_eq_bind, Option.bind_some]
  exact ⟨_, rfl, rfl, rfl, rfl⟩

/-- A taker alone returns the slot of the oldest packet. -/
theorem run_take (h : Shape s) (hpermit : s.queue.queuesem ≠ 0)
    (hlt : s.taken.length < s.pushed.length) : ∃ s',
    run step s [.semWait, .test, .pop] = some s' ∧ Shape s' ∧ s'.pushed = s.pushed ∧
      s'.taken = s.taken ++ [s.queue.fifobuff.slice (address s.taken.length) slotSize] ∧
      s'.queue.queuesem = s.queue.queuesem - 1 := by
  obtain ⟨sBuffer, rest, hlist⟩ : ∃ sBuffer rest, s.queue.mList = sBuffer :: rest := by
    rw [← List.ne_nil_iff_exists_cons, h.list, ← List.length_pos_iff, List.length_map,
      List.length_range']
    omega
  obtain ⟨-, rfl, -⟩ := h.front hlist
  obtain ⟨s₁, h₁, hholding, hlist₁, hbuff₁, hsem₁, hpushed₁, htaken₁⟩ := step_semWait hpermit
  obtain ⟨s₂, h₂, hpassed, hqueue₂, hpushed₂, htaken₂⟩ :=
    step_test hholding (by simp [hlist₁, hlist])
  obtain ⟨s₃, h₃, hsem₃, hpushed₃, htaken₃⟩ := step_pop hpassed ((hqueue₂ ▸ hlist₁).trans hlist)
  refine ⟨s₃, ?_, ?_, ?_, ?_, ?_⟩
  · rw [run_cons, h₁, Option.bind_some, run_cons, h₂, Option.bind_some, run_cons, h₃,
      Option.bind_some, run_nil]
  · exact ((h.quiet (by simp) h₁).quiet (by simp) h₂).quiet (by simp) h₃
  · rw [hpushed₃, hpushed₂, hpushed₁]
  · rw [htaken₃, htaken₂, htaken₁, hqueue₂, hbuff₁]
  · rw [hsem₃, hqueue₂, hsem₁]

/-- A taker can take as many packets as there are, one after another. -/
theorem run_takes (h : Shape s) (n : Nat) (hpermits : n ≤ s.queue.queuesem)
    (hle : s.taken.length + n ≤ s.pushed.length) : ∃ s',
    run step s (List.replicate n [.semWait, .test, .pop]).flatten = some s' ∧
      s'.pushed = s.pushed ∧ s'.taken.length = s.taken.length + n := by
  induction n generalizing s with
  | zero => exact ⟨s, rfl, rfl, rfl⟩
  | succ n ih =>
    obtain ⟨s₁, hrun, hshape, hpushed, htaken, hsem⟩ := run_take h (by omega) (by omega)
    have hlen : s₁.taken.length = s.taken.length + 1 := by simp [htaken]
    obtain ⟨s', hrun', hpushed', hlen'⟩ := ih hshape (by omega) (by rw [hlen, hpushed]; omega)
    refine ⟨s', ?_, hpushed'.trans hpushed, by omega⟩
    rw [List.replicate_succ, List.flatten_cons, run_append, hrun, Option.bind_some, hrun']

/-- Twenty-one one-byte packets before the first take: it returns the last of them. -/
theorem lagging_take_overwritten : ∃ s, run step .fresh
      ((List.range 21).flatMap (fun i => [.store [UInt8.ofNat i], .semPost]) ++
        [.semWait, .test, .pop]) = some s ∧
    s.pushed = (List.range 21).map (fun i => [UInt8.ofNat i]) ∧
    (∃ data, s.taken = [20 :: data]) ∧ ¬ InOrder s := by
  obtain ⟨s₁, hrun₁, hshape₁, hring₁, -⟩ := run_pushes shape_fresh
    ((List.range 20).map fun i => [UInt8.ofNat i]) (by decide)
  obtain ⟨s₂, hrun₂, hshape₂, hring₂, hpermit⟩ := run_push hshape₁ (p := [20]) (by decide)
  have hitems₁ : s₁.ring.items = (List.range 20).map fun i => [UInt8.ofNat i] := by
    rw [hring₁]
    rfl
  have htaken₁ : s₁.ring.taken = 0 := by
    rw [hring₁]
    rfl
  have hpushed₂ : s₂.pushed = (List.range 21).map fun i => [UInt8.ofNat i] := by
    rw [show s₂.pushed = s₂.ring.items from rfl, hring₂, SlotRing.push, hitems₁]
    rfl
  have htaken₂ : s₂.taken = [] := by
    rw [← List.length_eq_zero_iff, show s₂.taken.length = s₂.ring.taken from rfl, hring₂]
    exact htaken₁
  obtain ⟨s, hrun, -, hpushed, htaken, -⟩ := run_take hshape₂
    (by simp only [maxPermits] at hpermit; omega) (by rw [htaken₂, hpushed₂]; simp)
  -- the slot of the first packet shows the last one
  have hshows : [20] <+: s₂.queue.fifobuff.slice (address s₂.taken.length) slotSize := by
    have hlast := s₁.ring.push_shows (m := slotCount) (w := packets) [20]
    rw [← hring₂, hitems₁] at hlast
    rw [htaken₂]
    exact hlast
  obtain ⟨data, hdata⟩ := hshows
  rw [← hdata, htaken₂] at htaken
  refine ⟨s, ?_, hpushed.trans hpushed₂, ⟨data, htaken⟩, fun hin => ?_⟩
  · have hacts : (List.range 21).flatMap (fun i => [Action.store [UInt8.ofNat i], .semPost]) =
        ((List.range 20).map fun i => [UInt8.ofNat i]).flatMap (fun p => [.store p, .semPost]) ++
          [.store [20], .semPost] := rfl
    rw [hacts, List.append_assoc, run_append, hrun₁, Option.bind_some, run_append, hrun₂,
      Option.bind_some, hrun]
  · have hfirst := hin.2 0 (20 :: data) [0] (by rw [htaken]; rfl) (by rw [hpushed, hpushed₂]; rfl)
    obtain ⟨t, ht⟩ := hfirst
    simp at ht

/-! ### A run that lags -/

/-- The packet that a step stores. -/
def Action.stored? : Action → Option (List UInt8)
  | .store packet => some packet
  | _ => none

theorem run_pushed (hrun : run step s actions = some s₁) :
    s₁.pushed = s.pushed ++ actions.filterMap Action.stored? := by
  induction actions generalizing s with
  | nil =>
    cases hrun
    simp
  | cons a actions ih =>
    obtain ⟨s', hs, hrun⟩ := Option.bind_eq_some_iff.mp hrun
    rw [ih hrun]
    cases step_stepsTo hs with
    | store => simp [Action.stored?]
    | semPost | semWait | timeOut | abandon | test | pop => rfl

/-- Packets that agree wherever they go to one slot can be taken late. -/
theorem agreeing_of_pushed (h : ∀ i n old packet, i < n → i % slotCount = n % slotCount →
    (actions.filterMap Action.stored?)[i]? = some old →
    (actions.filterMap Action.stored?)[n]? = some packet → old <+: packet ∨ packet <+: old) :
    Throughout step Agreeing .fresh actions := by
  intro pre a post he s₁ s₂ h₁ _ packet hstore i old _ hslot hold
  subst hstore
  have hpushed : s₁.pushed = pre.filterMap Action.stored? := run_pushed h₁
  have hall : actions.filterMap Action.stored? =
      s₁.pushed ++ packet :: post.filterMap Action.stored? := by
    rw [he, hpushed]
    simp [Action.stored?]
  have hlt := (List.getElem?_eq_some_iff.mp hold).1
  refine h i s₁.pushed.length old packet hlt hslot ?_ ?_
  · rw [hall, List.getElem?_append_left hlt, hold]
  · simp [hall]

/-- Twenty-one packets before the first take, of which the last begins like the first; then three
takes. -/
theorem lagging_takes_iff_late : ∃ s, run step .fresh
      ((((List.range 20).map fun i => [UInt8.ofNat i]) ++ [[0, 9]]).flatMap
        (fun p => [.store p, .semPost]) ++
        (List.replicate 3 [.semWait, .test, .pop]).flatten) = some s ∧
    s.pushed.length = 21 ∧ s.taken.length = 3 ∧ InOrder s ∧
    Throughout step Unaltered .fresh
      ((((List.range 20).map fun i => [UInt8.ofNat i]) ++ [[0, 9]]).flatMap
        (fun p => [.store p, .semPost]) ++
        (List.replicate 3 [.semWait, .test, .pop]).flatten) := by
  obtain ⟨s₁, hrun₁, hshape, hring, hsem⟩ := run_pushes shape_fresh
    (((List.range 20).map fun i => [UInt8.ofNat i]) ++ [[0, 9]]) (by decide)
  have hpushed : s₁.pushed.length = 21 := by
    rw [show s₁.pushed = s₁.ring.items from rfl, hring]
    rfl
  have htaken : s₁.taken.length = 0 := by
    rw [show s₁.taken.length = s₁.ring.taken from rfl, hring]
    rfl
  obtain ⟨s, hrun₂, hpushed', htaken'⟩ := run_takes hshape 3
    ((show 3 ≤ 21 by decide).trans hsem) (by omega)
  have hrun : run step .fresh (((((List.range 20).map fun i => [UInt8.ofNat i]) ++
      [[0, 9]]).flatMap fun p => [.store p, .semPost]) ++
      (List.replicate 3 [.semWait, .test, .pop]).flatten) = some s := by
    rw [run_append, hrun₁, Option.bind_some, hrun₂]
  refine ⟨s, hrun, by rw [hpushed', hpushed], by omega, (lagging_takes_iff _ s hrun ?_).mpr ?_⟩
  · intro packet hpacket
    obtain ⟨i, -, rfl⟩ | rfl : (∃ i, i < 20 ∧ [UInt8.ofNat i] = packet) ∨ packet = [0, 9] := by
      simpa using hpacket
    · exact Nat.le_of_ble_eq_true rfl
    · decide
  · apply agreeing_of_pushed
    intro i n old packet hlt hslot hold hpacket
    have hn := (List.getElem?_eq_some_iff.mp hpacket).1
    have hlast : n < 21 := hn
    simp only [slotCount] at hslot
    -- only the slot of the first packet is written twice
    obtain rfl : n = 20 := by omega
    obtain rfl : i = 0 := by omega
    cases hold
    cases hpacket
    exact .inl ⟨[9], rfl⟩

end RTPVoice.FifoQueue
