import RTPVoice.ClientObj.Delivery
import RTPVoice.ClientObj.CopyIn
import RTPVoice.Framework.Transition
import RTPVoice.SocketWrap.Transfer

namespace RTPVoice.ClientObj

open Framework Framework.Loop Framework.Framing SocketWrap

/-- The thread that reads from one client. `handed` and `calls` record what it gave to
`StickDismantleProtocol` and what came of that. -/
structure ReqThread where
  recvbuff : Block bufLength
  tempOption : StickDismantleOptions
  returnValue : Int
  inLoop : Bool
  handed : List (List UInt8)
  calls : List Call
  deriving DecidableEq

def ReqThread.initial : ReqThread := ⟨Block.zero bufLength, .zero, 0, true, [], []⟩

/-- What one turn of the loop meets: `set_thread_exit_flag`, or else what `recv` gives. -/
inductive Turn where
  | exitFlag
  | recv (received : Transfer (List UInt8))
  deriving DecidableEq

/-- One turn of the loop of `ProcessClientReqThreadFunc`; there is none behind the loop. -/
def processClientReq (fuel : Nat) (clientfd : HSocket) (s : ReqThread) :
    Turn → Option ReqThread
  | .exitFlag => if s.inLoop then some { s with inLoop := false } else none
  | .recv received =>
    if s.inLoop then do
      let (recvbuff, rt) ← socketRecv s.recvbuff recvLimit received
      if 0 < rt.nbytes then
        let first ← recvbuff.get 0
        if first = 0x51 ∧ rt.nbytes = 1 then
          -- a single 'Q', for testing
          return { s with recvbuff, returnValue := 0, inLoop := false }
        else
          let chunk ← recvbuff.read 0 rt.nbytes
          match stickDismantleProtocol fuel clientfd chunk s.tempOption with
          | .returned (returnValue, tempOption) calls =>
            return { s with
              recvbuff := Block.zero bufLength, tempOption, returnValue
              handed := s.handed ++ [chunk], calls := s.calls ++ calls }
          | _ => none
      else if rt.nbytes = -1 ∧ rt.nresult = 1 then
        return { s with recvbuff }
      else if rt.nresult = -1 then
        return { s with recvbuff, returnValue := -1, inLoop := false }
      else
        return { s with recvbuff }
    else none

/-- The chunk a turn receives. -/
def Turn.chunk : Turn → Option (List UInt8)
  | .recv (.done c) => some c
  | _ => none

/-- The connection is closed or has failed, or the thread is to end. -/
def Turn.Final (t : Turn) : Prop :=
  t = .exitFlag ∨ t = .recv (.done []) ∨ t = .recv (.error false)

variable {fuel : Nat} {clientfd : HSocket} {s s' : ReqThread} {t : Turn} {c : List UInt8}

/-! ### One turn -/

theorem turn_inLoop (h : processClientReq fuel clientfd s t = some s') : s.inLoop = true := by
  by_contra hn
  cases t <;> simp [processClientReq, hn] at h

theorem turn_timeout (hs : s.inLoop = true) :
    processClientReq fuel clientfd s (.recv (.error true)) = some s := by
  cases s
  cases hs
  rfl

/-- What a turn does with bytes received. -/
theorem turn_done (fuel : Nat) (clientfd : HSocket) (hs : s.inLoop = true) (hne : c ≠ [])
    (hle : c.length ≤ bufLength) :
    ∃ recvbuff, processClientReq fuel clientfd s (.recv (.done c)) =
      if c = [0x51] then some { s with recvbuff, returnValue := 0, inLoop := false }
      else
        match stickDismantleProtocol fuel clientfd c s.tempOption with
        | .returned (returnValue, tempOption) calls => some { s with
            recvbuff := Block.zero bufLength, tempOption, returnValue
            handed := s.handed ++ [c], calls := s.calls ++ calls }
        | _ => none := by
  obtain ⟨recvbuff, hrecv, hholds⟩ := socketRecv_done s.recvbuff recvLimit (by decide)
    hne hle
  obtain ⟨b, bs, rfl⟩ := List.exists_cons_of_ne_nil hne
  have hget : recvbuff.get 0 = some b :=
    hholds.get (Int.le_refl 0) (by simp only [List.length_cons]; omega)
  have hread : recvbuff.read 0 (b :: bs).length = some (b :: bs) := by
    have h := hholds.read (Int.le_refl 0) (Int.natCast_nonneg (b :: bs).length) (by omega)
    simpa using h
  have hpos : (0 : Int) < (b :: bs).length := by simp only [List.length_cons]; omega
  have hq : (b = 0x51 ∧ ((b :: bs).length : Int) = 1) ↔ b :: bs = [0x51] := by
    rw [List.cons.injEq, ← List.length_eq_zero_iff, List.length_cons]
    exact and_congr_right fun _ => by omega
  refine ⟨recvbuff, ?_⟩
  simp only [processClientReq, hs, if_true, hrecv, Option.bind_eq_bind, Option.bind_some, hpos,
    hget, hread, hq]
  rfl

/-- A turn ends the loop when the connection is at its end or the thread is asked to, and when it
receives a single `Q`. -/
theorem turn_leaves_iff (hle : ∀ c, t.chunk = some c → c.length ≤ bufLength)
    (h : processClientReq fuel clientfd s t = some s') :
    s'.inLoop = false ↔ t.Final ∨ t.chunk = some [0x51] := by
  have hs := turn_inLoop h
  cases t with
  | exitFlag =>
    rw [processClientReq, if_pos hs] at h
    cases h
    simp [Turn.Final]
  | recv received =>
    cases received with
    | error tryAgain =>
      cases tryAgain with
      | false =>
        simp [processClientReq, hs, socketRecv, recvLimit] at h
        subst h
        simp [Turn.Final]
      | true =>
        rw [turn_timeout hs] at h
        cases h
        simp [Turn.Final, Turn.chunk, hs]
    | done c =>
      by_cases hne : c = []
      · subst hne
        simp [processClientReq, hs, socketRecv, recvLimit] at h
        subst h
        simp [Turn.Final]
      · obtain ⟨recvbuff, hdone⟩ := turn_done fuel clientfd hs hne
          (hle c rfl)
        rw [hdone] at h
        by_cases hq : c = [0x51]
        · rw [if_pos hq] at h
          cases h
          simp [Turn.chunk, hq]
        · rw [if_neg hq] at h
          split at h
          · cases h
            simp [Turn.Final, Turn.chunk, hs, hne, hq]
          · cases h

/-! ### Runs of the loop -/

theorem stickDismantleProtocol_mono {n m : Nat} (hnm : n ≤ m) {o : StickDismantleOptions}
    {r : Int × StickDismantleOptions} {calls : List Call}
    (h : stickDismantleProtocol n clientfd c o = .returned r calls) :
    stickDismantleProtocol m clientfd c o = .returned r calls := by
  unfold stickDismantleProtocol at h ⊢
  split at h
  · next hlt => rw [if_pos hlt, h]
  · next hlt =>
    rw [if_neg hlt]
    split at h
    · cases h
    · exact run_mono hnm h

variable {chunks : List (List UInt8)} {turns : List Turn}

/-- The turns are the arrivals of the chunks, in order, and timeouts. -/
structure Arrivals (turns : List Turn) (chunks : List (List UInt8)) : Prop where
  chunks : turns.filterMap Turn.chunk = chunks
  quiet : ∀ t ∈ turns, t.chunk = none → t = .recv (.error true)

theorem Arrivals.tail (h : Arrivals (t :: turns) chunks) :
    (t = .recv (.error true) ∧ Arrivals turns chunks) ∨
      ∃ c cs, t = .recv (.done c) ∧ chunks = c :: cs ∧ Arrivals turns cs := by
  obtain ⟨hc, hquiet⟩ := h
  have hrest : ∀ t ∈ turns, t.chunk = none → t = .recv (.error true) :=
    fun u hu => hquiet u (List.mem_cons_of_mem t hu)
  cases ht : t.chunk with
  | none =>
    rw [List.filterMap_cons_none ht] at hc
    exact .inl ⟨hquiet t (by simp) ht, hc, hrest⟩
  | some c =>
    rw [List.filterMap_cons_some ht] at hc
    refine .inr ⟨c, _, ?_, hc.symm, rfl, hrest⟩
    cases t with
    | exitFlag => cases ht
    | recv received =>
      cases received with
      | done c' =>
        cases ht
        rfl
      | error => cases ht

/-- The loop does with its chunks, one a turn, what the calls on them do. -/
theorem run_arrivals {o o' : StickDismantleOptions} {outs : List (List Call)}
    (h : Arrivals turns chunks) (hf : Feeds clientfd o chunks outs o')
    (hsizes : ∀ c ∈ chunks, 1 ≤ c.length ∧ c.length ≤ recvLimit) (hq : [0x51] ∉ chunks) :
    ∃ n, ∀ fuel ≥ n, ∀ s : ReqThread, s.inLoop = true → s.tempOption = o →
      ∃ s', Transition.run (processClientReq fuel clientfd) s turns = some s' ∧
        s'.inLoop = true ∧ s'.tempOption = o' ∧ s'.handed = s.handed ++ chunks ∧
        s'.calls = s.calls ++ outs.flatten := by
  induction turns generalizing o chunks outs with
  | nil =>
    obtain rfl := h.chunks
    cases hf
    exact ⟨0, fun fuel _ s hs ho => ⟨s, rfl, hs, ho, by simp, by simp⟩⟩
  | cons t turns ih =>
    rcases h.tail with ⟨rfl, ht⟩ | ⟨c, cs, rfl, rfl, ht⟩
    · obtain ⟨n, hn⟩ := ih ht hf hsizes hq
      refine ⟨n, fun fuel hfuel s hs ho => ?_⟩
      obtain ⟨s', hrun, hs'⟩ := hn fuel hfuel s hs ho
      exact ⟨s', by rw [Transition.run_cons, turn_timeout hs]; exact hrun, hs'⟩
    · cases hf with
      | @cons _ _ o₁ calls _ outs _ hc hf =>
        obtain ⟨k, ret, hcall⟩ := hc
        obtain ⟨n, hn⟩ := ih ht hf (fun d hd => hsizes d (by simp [hd]))
          (fun hmem => hq (List.mem_cons_of_mem c hmem))
        have hsize := hsizes c (by simp)
        have hne : c ≠ [0x51] := fun he => hq (by simp [he])
        refine ⟨max k n, fun fuel hfuel s hs ho => ?_⟩
        obtain ⟨recvbuff, hturn⟩ := turn_done fuel clientfd hs
          (List.length_pos_iff.mp hsize.1) (hsize.2.trans (by decide))
        rw [if_neg hne, ho,
          stickDismantleProtocol_mono ((Nat.le_max_left k n).trans hfuel) hcall] at hturn
        obtain ⟨s', hrun, hin, ho', hhanded, hcalls⟩ := hn fuel ((Nat.le_max_right k n).trans hfuel)
          ⟨Block.zero bufLength, o₁, ret, s.inLoop, s.handed ++ [c], s.calls ++ calls⟩ hs rfl
        exact ⟨s', by rw [Transition.run_cons, hturn]; exact hrun, hin, ho',
          by simpa using hhanded, by simpa using hcalls⟩

/-- A run that is still in the loop has met nothing that ends it. -/
theorem run_inLoop (hle : ∀ t ∈ turns, ∀ c, t.chunk = some c → c.length ≤ bufLength)
    (h : Transition.run (processClientReq fuel clientfd) s turns = some s')
    (hs : s'.inLoop = true) : ∀ t ∈ turns, ¬ (t.Final ∨ t.chunk = some [0x51]) := by
  induction turns using List.reverseRecOn generalizing s' with
  | nil => simp
  | append_singleton turns t ih =>
    rw [Transition.run_snoc] at h
    obtain ⟨s₁, h₁, hstep⟩ := Option.bind_eq_some_iff.mp h
    intro u hu
    cases List.mem_append.mp hu with
    | inl hu =>
      exact ih (fun v hv => hle v (List.mem_append_left _ hv)) h₁ (turn_inLoop hstep) u hu
    | inr hu =>
      obtain rfl := List.mem_singleton.mp hu
      rw [← turn_leaves_iff (hle u (by simp)) hstep, hs]
      decide

/-- Every chunk is handed on and every frame pushed with the loop not left, and then it is left only
at the end of the connection or on demand. -/
def StaysToEnd (clientfd : HSocket) (ps chunks : List (List UInt8)) (turns : List Turn) : Prop :=
  ∃ fuel s, Transition.run (processClientReq fuel clientfd) .initial turns = some s ∧
    s.inLoop = true ∧ s.handed = chunks ∧ Delivered clientfd s.calls ps ∧
    ∀ t s', t.chunk = none → processClientReq fuel clientfd s t = some s' →
      (s'.inLoop = false ↔ t.Final)

/-- A chunk that is a single `Q` ends the loop before its turn is over. -/
theorem not_staysToEnd {ps : List (List UInt8)}
    (hsizes : ∀ c ∈ chunks, 1 ≤ c.length ∧ c.length ≤ recvLimit) (harrive : Arrivals turns chunks)
    (hmem : [0x51] ∈ chunks) : ¬ StaysToEnd clientfd ps chunks turns := by
  intro h
  obtain ⟨fuel, s, hrun, hin, -⟩ := h
  have hle : ∀ t ∈ turns, ∀ c, t.chunk = some c → c.length ≤ bufLength := by
    intro t ht c hc
    have hc' : c ∈ chunks := harrive.chunks ▸ List.mem_filterMap.mpr ⟨t, ht, hc⟩
    exact (hsizes c hc').2.trans (by decide)
  rw [← harrive.chunks] at hmem
  obtain ⟨t, ht, hq⟩ := List.mem_filterMap.mp hmem
  exact run_inLoop hle hrun hin t ht (.inr hq)

/-- Whatever the payloads, the cuts behind headers and the timeouts, this holds exactly when no
chunk is a single `Q`. -/
theorem stays_to_end_iff (clientfd : HSocket) (ps chunks : List (List UInt8)) (turns : List Turn)
    (hps : ∀ p ∈ ps, Conforming 508 p) (hwhole : chunks.flatten = stream frame ps)
    (hsizes : ∀ c ∈ chunks, 1 ≤ c.length ∧ c.length ≤ recvLimit)
    (hheader : ∀ k, ¬ InHeader frame 5 ps (offset chunks k)) (harrive : Arrivals turns chunks) :
    StaysToEnd clientfd ps chunks turns ↔ [0x51] ∉ chunks := by
  refine ⟨fun h hmem => not_staysToEnd hsizes harrive hmem h, fun hq => ?_⟩
  obtain ⟨outs, o, hf, hd, -⟩ := conforming_stream_reassembled clientfd ps chunks
    (fun p hp => ⟨(hps p hp).pos, (hps p hp).le.trans (by decide), (hps p hp).brace⟩)
    hwhole hsizes hheader
  obtain ⟨n, hn⟩ := run_arrivals harrive hf hsizes hq
  obtain ⟨s, hrun, hin, -, hhanded, hcalls⟩ := hn n le_rfl .initial rfl rfl
  refine ⟨n, s, hrun, hin, hhanded, ?_, fun t s' ht h => ?_⟩
  · rw [hcalls]
    exact hd
  · rw [turn_leaves_iff (by simp [ht]) h, ht]
    simp

/-- The last byte of the payload arrives alone, behind a timeout. -/
theorem stays_to_end_iff_timeout : StaysToEnd 7 [[0x7D]] [[1, 0x30, 0x30, 0x30, 0x31], [0x7D]]
    [.recv (.done [1, 0x30, 0x30, 0x30, 0x31]), .recv (.error true), .recv (.done [0x7D])] := by
  refine (stays_to_end_iff 7 [[0x7D]] [[1, 0x30, 0x30, 0x30, 0x31], [0x7D]] _ (by decide)
    (by decide) (by decide) ?_ ⟨rfl, ?_⟩).mpr (by decide)
  · intro k hin
    obtain ⟨j, hj, hlo, hhi⟩ := hin
    obtain rfl : j = 0 := by simpa using hj
    rcases k with _ | _ | k <;> simp [start, offset] at hlo hhi
  · simp [Turn.chunk]

/-- The first byte of the payload is a `Q` that arrives alone. -/
theorem single_q_ends_loop : ∃ (ps chunks : List (List UInt8)) (turns : List Turn),
    ps = [[0x51, 0x7D]] ∧ chunks = [[1, 0x30, 0x30, 0x30, 0x32], [0x51], [0x7D]] ∧
    (∀ p ∈ ps, Conforming 508 p) ∧ chunks.flatten = stream frame ps ∧
    (∀ c ∈ chunks, 1 ≤ c.length ∧ c.length ≤ recvLimit) ∧
    (∀ k, ¬ InHeader frame 5 ps (offset chunks k)) ∧ Arrivals turns chunks ∧
    ¬ StaysToEnd 7 ps chunks turns := by
  have harrive : Arrivals [.recv (.done [1, 0x30, 0x30, 0x30, 0x32]), .recv (.done [0x51]),
      .recv (.done [0x7D])] [[1, 0x30, 0x30, 0x30, 0x32], [0x51], [0x7D]] :=
    ⟨rfl, by simp [Turn.chunk]⟩
  refine ⟨_, _, _, rfl, rfl, by decide, by decide, by decide, ?_, harrive,
    not_staysToEnd (by decide) harrive (by decide)⟩
  intro k hin
  obtain ⟨j, hj, hlo, hhi⟩ := hin
  obtain rfl : j = 0 := by simpa using hj
  rcases k with _ | _ | k <;> simp [start, offset] at hlo hhi
  omega

end RTPVoice.ClientObj
