import RTPVoice.ClientObj.Admission
import RTPVoice.Server.Client

namespace RTPVoice.Server

open Framework Framework.Framing Json ClientObj SocketWrap

variable {lib : Library} {w : StyledWriter} {rand : Nat → Nat → Nat → Nat}
  {clientmap : List SocketParams} {clientfd : HSocket} {s s' : Client} {a : Action}
  {ps chunks handed : List (List UInt8)} {calls : List Call} {outs : List (List Call)}
  {o : StickDismantleOptions}

/-! ### The packets of calls -/

theorem packets_append (calls calls' : List Call) : packets (calls ++ calls') =
    (packets calls).bind fun ps => (packets calls').map (ps ++ ·) := by
  induction calls with
  | nil =>
    cases h : packets calls' <;> simp [packets, h]
  | cons call calls ih =>
    cases call with
    | sscanf | socketClearRecvBuffer => exact ih
    | pushRecvBuffToQueue fd buff len =>
      rw [List.cons_append, packets, packets, ih]
      cases packet fd buff len <;> cases packets calls <;> cases packets calls' <;> simp

/-- A packet as it is queued: the handle in four bytes, then the payload. -/
def record (clientfd : HSocket) (p : List UInt8) : List UInt8 := handleField clientfd ++ p

theorem record_length (p : List UInt8) : (record clientfd p).length = p.length + 4 := by
  rw [record, List.length_append, handleField_length, handleSize, Nat.add_comm]

/-- Payloads handed on become one packet each, those of more than 512 bytes none. -/
theorem packets_of_delivered (hfd : clientfd ≠ invalidSocket) (h : Delivered clientfd calls ps) :
    packets calls = some ((ps.filter (·.length ≤ 512)).map (record clientfd)) := by
  induction calls generalizing ps with
  | nil =>
    cases h
    rfl
  | cons call calls ih =>
    cases call with
    | sscanf | socketClearRecvBuffer => exact ih h
    | pushRecvBuffToQueue fd buff len =>
      cases h with
      | @cons _ p _ ps hcarry hrest =>
        obtain ⟨buff', heq, hpre⟩ := hcarry
        cases heq
        have hle := hpre.length_le
        have hin : ¬ ((p.length : Int) < 0 ∨ (buff.length : Int) < p.length) := by omega
        by_cases hp : p.length ≤ 512
        · have hlong : ¬ (512 : Int) < p.length := by omega
          simp only [packets, packet, if_neg hlong, if_neg hin, Int.toNat_natCast,
            ← List.prefix_iff_eq_take.mp hpre, pushRecvBuffToQueue_record hfd hp, ih hrest,
            Option.map_some, Option.bind_eq_bind, Option.bind_some]
          rw [List.filter_cons_of_pos (by simpa using hp)]
          rfl
        · have hlong : (512 : Int) < p.length := by omega
          simp only [packets, packet, if_pos hlong, ih hrest, Option.bind_eq_bind,
            Option.bind_some]
          rw [List.filter_cons_of_neg (by simpa using hp)]
          rfl

theorem packets_delivered (hfd : clientfd ≠ invalidSocket) (hps : ∀ p ∈ ps, p.length ≤ 512)
    (h : Delivered clientfd calls ps) : packets calls = some (ps.map (record clientfd)) := by
  rw [packets_of_delivered hfd h, List.filter_eq_self.mpr fun p hp => by simpa using hps p hp]

/-! ### One turn of the reading thread -/

/-- A turn hands one chunk to `StickDismantleProtocol`, or none. -/
theorem turn_calls {fuel : Nat} {r r' : ReqThread} {t : Turn}
    (h : processClientReq fuel clientfd r t = some r') :
    (r'.handed = r.handed ∧ r'.calls = r.calls ∧ r'.tempOption = r.tempOption) ∨
    ∃ c calls, r'.handed = r.handed ++ [c] ∧ r'.calls = r.calls ++ calls ∧
      Receives clientfd r.tempOption c r'.tempOption calls ∧ c ≠ [] ∧ c.length ≤ bufLength := by
  have hin := turn_inLoop h
  cases t with
  | exitFlag =>
    rw [processClientReq, if_pos hin] at h
    cases h
    exact .inl ⟨rfl, rfl, rfl⟩
  | recv received =>
    cases received with
    | error tryAgain =>
      cases tryAgain <;> simp [processClientReq, hin, socketRecv, recvLimit] at h <;> subst h <;>
        exact .inl ⟨rfl, rfl, rfl⟩
    | done c =>
      by_cases hne : c = []
      · subst hne
        simp [processClientReq, hin, socketRecv, recvLimit] at h
        subst h
        exact .inl ⟨rfl, rfl, rfl⟩
      · by_cases hle : c.length ≤ bufLength
        · obtain ⟨recvbuff, hdone⟩ := turn_done fuel clientfd hin hne hle
          rw [hdone] at h
          split at h
          · cases h
            exact .inl ⟨rfl, rfl, rfl⟩
          · split at h
            · next ret o' calls hcall =>
              cases h
              exact .inr ⟨c, calls, rfl, rfl, ⟨fuel, ret, hcall⟩, hne, hle⟩
            · cases h
        · -- more than the buffer holds
          obtain ⟨b, bs, rfl⟩ := List.exists_cons_of_ne_nil hne
          have hwrite : r.recvbuff.write 0 (b :: bs) = none := dif_neg (by simpa using hle)
          simp [processClientReq, hin, socketRecv, recvLimit, hwrite] at h

/-! ### The packets pushed -/

/-- What was handed to `StickDismantleProtocol` and what came of it: the packets are pushed, or
still to be. -/
structure Receiving (clientfd : HSocket) (s : Client) : Prop where
  fed : ∃ outs, Feeds clientfd .zero s.reqThread.handed outs s.reqThread.tempOption ∧
    s.reqThread.calls = outs.flatten
  pushed : packets s.reqThread.calls = some (s.jqueue.pushed ++ s.toPush)

theorem receiving_initial : Receiving clientfd .initial := ⟨⟨[], .nil _, rfl⟩, rfl⟩

/-- Of the queue's steps only a store is a push. -/
theorem queue_pushed {q q' : FifoQueue.System} {b : FifoQueue.Action}
    (hb : ∀ packet, b ≠ .store packet) (h : FifoQueue.step q b = some q') :
    q'.pushed = q.pushed := (FifoQueue.quiet_step hb h).2.2.1

theorem receiving_step (h : Receiving clientfd s)
    (hs : step lib w rand clientmap clientfd s a = some s') : Receiving clientfd s' := by
  obtain ⟨⟨outs, hfeeds, hcalls⟩, hpushed⟩ := h
  cases step_stepsTo hs with
  | turn hidle hout hturn hpackets =>
    rw [hidle, List.append_nil] at hpushed
    rcases turn_calls hturn with ⟨hhanded, hsame, ho⟩ | ⟨c, calls, hhanded, hmore, hreceives, -⟩
    · rw [hsame, List.drop_length] at hpackets
      cases hpackets
      refine ⟨⟨outs, ?_, hsame.trans hcalls⟩, ?_⟩
      · simp only [hhanded, ho]
        exact hfeeds
      · simpa [hsame] using hpushed
    · rw [hmore, List.drop_left] at hpackets
      refine ⟨⟨outs ++ [calls], ?_, ?_⟩, ?_⟩
      · simp only [hhanded]
        exact hfeeds.snoc hreceives
      · simp [hmore, hcalls]
      · simp only [hmore, packets_append, hpushed, hpackets, Option.bind_some, Option.map_some]
  | store hnext hout hstore =>
    obtain ⟨queue, -, rfl⟩ := Option.map_eq_some_iff.mp hstore
    rw [hnext] at hpushed
    exact ⟨⟨outs, hfeeds, hcalls⟩, by simpa using hpushed⟩
  | semPost hq | semWait _ hq | timeOut _ hq | test hq | pop hq =>
    exact ⟨⟨outs, hfeeds, hcalls⟩, by
      simp only [queue_pushed (fun _ => by simp) hq]
      exact hpushed⟩
  | parse | send | sent => exact ⟨⟨outs, hfeeds, hcalls⟩, hpushed⟩

/-- The chunks handed on only become more. -/
theorem handed_step (hs : step lib w rand clientmap clientfd s a = some s') :
    s.reqThread.handed <+: s'.reqThread.handed := by
  cases step_stepsTo hs with
  | turn hidle hout hturn =>
    rcases turn_calls hturn with ⟨hhanded, -⟩ | ⟨c, calls, hhanded, -⟩
    · exact hhanded ▸ List.prefix_rfl
    · exact hhanded ▸ List.prefix_append _ _
  | store | semPost | semWait | timeOut | test | pop | parse | send | sent => exact List.prefix_rfl

/-- Whatever part of the chunks has come, the payloads complete by then were handed on. -/
theorem delivered_of_prefix (hcut : Cutting ps chunks)
    (hpass : ∀ j p, ps[j]? = some p → Passes ps chunks j p)
    (hf : Feeds clientfd .zero handed outs o) (hpre : handed <+: chunks) :
    Delivered clientfd outs.flatten (completed frame ps handed.flatten.length) := by
  obtain ⟨outs₀, o₀, hfeeds, -, hdelivered⟩ := hands_over clientfd hcut hpass
  obtain ⟨o₁, htake, -⟩ := hfeeds.take handed.length
  have heq := List.prefix_iff_eq_take.mp hpre
  rw [← heq] at htake
  obtain ⟨rfl, -⟩ := hf.unique (fun c hc => hcut.small c (hpre.subset hc)) htake
  have h := hdelivered handed.length hpre.length_le
  rwa [offset, ← heq] at h

/-- The packets pushed and still to be pushed are those of the payloads that have come whole. -/
theorem Receiving.records (h : Receiving clientfd s) (hfd : clientfd ≠ invalidSocket)
    (hcut : Cutting ps chunks) (hps : ∀ p ∈ ps, p.length ≤ 512)
    (hpass : ∀ j p, ps[j]? = some p → Passes ps chunks j p)
    (hpre : s.reqThread.handed <+: chunks) : s.jqueue.pushed ++ s.toPush =
      (completed frame ps s.reqThread.handed.flatten.length).map (record clientfd) := by
  obtain ⟨outs, hfeeds, hcalls⟩ := h.fed
  have hdelivered := delivered_of_prefix hcut hpass hfeeds hpre
  have hsmall : ∀ p ∈ completed frame ps s.reqThread.handed.flatten.length, p.length ≤ 512 :=
    fun p hp => hps p ((completed_isPrefix ps _).subset hp)
  have hpackets := packets_delivered hfd hsmall hdelivered
  rw [← hcalls, h.pushed] at hpackets
  exact Option.some.inj hpackets

/-- A thread in its loop with nothing to push takes the next chunk. -/
theorem Receiving.turn (h : Receiving clientfd s) (hfd : clientfd ≠ invalidSocket)
    (hcut : Cutting ps chunks) (hps : ∀ p ∈ ps, p.length ≤ 512)
    (hpass : ∀ j p, ps[j]? = some p → Passes ps chunks j p) {c : List UInt8}
    (hpre : s.reqThread.handed ++ [c] <+: chunks) (hq : c ≠ [0x51])
    (hin : s.reqThread.inLoop = true) (hidle : s.toPush = []) (hout : s.jqueue.posting = 0) :
    ∃ fuel s', step lib w rand clientmap clientfd s (.turn fuel (.recv (.done c))) = some s' ∧
      s'.reqThread.inLoop = true ∧ s'.reqThread.handed = s.reqThread.handed ++ [c] := by
  have hmem : c ∈ chunks := hpre.subset (by simp)
  obtain ⟨outs, hfeeds, hcalls⟩ := h.fed
  -- the call on this chunk is the one of a run on all of them
  obtain ⟨outs₀, o₀, hall, -⟩ := hands_over clientfd hcut hpass
  obtain ⟨o₁, htake, -⟩ := hall.take (s.reqThread.handed ++ [c]).length
  rw [← List.prefix_iff_eq_take.mp hpre] at htake
  obtain ⟨calls, hreceives, -⟩ :=
    hfeeds.last (fun d hd => hcut.small d (hpre.subset (by simp [hd]))) htake
  have hdelivered := delivered_of_prefix hcut hpass (hfeeds.snoc hreceives) hpre
  have hpackets := packets_delivered hfd
    (fun p hp => hps p ((completed_isPrefix ps _).subset hp)) hdelivered
  rw [List.flatten_append, ← hcalls, packets_append, h.pushed, Option.bind_some] at hpackets
  obtain ⟨toPush, hpush, -⟩ := Option.map_eq_some_iff.mp hpackets
  obtain ⟨fuel, ret, hcall⟩ := hreceives
  obtain ⟨recvbuff, hturn⟩ := turn_done fuel clientfd hin
    (List.length_pos_iff.mp (hcut.sizes c hmem).1) (hcut.small c hmem)
  rw [if_neg hq, hcall] at hturn
  rw [List.flatten_singleton] at hpush
  have hs : step lib w rand clientmap clientfd s (.turn fuel (.recv (.done c))) = some { s with
      reqThread := ⟨Block.zero bufLength, o₁, ret, s.reqThread.inLoop,
        s.reqThread.handed ++ [c], s.reqThread.calls ++ calls⟩
      toPush } := by
    simp only [step, hidle, hout, hturn, and_self, if_true, Option.bind_eq_bind, Option.bind_some,
      List.drop_left, hpush]
    rfl
  exact ⟨fuel, _, hs, hin, rfl⟩

end RTPVoice.Server
