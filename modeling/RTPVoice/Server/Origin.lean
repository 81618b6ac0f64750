import RTPVoice.ClientObj.Provenance
import RTPVoice.Server.Answers

namespace RTPVoice.Server

open Framework Framework.Transition Framework.Framing Json ClientObj MyMasterServer MyProtocol
  SocketWrap FifoQueue

variable {lib : Library} {w : StyledWriter} {rand : Nat → Nat → Nat → Nat}
  {clientmap : List SocketParams} {clientfd : HSocket} {s s' : Client} {a : Server.Action}
  {calls : List Call} {ps : List (List UInt8)}

/-- A call with a negative length is undefined. -/
theorem sound_of_packets (h : packets calls = some ps) : ClientObj.Sound calls := by
  induction calls generalizing ps with
  | nil => exact sound_nil
  | cons call calls ih =>
    show ClientObj.Sound ([call] ++ calls)
    cases call with
    | sscanf | socketClearRecvBuffer => exact sound_append.mpr ⟨by simp [ClientObj.Sound], ih h⟩
    | pushRecvBuffToQueue fd buff len =>
      simp only [packets, Option.bind_eq_bind, Option.bind_eq_some_iff] at h
      obtain ⟨pushed, hpacket, rest, hrest, -⟩ := h
      refine sound_append.mpr ⟨fun fd' buff' len' hm => ?_, ih hrest⟩
      cases List.mem_singleton.mp hm
      by_contra hneg
      have hlong : ¬ (512 : Int) < len := by omega
      rw [packet, if_neg hlong, if_pos (.inl (by omega))] at hpacket
      cases hpacket

/-- What is stored fits its slot, which holds no packet that is not taken yet. -/
structure Storing (s : Client) (a : Server.Action) (_ : Client) : Prop where
  fits : s.FitsSlot a
  room : a = .store → s.jqueue.pushed.length < s.jqueue.taken.length + slotCount

/-- What holds of the receiving side whatever the client sends. -/
structure Taking (clientfd : HSocket) (s : Client) : Prop extends Receiving clientfd s where
  sizes : ∀ c ∈ s.reqThread.handed, c ≠ [] ∧ c.length ≤ bufLength
  orderly : Orderly s.jqueue

theorem taking_initial : Taking clientfd .initial :=
  ⟨receiving_initial, by simp [Client.initial, ReqThread.initial], orderly_fresh⟩

theorem taking_step (h : Taking clientfd s) (hs : step lib w rand clientmap clientfd s a = some s')
    (hstoring : Storing s a s') : Taking clientfd s' := by
  refine ⟨receiving_step h.toReceiving hs, ?_, ?_⟩
  · cases step_stepsTo hs with
    | turn _ _ hturn =>
      rcases turn_calls hturn with ⟨hhanded, -, -⟩ | ⟨c, calls, hhanded, -, -, hne, hle⟩
      · exact hhanded ▸ h.sizes
      · exact hhanded ▸ forall_mem_snoc.mpr ⟨h.sizes, hne, hle⟩
    | store | semPost | semWait | timeOut | test | pop | parse | send | sent => exact h.sizes
  · rcases jqueue_step hs with heq | ⟨b, hq, hstore⟩
    · exact heq ▸ h.orderly
    · refine orderly_step h.orderly (fun packet he => ?_) (fun packet he => ?_) hq
      · obtain ⟨ha, hhead⟩ := hstore packet he
        exact hstoring.fits ha packet hhead
      · exact hstoring.room (hstore packet he).1

/-- Whatever a client sends: what its answering thread takes from the queue is, packet by packet,
the client's handle with a payload that stood in what was received, behind a header, in order. -/
theorem packets_received (lib : Library) (w : StyledWriter) (rand : Nat → Nat → Nat → Nat)
    (clientmap : List SocketParams) (clientfd : HSocket) (actions : List Server.Action) (s : Client)
    (hfd : clientfd ≠ invalidSocket)
    (hrun : run (step lib w rand clientmap clientfd) .initial actions = some s)
    (hstoring : Throughout (step lib w rand clientmap clientfd) Storing .initial actions) :
    ∃ (ps : List (List UInt8)) (kept : List UInt8),
      Scattered Framed ps kept ∧ kept.Sublist s.reqThread.handed.flatten ∧
      (NeverCut clientfd .zero s.reqThread.handed → kept = s.reqThread.handed.flatten) ∧
      s.jqueue.pushed ++ s.toPush = ps.map (record clientfd) ∧
      ∀ (k : Nat) (slot : List UInt8), s.jqueue.taken[k]? = some slot →
        ∃ p, ps[k]? = some p ∧ record clientfd p <+: slot := by
  have h : Taking clientfd s :=
    throughout_invariant taking_initial (fun _ _ _ _ h hs hP => taking_step h hs hP) hrun hstoring
  obtain ⟨outs, hfeeds, hcalls⟩ := h.fed
  have hpackets := h.pushed
  rw [hcalls] at hpackets
  obtain ⟨qs, rest, hd, hy, -⟩ :=
    feeds_traces hfeeds keeping_zero h.sizes (sound_of_packets hpackets)
  obtain ⟨kept, hscattered, hsub, hwhole⟩ := hy.scattered
  rw [packets_of_delivered hfd hd] at hpackets
  have hrecords := (Option.some.inj hpackets).symm
  refine ⟨_, kept, hscattered.sublist List.filter_sublist, hsub, hwhole, hrecords,
    fun k slot hslot => ?_⟩
  -- packet `k` is pushed before it is taken
  have hpushed : k < s.jqueue.pushed.length :=
    (List.getElem?_eq_some_iff.mp hslot).1.trans_le h.orderly.le
  have hget := congrArg (·[k]?) hrecords
  rw [List.getElem?_append_left hpushed, List.getElem?_map] at hget
  obtain ⟨p, hp, hrecord⟩ := Option.map_eq_some_iff.mp
    (hget.symm.trans (List.getElem?_eq_getElem hpushed))
  refine ⟨p, hp, h.orderly.inOrder.2 k slot _ hslot ?_⟩
  rw [hrecord, List.getElem?_eq_getElem hpushed]

/-- The packet of the query. -/
theorem packets_received_query : ∃ actions s ps, run queryStep .initial actions = some s ∧
    s.reqThread.handed = [frame queryText] ∧
    (∃ kept : List UInt8, Scattered Framed ps kept ∧ kept.Sublist (frame queryText)) ∧
    s.jqueue.pushed ++ s.toPush = ps.map (record 300) := by
  obtain ⟨actions, s, hrun, hsmooth, -, hhanded, -⟩ := query_whole_run
  have hfits := smooth_fitsSlot querySetting queryConversation hrun hsmooth (by rw [hhanded])
  obtain ⟨ps, kept, hscattered, hsub, -, hrecords, -⟩ := packets_received _ _ _ _ _ actions s
    querySetting.valid hrun fun pre a post he s₁ s₂ h₁ h₂ =>
      ⟨hfits pre a post he s₁ s₂ h₁ h₂, (hsmooth pre a post he s₁ s₂ h₁ h₂).room⟩
  rw [hhanded, List.flatten_singleton] at hsub
  exact ⟨actions, s, ps, hrun, hhanded, ⟨kept, hscattered, hsub⟩, hrecords⟩

end RTPVoice.Server
