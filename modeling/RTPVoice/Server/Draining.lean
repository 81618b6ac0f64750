import RTPVoice.Server.Served
import Mathlib.Algebra.Order.BigOperators.Group.List

namespace RTPVoice.Server

open Framework Framework.Transition Framework.Framing Json ClientObj MyMasterServer MyProtocol
  SocketWrap Session FifoQueue

variable {lib : Library} {w : StyledWriter} {rand : Nat → Nat → Nat → Nat} {indentSize : Nat}
  {clientmap : List SocketParams} {clientfd : HSocket} {s s' : Client} {a : Server.Action}
  {payloads chunks : List (List UInt8)} {requests : List Request} {slot : List UInt8}

/-- Nothing is on the way through the queue, and nothing is handed to or taken by a socket. -/
def Action.Idle : Server.Action → Prop
  | .turn .. | .timeOut | .send (.error _) | .send (.done 0) => True
  | _ => False

/-- Some step goes on with what has come. -/
def CanGoOn (lib : Library) (w : StyledWriter) (rand : Nat → Nat → Nat → Nat)
    (clientmap : List SocketParams) (clientfd : HSocket) (s : Client) : Prop :=
  ∃ a s', step lib w rand clientmap clientfd s a = some s' ∧ ¬ a.Idle ∧ Smooth s a s'

/-- The bytes still to be sent, and one for the end of each message. -/
def Client.left (s : Client) : Nat :=
  (s.toSend.map fun m => m.2.length + 1).sum - s.sending.count.toNat

/-- What is still to be done for the packets that have come, at most. -/
def Client.work (s : Client) : Nat :=
  2054 * s.toPush.length + 2053 * s.jqueue.posting + 2052 * s.jqueue.queue.queuesem +
    2051 * s.jqueue.holding + 2050 * s.jqueue.passed + 2049 * s.queueData.toList.length + s.left

/-- `send` takes a byte, if there is one. -/
theorem sends_byte {buff : List UInt8} {sending : Sending}
    (hcons : Consistent buff buff.length sending) (hrunning : sending.returned = none) :
    ∃ sending', phySocketSendData buff buff.length sending (.done 1) = some sending' := by
  obtain ⟨h0, hle, -⟩ := hcons.running hrunning
  by_cases hlt : (buff.length : Int) - sending.count < 1
  · exact ⟨_, by simp [phySocketSendData, socketSend, hrunning, hlt, hle]; rfl⟩
  · exact ⟨_, by simp [phySocketSendData, socketSend, hrunning, hlt]; rfl⟩

theorem again_running {sendLen : Int} {sending : Sending}
    (h : (sending.again sendLen).returned = none) :
    sendLen - sending.count ≠ 0 ∧ sending.again sendLen = sending := by
  unfold Sending.again at h ⊢
  split at h
  · next hne => exact ⟨hne, if_pos hne⟩
  · cases h

/-- `send` is to be tried again. -/
def Retried (sent : Transfer Nat) : Prop := sent = .error true ∨ sent = .done 0

instance (sent : Transfer Nat) : Decidable (Retried sent) := by unfold Retried; infer_instance

theorem count_le {buff : List UInt8} {sending sending' : Sending} {sent : Transfer Nat}
    (hturn : phySocketSendData buff buff.length sending sent = some sending')
    (hrunning : sending'.returned = none) : sending.count ≤ sending'.count := by
  obtain ⟨-, hform⟩ := turn_form hturn
  cases hform with
  | progress pos =>
    rw [(again_running hrunning).2]
    dsimp only
    omega
  | timeout | closed | nothing => rw [(again_running hrunning).2]
  | failed => cases hrunning

/-- While the loop runs every byte that `send` takes is counted. -/
theorem count_lt {buff : List UInt8} {sending sending' : Sending} {sent : Transfer Nat}
    (hcons : Consistent buff buff.length sending)
    (hturn : phySocketSendData buff buff.length sending sent = some sending')
    (hrunning : sending'.returned = none) (hnew : ¬ Retried sent) :
    sending.count < sending'.count := by
  obtain ⟨hs, hform⟩ := turn_form hturn
  obtain ⟨-, hle, -⟩ := hcons.running hs
  cases hform with
  | progress pos =>
    rw [(again_running hrunning).2]
    dsimp only
    omega
  | timeout => exact absurd (.inl rfl) hnew
  | closed => exact absurd (.inr rfl) hnew
  | failed => cases hrunning
  | nothing complete =>
    have hne := (again_running hrunning).1
    omega

/-- What `send` takes is not left any more. -/
theorem left_send {sent : Transfer Nat} (h : InPlace s)
    (hs : step lib w rand clientmap clientfd s (.send sent) = some s') :
    s'.left ≤ s.left ∧ (¬ Retried sent → s'.left < s.left) := by
  cases step_stepsTo hs with
  | send hnext hrunning hturn =>
    obtain ⟨hcons, hbefore⟩ := h.within _ _ _ hnext
    obtain ⟨h0, -⟩ := hcons.running hbefore
    obtain ⟨-, hbound, -⟩ := (turn_consistent hcons hturn).running hrunning
    have hle := count_le hturn hrunning
    simp only [Client.left, hnext, List.map_cons, List.sum_cons]
    refine ⟨by omega, fun hnew => ?_⟩
    have hlt := count_lt hcons hturn hrunning hnew
    omega
  | sent hnext =>
    obtain ⟨hcons, hbefore⟩ := h.within _ _ _ hnext
    obtain ⟨h0, hbound, -⟩ := hcons.running hbefore
    simp only [Client.left, hnext, List.map_cons, List.sum_cons, Sending.initial]
    exact ⟨by omega, fun _ => by omega⟩

theorem busy_send {sent : Transfer Nat} (hbusy : ¬ (Server.Action.send sent).Idle) :
    ¬ Retried sent := by
  rintro (rfl | rfl) <;> exact hbusy trivial

/-! ### Steps that can be taken -/

theorem sends (h : InPlace s) (hnext : s.toSend ≠ []) :
    ∃ s', step lib w rand clientmap clientfd s (.send (.done 1)) = some s' := by
  obtain ⟨⟨fd, buff⟩, rest, heq⟩ := List.exists_cons_of_ne_nil hnext
  obtain ⟨hcons, hrunning⟩ := h.within fd buff rest heq
  obtain ⟨sending, hturn⟩ := sends_byte hcons hrunning
  refine Option.isSome_iff_exists.mp ?_
  simp only [step, heq, hturn, Option.bind_eq_bind, Option.bind_some]
  split <;> rfl

/-- A taker finds its packet at the test. -/
theorem tests (hbacked : Backed s.jqueue) (h : s.jqueue.holding ≠ 0) :
    ∃ s', step lib w rand clientmap clientfd s .test = some s' := by
  have hlist : s.jqueue.queue.mList ≠ [] := by
    intro hempty
    have hle := hbacked.1
    rw [hempty, List.length_nil] at hle
    omega
  have hq : FifoQueue.step s.jqueue .test = _ := (if_neg h).trans (if_neg hlist)
  exact ⟨_, congrArg (Option.map _) hq⟩

/-- It finds it at the pop, too. -/
theorem pops (hshape : Shape s.jqueue) (hbacked : Backed s.jqueue) (h : s.jqueue.passed ≠ 0) :
    ∃ s', step lib w rand clientmap clientfd s .pop = some s' := by
  have hle := hbacked.1
  rw [hshape.list, List.length_map, List.length_range'] at hle
  obtain ⟨q, hpop, -⟩ := pops_front hshape (by omega)
  generalize s.jqueue.queue.fifobuff.slice (address s.jqueue.taken.length) slotSize = data at hpop
  have hq : FifoQueue.step s.jqueue .pop = some { s.jqueue with
      queue := q, passed := s.jqueue.passed - 1, taken := s.jqueue.taken ++ [data] } := by
    rw [FifoQueue.step, if_neg h, hpop]
    rfl
  exact ⟨_, congrArg (Option.map _) hq⟩

theorem goesOn_send (h : InPlace s) (hnext : s.toSend ≠ []) :
    CanGoOn lib w rand clientmap clientfd s := by
  obtain ⟨s', hs⟩ := sends h hnext
  exact ⟨_, s', hs, by simp [Server.Action.Idle], ⟨by simp, by simp [Unbroken]⟩⟩

theorem goesOn_semPost (h : s.jqueue.posting ≠ 0) :
    CanGoOn lib w rand clientmap clientfd s := by
  have hq : FifoQueue.step s.jqueue .semPost = _ := if_neg h
  refine ⟨.semPost, _, congrArg (Option.map _) hq,
    by simp [Server.Action.Idle], ⟨by simp, by simp [Unbroken]⟩⟩

theorem goesOn_semWait (hwaiting : s.Waiting) (h : s.jqueue.queue.queuesem ≠ 0) :
    CanGoOn lib w rand clientmap clientfd s := by
  have hq : FifoQueue.step s.jqueue .semWait = _ := if_neg h
  refine ⟨.semWait, _, (if_pos hwaiting).trans (congrArg (Option.map _) hq),
    by simp [Server.Action.Idle], ⟨by simp, by simp [Unbroken]⟩⟩

theorem goesOn_test (hbacked : Backed s.jqueue) (h : s.jqueue.holding ≠ 0) :
    CanGoOn lib w rand clientmap clientfd s := by
  obtain ⟨s', hs⟩ := tests hbacked h
  exact ⟨_, s', hs, by simp [Server.Action.Idle], ⟨by simp, by simp [Unbroken]⟩⟩

theorem goesOn_pop (horderly : Orderly s.jqueue) (h : s.jqueue.passed ≠ 0) :
    CanGoOn lib w rand clientmap clientfd s := by
  obtain ⟨s', hs⟩ := pops horderly.toShape horderly.backed h
  exact ⟨_, s', hs, by simp [Server.Action.Idle], ⟨by simp, by simp [Unbroken]⟩⟩

/-- With nothing queued or on its way a store finds room. -/
theorem goesOn_store (horderly : Orderly s.jqueue)
    (hsmall : ∀ packet ∈ s.toPush, packet.length ≤ slotSize) (hnext : s.toPush ≠ [])
    (hposting : s.jqueue.posting = 0) (hsem : s.jqueue.queue.queuesem = 0) (hwaiting : s.Waiting) :
    CanGoOn lib w rand clientmap clientfd s := by
  obtain ⟨packet, rest, heq⟩ := List.exists_cons_of_ne_nil hnext
  obtain ⟨hholding, hpassed, -⟩ := hwaiting
  have hclaimed := horderly.claimed
  have hle := horderly.le
  rw [Claimed, horderly.mList_length, hsem, hposting, hholding, hpassed] at hclaimed
  obtain ⟨buff, fifoCounter, -, -, hstore⟩ :=
    store_of_le horderly.counter (hsmall packet (heq ▸ List.mem_cons_self))
  obtain ⟨q, hq⟩ : ∃ q, s.jqueue.queue.store packet = some q := ⟨_, hstore⟩
  have hs : step lib w rand clientmap clientfd s .store = some { s with
      toPush := rest
      jqueue := { s.jqueue with
        queue := q, posting := s.jqueue.posting + 1, pushed := s.jqueue.pushed ++ [packet] } } := by
    simp only [step, heq, if_pos hposting, FifoQueue.step, hq]
    rfl
  refine ⟨_, _, hs, by simp [Server.Action.Idle], ⟨fun _ => ?_, by simp [Unbroken]⟩⟩
  simp only [slotCount]
  omega

/-- When both threads wait there is nothing to go on with. -/
theorem Client.Quiet.not_canGoOn (h : s.Quiet) : ¬ CanGoOn lib w rand clientmap clientfd s := by
  intro hgoesOn
  obtain ⟨htoPush, hposting, hsem, hholding, hpassed, -, hdata, htoSend⟩ := h
  obtain ⟨a, s', hs, hbusy, -⟩ := hgoesOn
  cases step_stepsTo hs with
  | turn | timeOut => exact hbusy trivial
  | store hnext => simp [htoPush] at hnext
  | semPost hq => simp [FifoQueue.step, hposting] at hq
  | semWait _ hq => simp [FifoQueue.step, hsem] at hq
  | test hq => simp [FifoQueue.step, hholding] at hq
  | pop hq => simp [FifoQueue.step, hpassed] at hq
  | parse htaken => simp [hdata] at htaken
  | send hnext | sent hnext => simp [htoSend] at hnext

section Draining

variable (hset : Setting lib w indentSize clientfd)
  (hconv : Conversation lib w indentSize payloads requests chunks)
include hset hconv

/-- A packet that is taken can be parsed, and gives rise to two messages at most. -/
theorem Serving.parses (h : Serving lib w rand clientmap clientfd s)
    (hpre : s.reqThread.handed <+: chunks) (hslot : s.queueData = some slot) :
    ∃ c' docs, parsePacket lib w rand clientmap s.handled s.ctrlr slot =
        some (c', framed w clientfd docs) ∧
      docs.length ≤ 2 ∧ ∀ doc ∈ docs, (w.write doc).length ≤ 1018 := by
  obtain ⟨parsed, htaken, -⟩ := h.answering.given
  rw [hslot, Option.toList_some] at htaken
  obtain ⟨-, r, -, ⟨hbrings, hfd⟩, hfits⟩ :=
    h.brings hset hconv hpre (show s.jqueue.taken[parsed.length]? = some slot by simp [htaken])
  have htracks : Tracks s.ctrlr ⟨_, _⟩ := ⟨rfl, rfl⟩
  obtain ⟨c', docs, hparse, hdocs, -, hsizes⟩ :=
    parsePacket_brings rand clientmap hset hbrings hfd hfits htracks s.handled
  have hlen := congrArg List.length hdocs
  rw [List.length_map, List.length_map] at hlen
  refine ⟨c', docs, hparse, ?_, hsizes⟩
  rw [hlen]
  cases r <;> simp [Request.answer]

theorem goesOn_parse (h : Serving lib w rand clientmap clientfd s)
    (hpre : s.reqThread.handed <+: chunks) (hdata : s.queueData ≠ none) :
    CanGoOn lib w rand clientmap clientfd s := by
  obtain ⟨slot, hslot⟩ := Option.ne_none_iff_exists'.mp hdata
  obtain ⟨c', docs, hparse, -⟩ := h.parses hset hconv hpre hslot
  have hs : step lib w rand clientmap clientfd s .parse = some { s with
      ctrlr := c', toSend := framed w clientfd docs, handled := s.handled + 1,
      queueData := none } := by
    simp only [step, hslot, hparse, Option.bind_eq_bind, Option.bind_some]
    rfl
  exact ⟨_, _, hs, by simp [Server.Action.Idle], ⟨by simp, by simp [Unbroken]⟩⟩

/-- Unless both threads wait, one of them can go on. -/
theorem Serving.canGoOn (h : Serving lib w rand clientmap clientfd s)
    (hpre : s.reqThread.handed <+: chunks) (hbusy : ¬ s.Quiet) :
    CanGoOn lib w rand clientmap clientfd s := by
  by_cases hnext : s.toSend ≠ []
  · exact goesOn_send h.answering.toInPlace hnext
  by_cases hdata : s.queueData ≠ none
  · exact goesOn_parse hset hconv h hpre hdata
  by_cases hpassed : s.jqueue.passed ≠ 0
  · exact goesOn_pop h.orderly hpassed
  by_cases hholding : s.jqueue.holding ≠ 0
  · exact goesOn_test h.orderly.backed hholding
  by_cases hposting : s.jqueue.posting ≠ 0
  · exact goesOn_semPost hposting
  push Not at hnext hdata hpassed hholding hposting
  have hwaiting : s.Waiting := ⟨hholding, hpassed, h.orderly.backed.2, hdata, hnext⟩
  by_cases hsem : s.jqueue.queue.queuesem ≠ 0
  · exact goesOn_semWait hwaiting hsem
  by_cases hpush : s.toPush ≠ []
  · push Not at hsem
    exact goesOn_store h.orderly (fun packet hp => h.small hset hconv hpre hp) hpush hposting
      hsem hwaiting
  · push Not at hsem hpush
    exact absurd ⟨hpush, hposting, hsem, hwaiting⟩ hbusy

/-- Every step that goes on leaves less to be done. -/
theorem work_step (h : Serving lib w rand clientmap clientfd s)
    (hpre : s.reqThread.handed <+: chunks) (hs : step lib w rand clientmap clientfd s a = some s')
    (hbusy : ¬ a.Idle) : s'.work < s.work := by
  have hle := h.orderly.backed.1
  cases step_stepsTo hs with
  | turn | timeOut => exact absurd trivial hbusy
  | store hnext _ hq =>
    cases FifoQueue.step_stepsTo hq with
    | store hstore =>
      obtain ⟨-, hsem⟩ := store_mList hstore
      simp only [Client.work, Client.left, hnext, hsem, List.length_cons]
      omega
  | semPost hq =>
    cases FifoQueue.step_stepsTo hq with
    | semPost hposting =>
      simp only [Client.work, Client.left, semPost]
      omega
  | semWait _ hq =>
    cases FifoQueue.step_stepsTo hq with
    | semWait hsem =>
      simp only [Client.work, Client.left]
      omega
  | test hq =>
    cases FifoQueue.step_stepsTo hq with
    | abandon hholding | test hholding =>
      simp only [Client.work, Client.left]
      omega
  | pop hq =>
    cases FifoQueue.step_stepsTo hq with
    | pop hpassed hpop =>
      obtain ⟨-, hsem, -⟩ := popFront_mList hpop
      obtain ⟨hdata, -⟩ := h.answering.taking (by omega)
      simp only [Client.work, Client.left, hsem, hdata, List.getLast?_append,
        List.getLast?_singleton, Option.some_or, Option.toList_some, Option.toList_none,
        List.length_singleton, List.length_nil]
      omega
  | parse hdata hparsed =>
    obtain ⟨c', docs, hparse, htwo, hsizes⟩ := h.parses hset hconv hpre hdata
    obtain ⟨rfl, rfl⟩ := Prod.mk.inj (Option.some.inj (hparsed.symm.trans hparse))
    have hnext := h.answering.parsing (by simp [hdata])
    have hleft : ((framed w clientfd docs).map fun m => m.2.length + 1).sum ≤ 2048 := by
      refine (List.sum_le_card_nsmul _ 1024 fun n hn => ?_).trans ?_
      · obtain ⟨m, hm, rfl⟩ := List.mem_map.mp hn
        obtain ⟨doc, hdoc, rfl⟩ := List.mem_map.mp hm
        have hsize := hsizes doc hdoc
        rw [frame_length (by omega)]
        omega
      · simp only [framed, List.length_map, Nat.nsmul_eq_mul]
        omega
    simp only [Client.work, Client.left, hdata, hnext, h.answering.between hnext, Sending.initial,
      Option.toList_some, Option.toList_none, List.length_singleton, List.length_nil, List.map_nil,
      List.sum_nil]
    omega
  | send | sent =>
    have hlt := (left_send h.answering.toInPlace hs).2 (busy_send hbusy)
    simp only [Client.work]
    omega

end Draining

/-- A turn of the reading thread's loop counts as idle, so the chunks stay as they are. -/
theorem reqThread_step (hs : step lib w rand clientmap clientfd s a = some s')
    (hbusy : ¬ a.Idle) : s'.reqThread = s.reqThread := by
  cases step_stepsTo hs with
  | turn => exact absurd trivial hbusy
  | store | semPost | semWait | timeOut | test | pop | parse | send | sent => rfl

/-- A packet is handled where it is parsed. -/
theorem handled_step (hs : step lib w rand clientmap clientfd s a = some s') (hparse : a ≠ .parse) :
    s'.handled = s.handled := by
  cases step_stepsTo hs with
  | parse => exact absurd rfl hparse
  | turn | store | semPost | semWait | timeOut | test | pop | send | sent => rfl

/-- The steps that go on, and what they keep. -/
theorem goesOn_step (hset : Setting lib w indentSize clientfd)
    (hconv : Conversation lib w indentSize payloads requests chunks) {r : ReqThread}
    (hpre : r.handed <+: chunks)
    (h : Serving lib w rand clientmap clientfd s ∧ s.reqThread = r)
    (hs : step lib w rand clientmap clientfd s a = some s') (hgoesOn : ¬ a.Idle ∧ Smooth s a s') :
    (Serving lib w rand clientmap clientfd s' ∧ s'.reqThread = r) ∧ s'.work < s.work := by
  obtain ⟨hserving, rfl⟩ := h
  have hsame := reqThread_step hs hgoesOn.1
  exact ⟨⟨serving_step hset hconv hserving hs hgoesOn.2 (hsame ▸ hpre), hsame⟩,
    work_step hset hconv hserving hpre hs hgoesOn.1⟩

/-- The threads can bring themselves to wait. -/
theorem Serving.drains (hset : Setting lib w indentSize clientfd)
    (hconv : Conversation lib w indentSize payloads requests chunks)
    (h : Serving lib w rand clientmap clientfd s) (hpre : s.reqThread.handed <+: chunks) :
    ∃ more s', run (step lib w rand clientmap clientfd) s more = some s' ∧
      Throughout (step lib w rand clientmap clientfd)
        (fun s₁ a s₂ => ¬ a.Idle ∧ Smooth s₁ a s₂) s more ∧
      (Serving lib w rand clientmap clientfd s' ∧ s'.reqThread = s.reqThread) ∧ s'.Quiet := by
  refine run_until Client.work (fun _ _ _ hI hs hP => goesOn_step hset hconv hpre hI hs hP)
    (fun t ht hbusy => ?_) ⟨h, rfl⟩
  obtain ⟨hserving, hsame⟩ := ht
  exact hserving.canGoOn hset hconv (hsame ▸ hpre) hbusy

end RTPVoice.Server
