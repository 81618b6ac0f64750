import RTPVoice.Server.Conversation

namespace RTPVoice.Server

open Framework Framework.Transition Framework.Framing Json ClientObj MyMasterServer MyProtocol
  SocketWrap Session FifoQueue

variable {lib : Library} {w : StyledWriter} {rand : Nat → Nat → Nat → Nat} {indentSize : Nat}
  {clientmap : List SocketParams} {clientfd : HSocket} {s s' : Client} {a : Server.Action}
  {payloads chunks : List (List UInt8)} {requests : List Request} {slot : List UInt8}
  {actions : List Server.Action}

/-- No packet is stored over one that is not taken yet, and `send` meets no error but those after
which it is tried again. -/
structure Smooth (s : Client) (a : Server.Action) (s' : Client) : Prop where
  room : a = .store → s.jqueue.pushed.length < s.jqueue.taken.length + slotCount
  unbroken : Unbroken s a s'

/-- Both threads wait: one for bytes, the other for a packet. -/
def Client.Quiet (s : Client) : Prop :=
  s.toPush = [] ∧ s.jqueue.posting = 0 ∧ s.jqueue.queue.queuesem = 0 ∧ s.Waiting

/-- What holds of a client's threads in every smooth run. -/
structure Serving (lib : Library) (w : StyledWriter) (rand : Nat → Nat → Nat → Nat)
    (clientmap : List SocketParams) (clientfd : HSocket) (s : Client) : Prop where
  receiving : Receiving clientfd s
  answering : Answering lib w rand clientmap s
  orderly : Orderly s.jqueue

theorem serving_initial : Serving lib w rand clientmap clientfd .initial :=
  ⟨receiving_initial, answering_initial, orderly_fresh⟩

/-- Every step leaves `jqueue` alone or is one of its steps; what is stored is the next packet. -/
theorem jqueue_step (hs : step lib w rand clientmap clientfd s a = some s') :
    s'.jqueue = s.jqueue ∨ ∃ b, FifoQueue.step s.jqueue b = some s'.jqueue ∧
      ∀ packet, b = .store packet → a = .store ∧ s.toPush.head? = some packet := by
  cases step_stepsTo hs with
  | turn | parse | send | sent => exact .inl rfl
  | store hnext _ hq =>
    refine .inr ⟨_, hq, fun packet he => ?_⟩
    cases he
    exact ⟨rfl, hnext ▸ rfl⟩
  | semPost hq | semWait _ hq | timeOut _ hq | test hq | pop hq =>
    exact .inr ⟨_, hq, fun packet he => by cases he⟩

section Serving

variable (hset : Setting lib w indentSize clientfd)
  (hconv : Conversation lib w indentSize payloads requests chunks)
include hset hconv

/-- The packets pushed and to be pushed are records of the payloads that have come whole. -/
theorem Serving.records (h : Serving lib w rand clientmap clientfd s)
    (hpre : s.reqThread.handed <+: chunks) : s.jqueue.pushed ++ s.toPush =
      (completed frame payloads s.reqThread.handed.flatten.length).map (record clientfd) :=
  h.receiving.records hset.valid hconv.cutting
    (fun p hp => (hconv.small p hp).trans (by decide)) hconv.passes hpre

/-- A packet to be pushed leaves its slot's neighbour alone. -/
theorem Serving.small (h : Serving lib w rand clientmap clientfd s)
    (hpre : s.reqThread.handed <+: chunks) {packet : List UInt8} (hmem : packet ∈ s.toPush) :
    packet.length ≤ slotSize := by
  replace hmem : packet ∈ s.jqueue.pushed ++ s.toPush := List.mem_append_right _ hmem
  rw [h.records hset hconv hpre] at hmem
  obtain ⟨p, hp, rfl⟩ := List.mem_map.mp hmem
  have hlen := hconv.small p ((completed_isPrefix payloads _).subset hp)
  rw [record_length, slotSize]
  omega

theorem serving_step (h : Serving lib w rand clientmap clientfd s)
    (hs : step lib w rand clientmap clientfd s a = some s') (hsmooth : Smooth s a s')
    (hpre : s'.reqThread.handed <+: chunks) : Serving lib w rand clientmap clientfd s' := by
  refine ⟨receiving_step h.receiving hs, answering_step h.answering hs hsmooth.unbroken, ?_⟩
  rcases jqueue_step hs with heq | ⟨b, hq, hstore⟩
  · exact heq ▸ h.orderly
  · refine orderly_step h.orderly (fun packet he => ?_) (fun packet he => ?_) hq
    · have hmem := List.mem_of_head? (hstore packet he).2
      exact h.small hset hconv ((handed_step hs).trans hpre) hmem
    · exact hsmooth.room (hstore packet he).1

theorem run_serving (hrun : run (step lib w rand clientmap clientfd) .initial actions = some s)
    (hsmooth : Throughout (step lib w rand clientmap clientfd) Smooth .initial actions)
    (hpre : s.reqThread.handed <+: chunks) : Serving lib w rand clientmap clientfd s := by
  have hstep : ∀ s₁ a s₂, a ∈ actions →
      (s₁.reqThread.handed <+: chunks → Serving lib w rand clientmap clientfd s₁) →
      step lib w rand clientmap clientfd s₁ a = some s₂ → Smooth s₁ a s₂ →
      s₂.reqThread.handed <+: chunks → Serving lib w rand clientmap clientfd s₂ :=
    fun s₁ a s₂ _ hI hs hP hpre₂ =>
      serving_step hset hconv (hI ((handed_step hs).trans hpre₂)) hs hP hpre₂
  exact throughout_invariant (fun _ => serving_initial) hstep hrun hsmooth hpre

/-- The packet taken as number `k` brings request `k`. -/
theorem Serving.brings (h : Serving lib w rand clientmap clientfd s)
    (hpre : s.reqThread.handed <+: chunks) {k : Nat} (hslot : s.jqueue.taken[k]? = some slot) :
    k < (completed frame payloads s.reqThread.handed.flatten.length).length ∧
    ∃ r, requests[k]? = some r ∧
      (Brings lib slot r ∧ clientFd slot = clientfd) ∧ Fitting w indentSize r := by
  have hrecords := h.records hset hconv hpre
  have hlt := (List.getElem?_eq_some_iff.mp hslot).1
  have hpushed : k < s.jqueue.pushed.length := hlt.trans_le h.orderly.le
  have hlen := congrArg List.length hrecords
  rw [List.length_append, List.length_map] at hlen
  have hk : k < (completed frame payloads s.reqThread.handed.flatten.length).length := by omega
  -- the payload of packet `k` is payload `k`
  obtain ⟨p, hp⟩ : ∃ p, (completed frame payloads s.reqThread.handed.flatten.length)[k]? = some p :=
    ⟨_, List.getElem?_eq_getElem hk⟩
  have hpacket : s.jqueue.pushed[k]? = some (record clientfd p) := by
    have hget := congrArg (·[k]?) hrecords
    rwa [List.getElem?_append_left hpushed, List.getElem?_map, hp] at hget
  have hpayload : payloads[k]? = some p := by
    obtain ⟨rest, hrest⟩ :
        completed frame payloads s.reqThread.handed.flatten.length <+: payloads :=
      completed_isPrefix payloads _
    rw [← hrest, List.getElem?_append_left hk, hp]
  have hmem := List.mem_of_getElem? hpayload
  obtain ⟨hlens, hall⟩ := List.forall₂_iff_get.mp hconv.carried
  have hkp := (List.getElem?_eq_some_iff.mp hpayload).1
  have hr : requests[k]? = some requests[k] := List.getElem?_eq_getElem (hlens ▸ hkp)
  have hcarries := hall k hkp (hlens ▸ hkp)
  rw [List.get_eq_getElem, List.get_eq_getElem, (List.getElem?_eq_some_iff.mp hpayload).2]
    at hcarries
  exact ⟨hk, requests[k], hr, brings_of_record hset hcarries (hconv.small p hmem)
    (hconv.nulFree p hmem) (h.orderly.inOrder.2 k slot _ hslot hpacket),
    hconv.fitting _ (List.mem_of_getElem? hr)⟩

/-- What has gone out and what is still to be sent are the answers to the requests parsed. -/
theorem Serving.answers (h : Serving lib w rand clientmap clientfd s)
    (hpre : s.reqThread.handed <+: chunks) :
    s.handled ≤ (completed frame payloads s.reqThread.handed.flatten.length).length ∧
    ∃ docs, Conveys docs (answers ⟨0, 0⟩ (requests.take s.handled)).flatten ∧
      s.sent ++ s.toSend = framed w clientfd docs := by
  obtain ⟨parsed, htaken, hlen, hparse⟩ := h.answering.given
  have hslot (k : Nat) (hk : k < parsed.length) : s.jqueue.taken[k]? = some parsed[k] := by
    rw [htaken, List.getElem?_append_left hk, List.getElem?_eq_getElem hk]
  have hle : parsed.length ≤
      (completed frame payloads s.reqThread.handed.flatten.length).length := by
    by_contra hlt
    exact lt_irrefl _ (h.brings hset hconv hpre (hslot _ (Nat.lt_of_not_le hlt))).1
  have hrequests : parsed.length ≤ requests.length := by
    rw [← hconv.carried.length_eq]
    exact hle.trans (completed_isPrefix payloads _).length_le
  have hall : List.Forall₂ (fun slot r => (Brings lib slot r ∧ clientFd slot = clientfd) ∧
      Fitting w indentSize r) parsed (requests.take s.handled) := by
    refine List.forall₂_iff_get.mpr ⟨?_, fun k hk hk' => ?_⟩
    · rw [List.length_take, ← hlen, Nat.min_eq_left hrequests]
    · obtain ⟨-, r, hr, hbrings⟩ := h.brings hset hconv hpre (hslot k hk)
      obtain ⟨hlt, rfl⟩ := List.getElem?_eq_some_iff.mp hr
      simpa using hbrings
  obtain ⟨c', docs, hdocs, hanswers⟩ :=
    parsePackets_brings rand clientmap hset hall tracks_initial 0
  rw [hparse] at hdocs
  obtain ⟨-, hsent⟩ := Prod.mk.inj (Option.some.inj hdocs)
  exact ⟨hlen ▸ hle, docs, hanswers, hsent⟩

/-- When both threads wait, everything that has come whole is parsed. -/
theorem Serving.quiet (h : Serving lib w rand clientmap clientfd s)
    (hpre : s.reqThread.handed <+: chunks) (hquiet : s.Quiet) :
    s.handled = (completed frame payloads s.reqThread.handed.flatten.length).length := by
  obtain ⟨htoPush, hposting, hsem, hholding, hpassed, -, hdata, -⟩ := hquiet
  have hrecords := congrArg List.length (h.records hset hconv hpre)
  obtain ⟨parsed, htaken, hlen, -⟩ := h.answering.given
  have hclaimed := h.orderly.claimed
  have hle := h.orderly.le
  rw [Claimed, h.orderly.mList_length, hsem, hposting, hholding, hpassed] at hclaimed
  rw [htoPush, List.append_nil, List.length_map] at hrecords
  rw [hdata, Option.toList_none, List.append_nil] at htaken
  rw [← hrecords, ← hlen, ← htaken]
  omega

end Serving

theorem flatMap_framed (clientfd : HSocket) (docs : List Value) :
    (framed w clientfd docs).flatMap Prod.snd = stream frame (docs.map w.write) := by
  simp only [framed, stream, List.flatMap_map]

end RTPVoice.Server
