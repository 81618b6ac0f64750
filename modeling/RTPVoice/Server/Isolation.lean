import RTPVoice.FifoQueue.Headed
import RTPVoice.Framework.Interleaving
import RTPVoice.Server.Served

namespace RTPVoice.Server

open Framework Framework.Transition Framework.Interleaving Framework.Framing Json ClientObj
  MyMasterServer MyProtocol SocketWrap Session FifoQueue

variable {lib : Library} {w : StyledWriter} {rand : Nat → Nat → Nat → Nat} {indentSize : Nat}
  {clientmap : List SocketParams} {clientfd : HSocket} {s s' : Client} {a : Server.Action}
  {calls : List Call} {ps : List (List UInt8)}

/-! ### Whose packets and messages these are -/

/-- What is queued is queued under the handle of the reading thread. -/
def Call.Under (clientfd : HSocket) : Call → Prop
  | .pushRecvBuffToQueue fd _ _ => fd = clientfd
  | _ => True

theorem startPass_under {t : AtStart} {p : StartPass} (h : startPass clientfd t = some p) :
    ∀ call ∈ p.events, Call.Under clientfd call := by
  unfold startPass at h
  obtain ⟨head, -, h⟩ := Option.bind_eq_some_iff.mp h
  split at h
  · simp only [protocolStart, Option.bind_eq_bind, Option.bind_eq_some_iff] at h
    obtain ⟨lenStr, -, h⟩ := h
    split at h
    · cases h
      simp [Call.Under, StickDismantleOptions.push]
    · split at h
      · cases h
        simp [Call.Under]
      · simp only [Option.bind_eq_some_iff] at h
        obtain ⟨_, -, _, -, _, -, h⟩ := h
        cases h
        simp [Call.Under, StickDismantleOptions.push]
  · split at h
    · unfold protocolContinue at h
      split at h
      · cases h
        simp [Call.Under, StickDismantleOptions.push]
      · split at h
        · cases h
          simp
        · simp only [Option.bind_eq_bind, Option.bind_eq_some_iff] at h
          obtain ⟨_, -, h⟩ := h
          split at h
          · simp only [Option.bind_eq_some_iff] at h
            obtain ⟨_, -, _, -, _, -, h⟩ := h
            cases h
            simp [Call.Under, StickDismantleOptions.push]
          · simp only [Option.bind_eq_some_iff] at h
            obtain ⟨_, -, _, -, _, -, h⟩ := h
            cases h
            simp
    · cases h
      unfold protocolOther
      split <;> simp [Call.Under]

theorem receives_under {o o' : StickDismantleOptions} {c : List UInt8}
    (h : Receives clientfd o c o' calls) : ∀ call ∈ calls, Call.Under clientfd call := by
  obtain ⟨fuel, ret, h⟩ := h
  unfold stickDismantleProtocol at h
  split at h
  · cases h
    simp
  · split at h
    · cases h
    · exact (Loop.returns_of_run h).events fun _ _ => startPass_under

theorem packet_eq {fd : HSocket} {buff p : List UInt8} {buffLen : Int}
    (h : packet fd buff buffLen = some (some p)) : handleField fd <+: p := by
  unfold packet at h
  split at h
  · cases h
  · split at h
    · cases h
    · obtain ⟨⟨ret, pushed⟩, hpush, rfl⟩ := Option.map_eq_some_iff.mp h
      obtain rfl : ret = 0 := by
        unfold pushRecvBuffToQueue at hpush
        split at hpush
        · cases hpush
        · obtain ⟨_, -, he⟩ := Option.map_eq_some_iff.mp hpush
          cases he
          rfl
      exact pushRecvBuffToQueue_eq hpush ▸ List.prefix_append _ _

theorem packets_under (h : ∀ call ∈ calls, Call.Under clientfd call)
    (hps : packets calls = some ps) : ∀ p ∈ ps, handleField clientfd <+: p := by
  induction calls generalizing ps with
  | nil =>
    cases hps
    simp
  | cons call calls ih =>
    obtain ⟨hcall, hcalls⟩ := List.forall_mem_cons.mp h
    cases call with
    | sscanf | socketClearRecvBuffer => exact ih hcalls hps
    | pushRecvBuffToQueue fd buff buffLen =>
      obtain rfl : fd = clientfd := hcall
      simp only [packets, Option.bind_eq_bind, Option.bind_eq_some_iff] at hps
      obtain ⟨pushed, hpacket, rest, hrest, hps⟩ := hps
      cases hps
      refine List.forall_mem_append.mpr ⟨fun p hp => ?_, ih hcalls hrest⟩
      obtain rfl := Option.mem_toList.mp hp
      exact packet_eq hpacket

/-! ### One client -/

/-- The packet stored leaves its slot's neighbour alone. -/
def Client.FitsSlot (s : Client) (a : Server.Action) : Prop :=
  a = .store → ∀ packet ∈ s.toPush.head?, packet.length ≤ slotSize

/-- Packets are the thread's own wherever they are, and messages go to its own handle. -/
structure Owned (clientfd : HSocket) (s : Client) : Prop where
  headed : Headed (handleField clientfd) s.jqueue
  toPush : ∀ packet ∈ s.toPush, handleField clientfd <+: packet
  taken : ∀ slot, s.queueData = some slot → handleField clientfd <+: slot
  messages : ∀ m ∈ s.sent ++ s.toSend, m.1 = clientfd

theorem owned_initial : Owned clientfd .initial :=
  ⟨headed_fresh _, by simp [Client.initial], by simp [Client.initial], by simp [Client.initial]⟩

/-- Messages for one handle go to that handle. -/
theorem outgoing_dst {composed : List (HSocket × Value)} {toSend : List (HSocket × List UInt8)}
    (hne : clientfd ≠ 0) (hdst : ∀ m ∈ composed, m.1 = clientfd)
    (h : outgoing w clientmap composed = some toSend) : ∀ m ∈ toSend, m.1 = clientfd := by
  induction composed generalizing toSend with
  | nil =>
    cases h
    simp
  | cons m composed ih =>
    obtain ⟨hm, hrest⟩ := List.forall_mem_cons.mp hdst
    obtain ⟨sends, hsends, rfl⟩ := Option.map_eq_some_iff.mp h
    simp only [List.mapM_cons, hm, Option.bind_eq_bind, Option.bind_eq_some_iff] at hsends
    obtain ⟨first, hfirst, rest, hmore, he⟩ := hsends
    cases he
    rw [List.flatten_cons]
    refine List.forall_mem_append.mpr ⟨?_, ih hrest (by rw [outgoing, hmore]; rfl)⟩
    simp only [sendDataToTheThirdParty, if_neg hne, Option.bind_eq_bind,
      Option.bind_eq_some_iff] at hfirst
    obtain ⟨_, -, _, -, hfirst⟩ := hfirst
    split at hfirst <;> cases hfirst <;> simp

/-- What is composed for a packet is for the handle it was queued under. -/
theorem composed_dst (hset : Setting lib w indentSize clientfd) {n : Nat} {c : ProtocolCtrlr}
    {slot : List UInt8} {took : ProtocolCtrlr × Option (ProtocolNames × ResponeData)}
    (hslot : handleField clientfd <+: slot) (h : c.takePacket lib slot = some took) :
    ∀ m ∈ composed rand n took.2, m.1 = clientfd := by
  obtain ⟨c', call⟩ := took
  intro m hm
  cases call with
  | none => simp [composed] at hm
  | some call =>
    obtain ⟨command, data⟩ := call
    obtain ⟨rest, rfl⟩ := hslot
    rw [composed] at hm
    rw [masterOnDataFunc_dst hm, ProtocolCtrlr.takePacket_socketFd h]
    exact (clientFd_handleField clientfd rest).mpr hset.printed

theorem parsePacket_dst (hset : Setting lib w indentSize clientfd) {n : Nat}
    {c c' : ProtocolCtrlr} {slot : List UInt8} {toSend : List (HSocket × List UInt8)}
    (hslot : handleField clientfd <+: slot)
    (h : parsePacket lib w rand clientmap n c slot = some (c', toSend)) :
    ∀ m ∈ toSend, m.1 = clientfd := by
  simp only [parsePacket, Option.bind_eq_bind, Option.bind_eq_some_iff] at h
  obtain ⟨took, htake, sends, houtgoing, he⟩ := h
  cases he
  exact outgoing_dst hset.ne_zero (composed_dst hset hslot htake) houtgoing

theorem owned_step (hset : Setting lib w indentSize clientfd) (h : Owned clientfd s)
    (hfits : s.FitsSlot a) (hs : step lib w rand clientmap clientfd s a = some s') :
    Owned clientfd s' := by
  have hheaded : Headed (handleField clientfd) s'.jqueue := by
    rcases jqueue_step hs with heq | ⟨b, hq, hstore⟩
    · exact heq ▸ h.headed
    · refine headed_step h.headed (fun packet he => ?_) hq
      obtain ⟨ha, hhead⟩ := hstore packet he
      exact ⟨hfits ha packet hhead, h.toPush packet (List.mem_of_head? hhead)⟩
  cases step_stepsTo hs with
  | turn hidle hout hturn hpackets =>
    refine ⟨hheaded, ?_, h.taken, h.messages⟩
    rcases turn_calls hturn with ⟨-, hsame, -⟩ | ⟨c, calls, -, hmore, hreceives, -⟩
    · rw [hsame, List.drop_length] at hpackets
      cases hpackets
      simp
    · rw [hmore, List.drop_left] at hpackets
      exact packets_under (receives_under hreceives) hpackets
  | store hnext =>
    have htoPush := h.toPush
    rw [hnext] at htoPush
    exact ⟨hheaded, (List.forall_mem_cons.mp htoPush).2, h.taken, h.messages⟩
  | semPost | semWait | timeOut | test => exact ⟨hheaded, h.toPush, h.taken, h.messages⟩
  | pop =>
    exact ⟨hheaded, h.toPush, fun slot he => hheaded.taken slot (List.mem_of_getLast? he),
      h.messages⟩
  | parse hdata hparsed =>
    refine ⟨hheaded, h.toPush, by simp, ?_⟩
    exact List.forall_mem_append.mpr ⟨(List.forall_mem_append.mp h.messages).1,
      parsePacket_dst hset (h.taken _ hdata) hparsed⟩
  | send => exact ⟨hheaded, h.toPush, h.taken, h.messages⟩
  | sent hnext =>
    have hmessages := h.messages
    rw [hnext, List.append_cons] at hmessages
    obtain ⟨hsent, hrest⟩ := List.forall_mem_append.mp hmessages
    obtain ⟨hsent, hlast⟩ := forall_mem_snoc.mp hsent
    refine ⟨hheaded, h.toPush, h.taken, ?_⟩
    exact List.forall_mem_append.mpr ⟨forall_mem_snoc.mpr ⟨hsent, hlast⟩, hrest⟩

theorem run_owned {actions : List Server.Action} (hset : Setting lib w indentSize clientfd)
    (hrun : run (step lib w rand clientmap clientfd) .initial actions = some s)
    (hfits : Throughout (step lib w rand clientmap clientfd) (fun s₁ a _ => s₁.FitsSlot a) .initial
      actions) : Owned clientfd s := by
  have hstep : ∀ s₁ a s₂, a ∈ actions → Owned clientfd s₁ →
      step lib w rand clientmap clientfd s₁ a = some s₂ → s₁.FitsSlot a → Owned clientfd s₂ :=
    fun _ _ _ _ h hs hfits => owned_step hset h hfits hs
  exact throughout_invariant owned_initial hstep hrun hfits

/-- The records of small payloads fit their slots. -/
theorem smooth_fitsSlot {actions : List Server.Action} {payloads chunks : List (List UInt8)}
    {requests : List Request} (hset : Setting lib w indentSize clientfd)
    (hconv : Conversation lib w indentSize payloads requests chunks)
    (hrun : run (step lib w rand clientmap clientfd) .initial actions = some s)
    (hsmooth : Throughout (step lib w rand clientmap clientfd) Smooth .initial actions)
    (hpre : s.reqThread.handed <+: chunks) :
    Throughout (step lib w rand clientmap clientfd) (fun s₁ a _ => s₁.FitsSlot a) .initial
      actions := by
  intro pre a post he s₁ s₂ h₁ _ _ packet hmem
  rw [he] at hsmooth hrun
  rw [run_append, h₁, Option.bind_some] at hrun
  have hhanded : s₁.reqThread.handed <+: s.reqThread.handed :=
    run_invariant (I := fun t => s₁.reqThread.handed <+: t.reqThread.handed) List.prefix_rfl
      (fun _ _ _ _ hI hs => hI.trans (handed_step hs)) hrun
  have hserving := run_serving hset hconv h₁ ((throughout_append h₁).mp hsmooth).1
    (hhanded.trans hpre)
  exact hserving.small hset hconv (hhanded.trans hpre) (List.mem_of_head? hmem)

end RTPVoice.Server
