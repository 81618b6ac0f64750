import RTPVoice.ClientObj.ReadLoop
import RTPVoice.ClientObj.Requester
import RTPVoice.Json.StyledWriter
import RTPVoice.MyProtocol.PhySocketSend
import RTPVoice.MyProtocol.ReplySizes

namespace RTPVoice.Server

open Framework Framework.Transition Json ClientObj MyMasterServer MyProtocol SocketWrap

/-- The packet a call of `PushRecvBuffToQueue` puts into `jqueue`, if it does. The length is looked
at first; a negative one copies from outside `data`. -/
def packet (clientfd : HSocket) (buff : List UInt8) (buffLen : Int) :
    Option (Option (List UInt8)) :=
  if 512 < buffLen then some none
  else if buffLen < 0 ∨ (buff.length : Int) < buffLen then none
  else (pushRecvBuffToQueue clientfd (buff.take buffLen.toNat)).map Prod.snd

/-- The packets that calls put into `jqueue`. -/
def packets : List Call → Option (List (List UInt8))
  | [] => some []
  | .pushRecvBuffToQueue clientfd buff buffLen :: calls => do
    let packet ← packet clientfd buff buffLen
    let rest ← packets calls
    return packet.toList ++ rest
  | _ :: calls => packets calls

/-- A client with its two threads: one reads from the socket and fills `jqueue`, the other empties
it and answers. `handled` counts the packets parsed, and `sent` records the bytes `send` took of
every message that is done with. -/
structure Client where
  reqThread : ReqThread
  /-- the packets the reading thread has still to push, in `StickDismantleProtocol` -/
  toPush : List (List UInt8)
  jqueue : FifoQueue.System
  ctrlr : ProtocolCtrlr
  handled : Nat
  /-- a packet taken and not yet parsed -/
  queueData : Option (List UInt8)
  /-- what `PhySocketSendData` has still to send, the message it is at first -/
  toSend : List (HSocket × List UInt8)
  sending : Sending
  sent : List (HSocket × List UInt8)

def Client.initial : Client :=
  ⟨.initial, [], .fresh, .initial, 0, none, [], .initial, []⟩

inductive Action where
  /-- a turn of the reading thread's loop, with at most `fuel` visits of `Start` -/
  | turn (fuel : Nat) (t : Turn)
  | store
  | semPost
  | semWait
  | timeOut
  | test
  | pop
  | parse
  | send (sent : Transfer Nat)
  deriving DecidableEq

/-- The answering thread is in front of `TakeFromQueue`, which has not failed before. -/
def Client.Waiting (s : Client) : Prop :=
  s.jqueue.holding = 0 ∧ s.jqueue.passed = 0 ∧ s.jqueue.abandoned = 0 ∧ s.queueData = none ∧
    s.toSend = []

instance (s : Client) : Decidable s.Waiting := by unfold Client.Waiting; infer_instance

section Steps

variable (lib : Library) (w : StyledWriter) (rand : Nat → Nat → Nat → Nat)
  (clientmap : List SocketParams) (clientfd : HSocket)

/-- The messages of a callback as they are handed to `PhySocketSendData`. -/
def outgoing (composed : List (HSocket × Value)) : Option (List (HSocket × List UInt8)) :=
  (composed.mapM fun m => sendDataToTheThirdParty m.1 (w.write m.2) clientmap).map List.flatten

/-- What the callback composes for a packet, if it is called. -/
def composed (handled : Nat) : Option (ProtocolNames × ResponeData) → List (HSocket × Value)
  | none => []
  | some (command, data) => masterOnDataFunc (fun k => createGuid (rand handled k)) command data

/-- `thePROTOCOL_Ctrlr` and the messages to send behind a packet. -/
def parsePacket (handled : Nat) (c : ProtocolCtrlr) (slot : List UInt8) :
    Option (ProtocolCtrlr × List (HSocket × List UInt8)) := do
  let (c, call) ← c.takePacket lib slot
  let toSend ← outgoing w clientmap (composed rand handled call)
  return (c, toSend)

/-- A step of one of the two threads; `none` where the thread is elsewhere, or the step is
undefined behaviour or an exception nobody catches. -/
def step (s : Client) : Action → Option Client
  | .turn fuel t =>
    if s.toPush = [] ∧ s.jqueue.posting = 0 then do
      let reqThread ← processClientReq fuel clientfd s.reqThread t
      let toPush ← packets (reqThread.calls.drop s.reqThread.calls.length)
      return { s with reqThread, toPush }
    else none
  | .store =>
    match s.toPush with
    | [] => none
    | packet :: toPush =>
      if s.jqueue.posting = 0 then
        (FifoQueue.step s.jqueue (.store packet)).map fun jqueue => { s with jqueue, toPush }
      else none
  | .semPost => (FifoQueue.step s.jqueue .semPost).map fun jqueue => { s with jqueue }
  | .semWait =>
    if s.Waiting then (FifoQueue.step s.jqueue .semWait).map fun jqueue => { s with jqueue }
    else none
  | .timeOut =>
    if s.Waiting then (FifoQueue.step s.jqueue .timeOut).map fun jqueue => { s with jqueue }
    else none
  | .test => (FifoQueue.step s.jqueue .test).map fun jqueue => { s with jqueue }
  | .pop => (FifoQueue.step s.jqueue .pop).map fun jqueue =>
    { s with jqueue, queueData := jqueue.taken.getLast? }
  | .parse => do
    let slot ← s.queueData
    let (ctrlr, toSend) ← parsePacket lib w rand clientmap s.handled s.ctrlr slot
    return { s with ctrlr, toSend, handled := s.handled + 1, queueData := none }
  | .send sent =>
    match s.toSend with
    | [] => none
    | (fd, buff) :: toSend => do
      let sending ← phySocketSendData buff buff.length s.sending sent
      if sending.returned = none then
        return { s with sending }
      else
        return { s with
          sending := .initial, toSend, sent := s.sent ++ [(fd, sending.accepted)] }

end Steps

/-- The bytes `send` has taken so far. -/
def Client.wire (s : Client) : List UInt8 := s.sent.flatMap Prod.snd ++ s.sending.accepted

/-- What each action needs and does. -/
inductive StepsTo (lib : Library) (w : StyledWriter) (rand : Nat → Nat → Nat → Nat)
    (clientmap : List SocketParams) (clientfd : HSocket) (s : Client) : Action → Client → Prop where
  | turn {fuel : Nat} {t : Turn} {reqThread : ReqThread} {toPush : List (List UInt8)}
    (idle : s.toPush = []) (outside : s.jqueue.posting = 0)
    (turned : processClientReq fuel clientfd s.reqThread t = some reqThread)
    (calls : packets (reqThread.calls.drop s.reqThread.calls.length) = some toPush) :
    StepsTo lib w rand clientmap clientfd s (.turn fuel t) { s with reqThread, toPush }
  | store {packet : List UInt8} {toPush : List (List UInt8)} {jqueue : FifoQueue.System}
    (next : s.toPush = packet :: toPush) (outside : s.jqueue.posting = 0)
    (stored : FifoQueue.step s.jqueue (.store packet) = some jqueue) :
    StepsTo lib w rand clientmap clientfd s .store { s with jqueue, toPush }
  | semPost {jqueue : FifoQueue.System} (posted : FifoQueue.step s.jqueue .semPost = some jqueue) :
    StepsTo lib w rand clientmap clientfd s .semPost { s with jqueue }
  | semWait {jqueue : FifoQueue.System} (waiting : s.Waiting)
    (waited : FifoQueue.step s.jqueue .semWait = some jqueue) :
    StepsTo lib w rand clientmap clientfd s .semWait { s with jqueue }
  | timeOut {jqueue : FifoQueue.System} (waiting : s.Waiting)
    (waited : FifoQueue.step s.jqueue .timeOut = some jqueue) :
    StepsTo lib w rand clientmap clientfd s .timeOut { s with jqueue }
  | test {jqueue : FifoQueue.System} (tested : FifoQueue.step s.jqueue .test = some jqueue) :
    StepsTo lib w rand clientmap clientfd s .test { s with jqueue }
  | pop {jqueue : FifoQueue.System} (popped : FifoQueue.step s.jqueue .pop = some jqueue) :
    StepsTo lib w rand clientmap clientfd s .pop
      { s with jqueue, queueData := jqueue.taken.getLast? }
  | parse {slot : List UInt8} {ctrlr : ProtocolCtrlr} {toSend : List (HSocket × List UInt8)}
    (taken : s.queueData = some slot)
    (parsed : parsePacket lib w rand clientmap s.handled s.ctrlr slot = some (ctrlr, toSend)) :
    StepsTo lib w rand clientmap clientfd s .parse
      { s with ctrlr, toSend, handled := s.handled + 1, queueData := none }
  | send {sent : Transfer Nat} {fd : HSocket} {buff : List UInt8}
    {toSend : List (HSocket × List UInt8)} {sending : Sending}
    (next : s.toSend = (fd, buff) :: toSend) (running : sending.returned = none)
    (turned : phySocketSendData buff buff.length s.sending sent = some sending) :
    StepsTo lib w rand clientmap clientfd s (.send sent) { s with sending }
  | sent {sent : Transfer Nat} {fd : HSocket} {buff : List UInt8}
    {toSend : List (HSocket × List UInt8)} {sending : Sending}
    (next : s.toSend = (fd, buff) :: toSend) (returned : sending.returned ≠ none)
    (turned : phySocketSendData buff buff.length s.sending sent = some sending) :
    StepsTo lib w rand clientmap clientfd s (.send sent) { s with
      sending := .initial, toSend, sent := s.sent ++ [(fd, sending.accepted)] }

variable {lib : Library} {w : StyledWriter} {rand : Nat → Nat → Nat → Nat}
  {clientmap : List SocketParams} {clientfd : HSocket} {s s' : Client} {a : Action}

theorem step_stepsTo (h : step lib w rand clientmap clientfd s a = some s') :
    StepsTo lib w rand clientmap clientfd s a s' := by
  cases a with
  | turn fuel t =>
    simp only [step, Option.ite_none_right_eq_some, Option.bind_eq_bind,
      Option.bind_eq_some_iff] at h
    obtain ⟨⟨hidle, hout⟩, reqThread, hturn, toPush, hcalls, h⟩ := h
    exact Option.some.inj h ▸ .turn hidle hout hturn hcalls
  | store =>
    simp only [step] at h
    split at h
    · cases h
    · next packet toPush hnext =>
      obtain ⟨hout, h⟩ := Option.ite_none_right_eq_some.mp h
      obtain ⟨jqueue, hstore, rfl⟩ := Option.map_eq_some_iff.mp h
      exact .store hnext hout hstore
  | semPost =>
    obtain ⟨jqueue, hpost, rfl⟩ := Option.map_eq_some_iff.mp h
    exact .semPost hpost
  | semWait =>
    obtain ⟨hwaiting, h⟩ := Option.ite_none_right_eq_some.mp h
    obtain ⟨jqueue, hwait, rfl⟩ := Option.map_eq_some_iff.mp h
    exact .semWait hwaiting hwait
  | timeOut =>
    obtain ⟨hwaiting, h⟩ := Option.ite_none_right_eq_some.mp h
    obtain ⟨jqueue, hwait, rfl⟩ := Option.map_eq_some_iff.mp h
    exact .timeOut hwaiting hwait
  | test =>
    obtain ⟨jqueue, htest, rfl⟩ := Option.map_eq_some_iff.mp h
    exact .test htest
  | pop =>
    obtain ⟨jqueue, hpop, rfl⟩ := Option.map_eq_some_iff.mp h
    exact .pop hpop
  | parse =>
    simp only [step, Option.bind_eq_bind, Option.bind_eq_some_iff] at h
    obtain ⟨slot, htaken, ⟨ctrlr, toSend⟩, hparse, h⟩ := h
    exact Option.some.inj h ▸ .parse htaken hparse
  | send sent =>
    simp only [step] at h
    split at h
    · cases h
    · next fd buff toSend hnext =>
      obtain ⟨sending, hturn, h⟩ := Option.bind_eq_some_iff.mp h
      split at h
      · next hrun => exact Option.some.inj h ▸ .send hnext hrun hturn
      · next hret => exact Option.some.inj h ▸ .sent hnext hret hturn

end RTPVoice.Server
