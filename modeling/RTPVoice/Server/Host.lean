import RTPVoice.MyProtocol.Registry
import RTPVoice.Server.Client

namespace RTPVoice.Server

open Framework Json ClientObj MyMasterServer MyProtocol

/-- The server with all its threads: those that accept, register and recover clients, and the two
of every object, which is known by its number. -/
structure Host where
  registry : MyProtocol.Server
  clients : Nat → Client
  /-- objects whose destructor has called `SetThreadExitFlag` -/
  exitFlags : List Nat
  /-- the object in whose destructor the recovery thread is, behind `SocketClose` -/
  destroying : Option Nat
  /-- objects whose answering thread has a packet and is behind its test of the exit flag -/
  tested : List Nat

def Host.started : Host := ⟨.started, fun _ => .initial, [], none, []⟩

inductive HostAction where
  | registry (a : MyProtocol.Action)
  | client (o : Nat) (a : Server.Action)
  /-- the answering thread of the object has taken a packet and finds the exit flag not set -/
  | testExitFlag (o : Nat)
  | setThreadExitFlag
  /-- the two threads have ended, and the object is gone -/
  | join
  deriving DecidableEq

/-- The reading thread has left its loop, and has nothing more to push. -/
structure Client.Left (c : Client) : Prop where
  outside : c.reqThread.inLoop = false
  toPush : c.toPush = []
  posting : c.jqueue.posting = 0

instance (c : Client) : Decidable c.Left :=
  decidable_of_iff (c.reqThread.inLoop = false ∧ c.toPush = [] ∧ c.jqueue.posting = 0)
    ⟨fun h => ⟨h.1, h.2.1, h.2.2⟩, fun h => ⟨h.outside, h.toPush, h.posting⟩⟩

/-- The answering thread is where it looks at the exit flag next. -/
def Client.Outside (c : Client) : Prop :=
  c.toSend = [] ∧ c.jqueue.holding = 0 ∧ c.jqueue.passed = 0

instance (c : Client) : Decidable c.Outside := by unfold Client.Outside; infer_instance

namespace Host

/-- What a step waits for. The recovery thread holds `clientmap_locker` while it is in a
destructor. -/
def Ready (s : Host) : MyProtocol.Action → Prop
  | .readerExit o => (s.clients o).Left
  | .insert _ | .dequeue | .recover => s.destroying = none
  | .accept _ | .acceptFail | .construct _ => True

instance (s : Host) (a : MyProtocol.Action) : Decidable (s.Ready a) := by
  unfold Ready
  split <;> infer_instance

/-- The object whose destructor a step enters. -/
def begun (s : Host) (registry : MyProtocol.Server) : Option Nat :=
  registry.deleted[s.registry.deleted.length]?

/-- Behind the destructor an object has no threads, and none parses a packet in front of its test of
the exit flag. -/
def Running (s : Host) (o : Nat) (a : Server.Action) : Prop :=
  (o ∈ s.exitFlags → s.destroying = some o) ∧ (a = .parse → o ∈ s.tested)

instance (s : Host) (o : Nat) (a : Server.Action) : Decidable (s.Running o a) := by
  unfold Running; infer_instance

/-- The threads that are behind the test when one of them has taken a step. -/
def behind (s : Host) (o : Nat) : Server.Action → List Nat
  | .parse => s.tested.filter (· ≠ o)
  | _ => s.tested

end Host

section Steps

variable (lib : Library) (w : StyledWriter) (rand : Nat → Nat → Nat → Nat → Nat)

/-- A step of an object's threads. -/
def clientStep (s : Host) (o : Nat) (p : SocketParams) (a : Server.Action) : Option Client :=
  step lib w (rand o) (s.registry.clientmap.map Prod.fst) p.socketFd (s.clients o) a

def hostStep (s : Host) : HostAction → Option Host
  | .registry a =>
    if s.Ready a then
      (MyProtocol.step s.registry a).map fun registry =>
        { s with registry, destroying := (s.begun registry).or s.destroying }
    else none
  | .client o a =>
    if s.Running o a then do
      let p ← s.registry.objects[o]?
      let c ← clientStep lib w rand s o p a
      return { s with clients := Function.update s.clients o c, tested := s.behind o a }
    else none
  | .testExitFlag o =>
    if o ∉ s.exitFlags ∧ o ∉ s.tested ∧ (s.clients o).queueData ≠ none then
      some { s with tested := s.tested ++ [o] }
    else none
  | .setThreadExitFlag => do
    let o ← s.destroying
    if o ∈ s.exitFlags then none else some { s with exitFlags := s.exitFlags ++ [o] }
  | .join => do
    let o ← s.destroying
    if o ∈ s.exitFlags ∧ (s.clients o).Outside ∧ o ∉ s.tested then
      some { s with destroying := none }
    else none

end Steps

/-- What each action needs and does. -/
inductive HostStepsTo (lib : Library) (w : StyledWriter) (rand : Nat → Nat → Nat → Nat → Nat)
    (s : Host) : HostAction → Host → Prop where
  | registry {a : MyProtocol.Action} {registry : MyProtocol.Server} (ready : s.Ready a)
    (stepped : MyProtocol.step s.registry a = some registry) :
    HostStepsTo lib w rand s (.registry a)
      { s with registry, destroying := (s.begun registry).or s.destroying }
  | client {o : Nat} {p : SocketParams} {a : Server.Action} {c : Client} (running : s.Running o a)
    (object : s.registry.objects[o]? = some p) (stepped : clientStep lib w rand s o p a = some c) :
    HostStepsTo lib w rand s (.client o a)
      { s with clients := Function.update s.clients o c, tested := s.behind o a }
  | testExitFlag {o : Nat} (unset : o ∉ s.exitFlags) (packet : (s.clients o).queueData ≠ none) :
    HostStepsTo lib w rand s (.testExitFlag o) { s with tested := s.tested ++ [o] }
  | setThreadExitFlag {o : Nat} (destroying : s.destroying = some o) :
    HostStepsTo lib w rand s .setThreadExitFlag { s with exitFlags := s.exitFlags ++ [o] }
  | join : HostStepsTo lib w rand s .join { s with destroying := none }

variable {lib : Library} {w : StyledWriter} {rand : Nat → Nat → Nat → Nat → Nat} {s s' : Host}
  {a : HostAction}

theorem hostStep_registry {a : MyProtocol.Action} {registry : MyProtocol.Server}
    (hready : s.Ready a) (h : MyProtocol.step s.registry a = some registry) :
    hostStep lib w rand s (.registry a) =
      some { s with registry, destroying := (s.begun registry).or s.destroying } := by
  rw [hostStep, if_pos hready, h]
  rfl

theorem hostStep_client {o : Nat} {p : SocketParams} {b : Server.Action} {c : Client}
    (hrunning : s.Running o b) (hobject : s.registry.objects[o]? = some p)
    (h : clientStep lib w rand s o p b = some c) :
    hostStep lib w rand s (.client o b) =
      some { s with clients := Function.update s.clients o c, tested := s.behind o b } := by
  rw [hostStep, if_pos hrunning, hobject, Option.bind_eq_bind, Option.bind_some, h]
  rfl

theorem hostStep_stepsTo (h : hostStep lib w rand s a = some s') :
    HostStepsTo lib w rand s a s' := by
  cases a with
  | registry a =>
    obtain ⟨hready, h⟩ := Option.ite_none_right_eq_some.mp h
    obtain ⟨registry, hstep, rfl⟩ := Option.map_eq_some_iff.mp h
    exact .registry hready hstep
  | client o a =>
    obtain ⟨hrunning, h⟩ := Option.ite_none_right_eq_some.mp h
    obtain ⟨p, hobject, h⟩ := Option.bind_eq_some_iff.mp h
    obtain ⟨c, hstep, h⟩ := Option.bind_eq_some_iff.mp h
    exact Option.some.inj h ▸ .client hrunning hobject hstep
  | testExitFlag o =>
    obtain ⟨⟨hunset, -, hpacket⟩, h⟩ := Option.ite_none_right_eq_some.mp h
    exact Option.some.inj h ▸ .testExitFlag hunset hpacket
  | setThreadExitFlag =>
    obtain ⟨o, hdestroying, h⟩ := Option.bind_eq_some_iff.mp h
    obtain ⟨-, h⟩ := Option.ite_none_left_eq_some.mp h
    exact Option.some.inj h ▸ .setThreadExitFlag hdestroying
  | join =>
    obtain ⟨o, -, h⟩ := Option.bind_eq_some_iff.mp h
    obtain ⟨-, h⟩ := Option.ite_none_right_eq_some.mp h
    exact Option.some.inj h ▸ .join

end RTPVoice.Server
