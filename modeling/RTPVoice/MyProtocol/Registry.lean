import RTPVoice.Common
import RTPVoice.Framework.Transition

namespace RTPVoice

/-- Neither key is below the other, which is when `std::map` takes them for the same. -/
def SocketParams.equiv (a b : SocketParams) : Bool := !a.lt b && !b.lt a

theorem SocketParams.equiv_iff {a b : SocketParams} : a.equiv b = true ↔ a = b := by
  obtain ⟨fd, port⟩ := a
  obtain ⟨fd', port'⟩ := b
  simp only [equiv, lt, SocketParams.mk.injEq, UInt32.lt_iff_toNat_lt, UInt16.lt_iff_toNat_lt,
    ← UInt32.toNat_inj, ← UInt16.toNat_inj]
  grind

namespace MyProtocol

/-- A `SocketParams_t` in `clientqueue`, with the number of the object whose reader sent it. -/
structure Notice where
  clientsocket : SocketParams
  sender : Nat
  deriving DecidableEq

/-- The clients of a server and the threads that handle them. Objects are known by the order in
which they were constructed; `exited`, `handled` and `deleted` are those whose reader thread has
sent its notice, whose notice was processed, and that were deleted. -/
structure Server where
  listenNumb : Nat
  /-- threads in `SocketAccept` -/
  listening : Nat
  openFds : List HSocket
  /-- what threads behind `SocketAccept` and in front of the test were given -/
  accepted : List SocketParams
  objects : List SocketParams
  /-- objects of threads in front of the insertion -/
  inserting : List Nat
  clientmap : List (SocketParams × Nat)
  clientqueue : List Notice
  /-- the notice the recovery thread has taken -/
  held : Option Notice
  exited : List Nat
  handled : List Nat
  deleted : List Nat
  deriving DecidableEq

namespace Server

def fresh : Server := ⟨0, 0, [], [], [], [], [], [], none, [], [], []⟩

def createListenThread (s : Server) : Server :=
  if s.listenNumb < maxListeningCount then
    { s with listenNumb := s.listenNumb + 1, listening := s.listening + 1 }
  else s

/-- After `InitSocket`. -/
def started : Server := fresh.createListenThread

/-- `SocketAccept` returns and the next listening thread is created. -/
def accept (s : Server) (p : SocketParams) : Server :=
  { s with
    listening := s.listening - 1
    openFds := s.openFds ++ [p.socketFd]
    accepted := s.accepted ++ [p] }.createListenThread

def acceptFail (s : Server) : Server := { s with listening := s.listening - 1 }.createListenThread

/-- The test on `listen_numb` and, when it holds, the constructor. -/
def construct (s : Server) (p : SocketParams) : Server :=
  if s.listenNumb < maxListeningCount then
    { s with
      accepted := s.accepted.erase p
      objects := s.objects ++ [p]
      inserting := s.inserting ++ [s.objects.length] }
  else { s with accepted := s.accepted.erase p }

/-- `clientmap[p] = o`. -/
def assign (clientmap : List (SocketParams × Nat)) (p : SocketParams) (o : Nat) :
    List (SocketParams × Nat) :=
  if clientmap.any fun e => e.1.equiv p then
    clientmap.map fun e => if e.1.equiv p then (e.1, o) else e
  else clientmap ++ [(p, o)]

def insert (s : Server) (o : Nat) (p : SocketParams) : Server :=
  { s with inserting := s.inserting.erase o, clientmap := assign s.clientmap p o }

/-- The reader thread leaves its loop and pushes its notice. -/
def notify (s : Server) (o : Nat) (p : SocketParams) : Server :=
  { s with exited := s.exited ++ [o], clientqueue := s.clientqueue ++ [⟨p, o⟩] }

/-- The locked part of `RecoveryClientObjThreadFunc`; the destructor closes the socket. -/
def recover (s : Server) (n : Notice) : Server :=
  let s' := { s with held := none, handled := s.handled ++ [n.sender] }
  match s.clientmap.find? fun e => e.1.equiv n.clientsocket with
  | none => s'
  | some (_, o) =>
    { s' with
      deleted := s.deleted ++ [o]
      openFds := s.openFds.filter fun fd => some fd ≠ (s.objects[o]?).map SocketParams.socketFd
      clientmap := s.clientmap.eraseP fun e => e.1.equiv n.clientsocket }

end Server

inductive Action where
  | accept (p : SocketParams)
  | acceptFail
  | construct (p : SocketParams)
  | insert (o : Nat)
  | readerExit (o : Nat)
  | dequeue
  | recover
  deriving DecidableEq

/-- The packets `clientqueue` keeps apart. -/
def maxNotices : Nat := 20

/-- `accept` returns no handle that is open. While at most twenty notices are pending, `clientqueue`
hands them out in the order of the pushes. -/
def step (s : Server) : Action → Option Server
  | .accept p =>
    if 0 < s.listening ∧ p.socketFd ≠ invalidSocket ∧ p.socketFd ∉ s.openFds then some (s.accept p)
    else none
  | .acceptFail => if 0 < s.listening then some s.acceptFail else none
  | .construct p => if p ∈ s.accepted then some (s.construct p) else none
  | .insert o => if o ∈ s.inserting then (s.objects[o]?).map (s.insert o) else none
  | .readerExit o =>
    if o ∈ s.exited ∨ maxNotices ≤ s.clientqueue.length then none
    else (s.objects[o]?).map (s.notify o)
  | .dequeue =>
    match s.held, s.clientqueue with
    | none, n :: rest => some { s with held := some n, clientqueue := rest }
    | _, _ => none
  | .recover => s.held.map s.recover

/-- What each action needs and does. -/
inductive StepsTo (s : Server) : Action → Server → Prop where
  | accept (p : SocketParams) (listening : 0 < s.listening) (fresh : p.socketFd ∉ s.openFds) :
    StepsTo s (.accept p) (s.accept p)
  | acceptFail (listening : 0 < s.listening) : StepsTo s .acceptFail s.acceptFail
  | construct (p : SocketParams) (accepted : p ∈ s.accepted) :
    StepsTo s (.construct p) (s.construct p)
  | insert (o : Nat) (p : SocketParams) (inserting : o ∈ s.inserting)
    (object : s.objects[o]? = some p) : StepsTo s (.insert o) (s.insert o p)
  | readerExit (o : Nat) (p : SocketParams) (running : o ∉ s.exited)
    (object : s.objects[o]? = some p) : StepsTo s (.readerExit o) (s.notify o p)
  | dequeue (n : Notice) (rest : List Notice) (idle : s.held = none)
    (queue : s.clientqueue = n :: rest) :
    StepsTo s .dequeue { s with held := some n, clientqueue := rest }
  | recover (n : Notice) (held : s.held = some n) : StepsTo s .recover (s.recover n)

theorem step_stepsTo {s s' : Server} {a : Action} (h : step s a = some s') : StepsTo s a s' := by
  cases a with
  | accept p =>
    simp only [step, Option.ite_none_right_eq_some, Option.some.injEq] at h
    obtain ⟨⟨hl, -, hf⟩, rfl⟩ := h
    exact .accept p hl hf
  | acceptFail =>
    simp only [step, Option.ite_none_right_eq_some, Option.some.injEq] at h
    exact h.2 ▸ .acceptFail h.1
  | construct p =>
    simp only [step, Option.ite_none_right_eq_some, Option.some.injEq] at h
    exact h.2 ▸ .construct p h.1
  | insert o =>
    simp only [step, Option.ite_none_right_eq_some, Option.map_eq_some_iff] at h
    obtain ⟨ho, p, hp, rfl⟩ := h
    exact .insert o p ho hp
  | readerExit o =>
    simp only [step, Option.ite_none_left_eq_some, Option.map_eq_some_iff, not_or] at h
    obtain ⟨⟨ho, -⟩, p, hp, rfl⟩ := h
    exact .readerExit o p ho hp
  | dequeue =>
    simp only [step] at h
    split at h
    · next n rest hheld hqueue => exact Option.some.inj h ▸ .dequeue n rest hheld hqueue
    · cases h
  | recover =>
    obtain ⟨n, hheld, rfl⟩ := Option.map_eq_some_iff.mp h
    exact .recover n hheld

/-- The notices not yet processed, in the order they will be. -/
def Server.pending (s : Server) : List Notice := s.held.toList ++ s.clientqueue

/-- `s'` has the clients, notices and deletions of `s`. -/
structure SameClients (s s' : Server) : Prop where
  clientmap : s'.clientmap = s.clientmap
  exited : s'.exited = s.exited
  pending : s'.pending = s.pending
  deleted : s'.deleted = s.deleted

theorem sameClients_createListenThread (s : Server) : SameClients s s.createListenThread := by
  unfold Server.createListenThread
  split <;> exact ⟨rfl, rfl, rfl, rfl⟩

theorem sameClients_accept (s : Server) (p : SocketParams) : SameClients s (s.accept p) :=
  { sameClients_createListenThread _ with }

theorem sameClients_acceptFail (s : Server) : SameClients s s.acceptFail :=
  { sameClients_createListenThread _ with }

theorem sameClients_construct (s : Server) (p : SocketParams) : SameClients s (s.construct p) := by
  unfold Server.construct
  split <;> exact ⟨rfl, rfl, rfl, rfl⟩

end MyProtocol

end RTPVoice
