import RTPVoice.FifoQueue.Queue
import RTPVoice.MyProtocol.Registry

namespace RTPVoice.MyProtocol.Teardown

open Framework

/-- Where a thread in `ListenThreadFunc` is. `accepted` is what `SocketAccept` gave it, if that is a
socket. -/
inductive Listener where
  | accepting
  /-- in front of the test of `serversoc` -/
  | testing (accepted : Option SocketParams)
  /-- in `CreateListenThread` -/
  | creating (accepted : Option SocketParams)
  /-- in `listen_thread_p[listen_numb++] = new MyCreateThread(..)`, with the index taken or not and
  the next thread made or not, in either order -/
  | storing (index thread : Option Nat) (accepted : Option SocketParams)
  /-- in front of the test of what was accepted -/
  | created (accepted : Option SocketParams)
  /-- in front of the insertion of object `o` -/
  | inserting (o : Nat) (p : SocketParams)
  | exited
  deriving DecidableEq

/-- The threads of an object, by their pointers. -/
inductive Worker where
  | parseThreadP
  | processClientThreadP
  deriving DecidableEq

/-- Where the thread in `RecoveryClientObjThreadFunc` is. -/
inductive Recovery where
  | taking
  /-- in front of the test of `set_thread_exit_flag`, with the notice taken or after a time-out -/
  | taken (notice : Option SocketParams)
  /-- in the destructor of object `o`, with the lock -/
  | deleting (o : Nat)
  | exited
  deriving DecidableEq

/-- Where the thread in `~JProtocol` is. -/
inductive Destructor where
  /-- it is not called yet -/
  | idle
  /-- in `CloseMater`, behind the assignment to `serversoc` -/
  | closing
  | flagging
  | joiningRecovery
  /-- in front of entry `i` of `listen_thread_p` -/
  | joining (i : Nat)
  | emptying
  /-- in the destructor of object `o` -/
  | deleting (o : Nat)
  | done
  deriving DecidableEq

/-- `serversoc != INVALID_SOCKET`. -/
def Destructor.serversoc : Destructor → Bool
  | .idle => true
  | _ => false

/-- `mytcp_server` is not deleted. -/
def Destructor.tcpServer : Destructor → Bool
  | .idle | .closing => true
  | _ => false

def Destructor.exitFlag : Destructor → Bool
  | .idle | .closing | .flagging => false
  | _ => true

/-- A server and its threads. Listening threads and objects are known by the order in which they
were made; `exited` are the threads of objects that have ended. -/
structure Threads where
  listeners : List Listener
  listenNumb : Nat
  /-- the entries of `listen_thread_p` that are not `NULL`, and their threads -/
  listenThreadP : List (Nat × Nat)
  openFds : List HSocket
  objects : List SocketParams
  clientmap : List (SocketParams × Nat)
  /-- the permits of `clientqueue` -/
  notices : Nat
  exited : List (Nat × Worker)
  deleted : List Nat
  recovery : Recovery
  destructor : Destructor
  deriving DecidableEq

namespace Threads

/-- After `InitSocket`, which has stored the first thread. -/
def started : Threads := ⟨[.accepting], 1, [(0, 0)], [], [], [], 0, [], [], .taking, .idle⟩

def goTo (s : Threads) (i : Nat) (l : Listener) : Threads :=
  { s with listeners := s.listeners.set i l }

/-- What the destructor of object `o` closes first. -/
def close (s : Threads) (o : Nat) : List HSocket :=
  s.openFds.filter fun fd => some fd ≠ (s.objects[o]?).map SocketParams.socketFd

/-- The object is gone and so is its entry. -/
def erase (s : Threads) (o : Nat) : Threads :=
  { s with
    clientmap := s.clientmap.filter fun e => e.2 ≠ o
    deleted := s.deleted ++ [o] }

/-- Both threads of object `o` have ended, for which `~ClientObj` waits. -/
def Ended (s : Threads) (o : Nat) : Prop :=
  (o, .parseThreadP) ∈ s.exited ∧ (o, .processClientThreadP) ∈ s.exited

instance (s : Threads) (o : Nat) : Decidable (s.Ended o) := by
  unfold Ended
  infer_instance

/-- `listen_numb++` in thread `i`. -/
def takeIndex (s : Threads) (i : Nat) : Listener → Option Threads
  | .storing none thread accepted =>
    some { s.goTo i (.storing (some s.listenNumb) thread accepted) with
      listenNumb := s.listenNumb + 1 }
  | _ => none

/-- `new MyCreateThread(ListenThread, this)` in thread `i`. -/
def makeThread (s : Threads) (i : Nat) : Listener → Option Threads
  | .storing index none accepted =>
    some { s with
      listeners := s.listeners.set i (.storing index (some s.listeners.length) accepted) ++
        [.accepting] }
  | _ => none

/-- Thread `i` goes on, which `l` is. A pointer stored behind the array is undefined. -/
def listen (s : Threads) (i : Nat) (l : Listener) : Option Threads :=
  match l with
  | .accepting => none
  | .testing accepted =>
    some (s.goTo i (if s.destructor.serversoc then .creating accepted else .created accepted))
  | .creating accepted =>
    some (s.goTo i (if s.listenNumb < maxListeningCount then .storing none none accepted
      else .created accepted))
  | .storing (some index) (some thread) accepted =>
    if index < maxListeningCount then
      some { s.goTo i (.created accepted) with
        listenThreadP := s.listenThreadP ++ [(index, thread)] }
    else none
  | .storing _ _ _ => none
  | .created none => some (s.goTo i .exited)
  | .created (some p) =>
    if s.listenNumb < maxListeningCount then
      some { s.goTo i (.inserting s.objects.length p) with objects := s.objects ++ [p] }
    else some (s.goTo i .exited)
  | .inserting o p =>
    match s.recovery with
    | .deleting _ => none
    | _ => some { s.goTo i .exited with clientmap := Server.assign s.clientmap p o }
  | .exited => none

/-- The thread in `RecoveryClientObjThreadFunc` goes on. -/
def recover (s : Threads) : Option Threads :=
  match s.recovery with
  | .taking => none
  | .taken notice =>
    if s.destructor.exitFlag then some { s with recovery := .exited }
    else
      match notice.bind fun p => s.clientmap.find? fun e => e.1.equiv p with
      | none => some { s with recovery := .taking }
      | some e => some { s with recovery := .deleting e.2, openFds := s.close e.2 }
  | .deleting o => if s.Ended o then some { s.erase o with recovery := .taking } else none
  | .exited => none

/-- `clientmap.begin()`. -/
def begin : List (SocketParams × Nat) → Option (SocketParams × Nat)
  | [] => none
  | e :: rest =>
    match begin rest with
    | none => some e
    | some e' => if e'.1.lt e.1 then some e' else some e

/-- The thread in `~JProtocol` goes on. -/
def destroy (s : Threads) : Option Threads :=
  match s.destructor with
  | .idle => some { s with destructor := .closing }
  | .closing => some { s with destructor := .flagging }
  | .flagging => some { s with destructor := .joiningRecovery }
  | .joiningRecovery =>
    if s.recovery = .exited then some { s with destructor := .joining 0 } else none
  | .joining i =>
    if i < maxListeningCount then
      match s.listenThreadP.find? fun e => e.1 = i with
      | none => some { s with destructor := .joining (i + 1) }
      | some e =>
        if s.listeners[e.2]? = some .exited then
          some { s with
            listenThreadP := s.listenThreadP.filter fun e => e.1 ≠ i
            destructor := .joining (i + 1) }
        else none
    else some { s with destructor := .emptying }
  | .emptying =>
    match begin s.clientmap with
    | none => some { s with destructor := .done }
    | some e => some { s with destructor := .deleting e.2, openFds := s.close e.2 }
  | .deleting o => if s.Ended o then some { s.erase o with destructor := .emptying } else none
  | .done => none

end Threads

inductive Action where
  /-- `SocketAccept` returns in listening thread `i` -/
  | accept (i : Nat) (accepted : Option SocketParams)
  | listen (i : Nat)
  /-- listening thread `i` takes the index of the next one -/
  | takeIndex (i : Nat)
  /-- listening thread `i` makes the next one -/
  | makeThread (i : Nat)
  /-- a thread of object `o` ends; the reading thread sends its notice -/
  | workerExit (o : Nat) (worker : Worker)
  /-- the recovery thread gets a packet, or none in time -/
  | take (notice : SocketParams)
  | timeOut
  | recover
  | destroy
  deriving DecidableEq

/-- `accept` returns no handle that is open, and no socket once the listening one is closed. What a
notice says is left open: any handle and port may be taken from `clientqueue`. -/
def step (s : Threads) : Action → Option Threads
  | .accept i none =>
    if s.listeners[i]? = some .accepting then some (s.goTo i (.testing none)) else none
  | .accept i (some p) =>
    if s.listeners[i]? = some .accepting ∧ s.destructor.tcpServer ∧ p.socketFd ≠ invalidSocket ∧
        p.socketFd ∉ s.openFds then
      some { s.goTo i (.testing (some p)) with openFds := s.openFds ++ [p.socketFd] }
    else none
  | .listen i => (s.listeners[i]?).bind (s.listen i)
  | .takeIndex i => (s.listeners[i]?).bind (s.takeIndex i)
  | .makeThread i => (s.listeners[i]?).bind (s.makeThread i)
  | .workerExit o worker =>
    if o < s.objects.length ∧ (o, worker) ∉ s.exited then
      some { s with
        exited := s.exited ++ [(o, worker)]
        notices :=
          match worker with
          | .parseThreadP => s.notices
          | .processClientThreadP => min (s.notices + 1) FifoQueue.maxPermits }
    else none
  | .take notice =>
    if s.recovery = .taking ∧ s.notices ≠ 0 then
      some { s with notices := s.notices - 1, recovery := .taken (some notice) }
    else none
  | .timeOut =>
    if s.recovery = .taking ∧ s.notices = 0 then some { s with recovery := .taken none } else none
  | .recover => s.recover
  | .destroy => s.destroy

/-- What each action needs and does. -/
inductive StepsTo (s : Threads) : Action → Threads → Prop where
  | refused {i : Nat} (here : s.listeners[i]? = some .accepting) :
    StepsTo s (.accept i none) (s.goTo i (.testing none))
  | accept {i : Nat} {p : SocketParams} (here : s.listeners[i]? = some .accepting)
    (server : s.destructor.tcpServer = true) (fresh : p.socketFd ∉ s.openFds) :
    StepsTo s (.accept i (some p))
      { s.goTo i (.testing (some p)) with openFds := s.openFds ++ [p.socketFd] }
  | tested {i : Nat} {accepted : Option SocketParams}
    (here : s.listeners[i]? = some (.testing accepted)) (valid : s.destructor.serversoc = true) :
    StepsTo s (.listen i) (s.goTo i (.creating accepted))
  | closedDown {i : Nat} {accepted : Option SocketParams}
    (here : s.listeners[i]? = some (.testing accepted)) (invalid : s.destructor.serversoc = false) :
    StepsTo s (.listen i) (s.goTo i (.created accepted))
  | create {i : Nat} {accepted : Option SocketParams}
    (here : s.listeners[i]? = some (.creating accepted)) (room : s.listenNumb < maxListeningCount) :
    StepsTo s (.listen i) (s.goTo i (.storing none none accepted))
  | full {i : Nat} {accepted : Option SocketParams}
    (here : s.listeners[i]? = some (.creating accepted))
    (full : ¬ s.listenNumb < maxListeningCount) :
    StepsTo s (.listen i) (s.goTo i (.created accepted))
  | takeIndex {i : Nat} {thread : Option Nat} {accepted : Option SocketParams}
    (here : s.listeners[i]? = some (.storing none thread accepted)) :
    StepsTo s (.takeIndex i)
      { s.goTo i (.storing (some s.listenNumb) thread accepted) with
        listenNumb := s.listenNumb + 1 }
  | makeThread {i : Nat} {index : Option Nat} {accepted : Option SocketParams}
    (here : s.listeners[i]? = some (.storing index none accepted)) :
    StepsTo s (.makeThread i)
      { s with listeners := s.listeners.set i (.storing index (some s.listeners.length) accepted) ++
        [.accepting] }
  | store {i index thread : Nat} {accepted : Option SocketParams}
    (here : s.listeners[i]? = some (.storing (some index) (some thread) accepted)) :
    StepsTo s (.listen i)
      { s.goTo i (.created accepted) with listenThreadP := s.listenThreadP ++ [(index, thread)] }
  | unaccepted {i : Nat} (here : s.listeners[i]? = some (.created none)) :
    StepsTo s (.listen i) (s.goTo i .exited)
  | construct {i : Nat} {p : SocketParams} (here : s.listeners[i]? = some (.created (some p))) :
    StepsTo s (.listen i)
      { s.goTo i (.inserting s.objects.length p) with objects := s.objects ++ [p] }
  | discard {i : Nat} {p : SocketParams} (here : s.listeners[i]? = some (.created (some p))) :
    StepsTo s (.listen i) (s.goTo i .exited)
  | insert {i o : Nat} {p : SocketParams} (here : s.listeners[i]? = some (.inserting o p))
    (unlocked : ∀ o', s.recovery ≠ .deleting o') :
    StepsTo s (.listen i)
      { s.goTo i .exited with clientmap := Server.assign s.clientmap p o }
  | workerExit {o : Nat} {worker : Worker} {notices : Nat} (lt : o < s.objects.length)
    (running : (o, worker) ∉ s.exited) (notices_le : notices ≤ s.notices + 1) :
    StepsTo s (.workerExit o worker) { s with
      exited := s.exited ++ [(o, worker)]
      notices := notices }
  | take {notice : SocketParams} (taking : s.recovery = .taking) (permits : s.notices ≠ 0) :
    StepsTo s (.take notice)
      { s with notices := s.notices - 1, recovery := .taken (some notice) }
  | timeOut (taking : s.recovery = .taking) (noPermits : s.notices = 0) :
    StepsTo s .timeOut { s with recovery := .taken none }
  | stop {notice : Option SocketParams} (taken : s.recovery = .taken notice)
    (flag : s.destructor.exitFlag = true) : StepsTo s .recover { s with recovery := .exited }
  | again {notice : Option SocketParams} (taken : s.recovery = .taken notice)
    (flag : s.destructor.exitFlag = false) : StepsTo s .recover { s with recovery := .taking }
  | found {notice : SocketParams} {e : SocketParams × Nat}
    (taken : s.recovery = .taken (some notice)) (flag : s.destructor.exitFlag = false)
    (mem : e ∈ s.clientmap) :
    StepsTo s .recover { s with recovery := .deleting e.2, openFds := s.close e.2 }
  | recovered {o : Nat} (deleting : s.recovery = .deleting o) (ended : s.Ended o) :
    StepsTo s .recover { s.erase o with recovery := .taking }
  | invalidate (here : s.destructor = .idle) :
    StepsTo s .destroy { s with destructor := .closing }
  | closeServer (here : s.destructor = .closing) :
    StepsTo s .destroy { s with destructor := .flagging }
  | setFlag (here : s.destructor = .flagging) :
    StepsTo s .destroy { s with destructor := .joiningRecovery }
  | recoveryJoined (here : s.destructor = .joiningRecovery) (ended : s.recovery = .exited) :
    StepsTo s .destroy { s with destructor := .joining 0 }
  | listenJoined {i : Nat} {e : Nat × Nat} (here : s.destructor = .joining i)
    (lt : i < maxListeningCount) (mem : e ∈ s.listenThreadP) (entry : e.1 = i)
    (ended : s.listeners[e.2]? = some .exited) :
    StepsTo s .destroy { s with
      listenThreadP := s.listenThreadP.filter fun e => e.1 ≠ i
      destructor := .joining (i + 1) }
  | noThread {i : Nat} (here : s.destructor = .joining i) (lt : i < maxListeningCount)
    (null : ∀ e ∈ s.listenThreadP, e.1 ≠ i) :
    StepsTo s .destroy { s with destructor := .joining (i + 1) }
  | allJoined {i : Nat} (here : s.destructor = .joining i) (ge : ¬ i < maxListeningCount) :
    StepsTo s .destroy { s with destructor := .emptying }
  | deleteClient {e : SocketParams × Nat} (here : s.destructor = .emptying)
    (mem : e ∈ s.clientmap) :
    StepsTo s .destroy { s with destructor := .deleting e.2, openFds := s.close e.2 }
  | clientDeleted {o : Nat} (here : s.destructor = .deleting o) (ended : s.Ended o) :
    StepsTo s .destroy { s.erase o with destructor := .emptying }
  | finish (here : s.destructor = .emptying) (empty : s.clientmap = []) :
    StepsTo s .destroy { s with destructor := .done }

theorem begin_mem {clientmap : List (SocketParams × Nat)} {e : SocketParams × Nat}
    (h : Threads.begin clientmap = some e) : e ∈ clientmap := by
  induction clientmap generalizing e with
  | nil => cases h
  | cons first rest ih =>
    simp only [Threads.begin] at h
    split at h
    · cases h
      exact List.mem_cons_self
    · next e' hrest =>
      split at h <;> cases h
      · exact List.mem_cons_of_mem _ (ih hrest)
      · exact List.mem_cons_self

theorem begin_eq_none {clientmap : List (SocketParams × Nat)}
    (h : Threads.begin clientmap = none) : clientmap = [] := by
  cases clientmap with
  | nil => rfl
  | cons first rest =>
    simp only [Threads.begin] at h
    split at h
    · cases h
    · split at h <;> cases h

variable {s s' : Threads} {a : Action} {i : Nat} {l : Listener}

theorem listen_stepsTo (hhere : s.listeners[i]? = some l) (h : s.listen i l = some s') :
    StepsTo s (.listen i) s' := by
  cases l with
  | accepting | exited => cases h
  | testing accepted =>
    cases h
    split
    · next hvalid => exact .tested hhere hvalid
    · next hvalid => exact .closedDown hhere (Bool.eq_false_iff.mpr hvalid)
  | creating accepted =>
    cases h
    split
    · next hroom => exact .create hhere hroom
    · next hfull => exact .full hhere hfull
  | storing index thread accepted =>
    rcases index with _ | index
    · cases h
    rcases thread with _ | thread
    · cases h
    simp only [Threads.listen] at h
    split at h <;> cases h
    exact .store hhere
  | created accepted =>
    cases accepted with
    | none =>
      cases h
      exact .unaccepted hhere
    | some p =>
      simp only [Threads.listen] at h
      split at h <;> cases h
      · exact .construct hhere
      · exact .discard hhere
  | inserting o p =>
    simp only [Threads.listen] at h
    split at h
    · cases h
    · next hunlocked =>
      cases h
      exact .insert hhere hunlocked

theorem recover_stepsTo (h : s.recover = some s') : StepsTo s .recover s' := by
  unfold Threads.recover at h
  split at h
  · cases h
  · next notice htaken =>
    split at h
    · next hflag =>
      cases h
      exact .stop htaken hflag
    · next hflag =>
      have hunset : s.destructor.exitFlag = false := Bool.eq_false_iff.mpr hflag
      split at h
      · cases h
        exact .again htaken hunset
      · next e hfind =>
        cases h
        obtain ⟨p, rfl, hfind⟩ := Option.bind_eq_some_iff.mp hfind
        exact .found htaken hunset (List.mem_of_find?_eq_some hfind)
  · next o hdeleting =>
    obtain ⟨hended, h⟩ := Option.ite_none_right_eq_some.mp h
    cases h
    exact .recovered hdeleting hended
  · cases h

theorem destroy_stepsTo (h : s.destroy = some s') : StepsTo s .destroy s' := by
  unfold Threads.destroy at h
  split at h
  · next hhere =>
    cases h
    exact .invalidate hhere
  · next hhere =>
    cases h
    exact .closeServer hhere
  · next hhere =>
    cases h
    exact .setFlag hhere
  · next hhere =>
    obtain ⟨hended, h⟩ := Option.ite_none_right_eq_some.mp h
    cases h
    exact .recoveryJoined hhere hended
  · next i hhere =>
    split at h
    · next hlt =>
      split at h
      · next hnull =>
        cases h
        exact .noThread hhere hlt (by simpa using hnull)
      · next e hfind =>
        obtain ⟨hended, h⟩ := Option.ite_none_right_eq_some.mp h
        cases h
        have hentry := List.find?_some hfind
        exact .listenJoined hhere hlt (List.mem_of_find?_eq_some hfind)
          (of_decide_eq_true hentry) hended
    · next hge =>
      cases h
      exact .allJoined hhere hge
  · next hhere =>
    split at h <;> cases h
    · next hbegin => exact .finish hhere (begin_eq_none hbegin)
    · next e hbegin => exact .deleteClient hhere (begin_mem hbegin)
  · next o hhere =>
    obtain ⟨hended, h⟩ := Option.ite_none_right_eq_some.mp h
    cases h
    exact .clientDeleted hhere hended
  · cases h

theorem step_stepsTo (h : step s a = some s') : StepsTo s a s' := by
  cases a with
  | accept i accepted =>
    cases accepted with
    | none =>
      obtain ⟨hhere, h⟩ := Option.ite_none_right_eq_some.mp h
      cases h
      exact .refused hhere
    | some p =>
      obtain ⟨⟨hhere, hserver, -, hfresh⟩, h⟩ := Option.ite_none_right_eq_some.mp h
      cases h
      exact .accept hhere hserver hfresh
  | listen i =>
    obtain ⟨l, hhere, h⟩ := Option.bind_eq_some_iff.mp h
    exact listen_stepsTo hhere h
  | takeIndex i =>
    obtain ⟨l, hhere, h⟩ := Option.bind_eq_some_iff.mp h
    rcases l with _ | _ | _ | ⟨_ | index, thread, accepted⟩ | _ | _ | _ <;> cases h
    exact .takeIndex hhere
  | makeThread i =>
    obtain ⟨l, hhere, h⟩ := Option.bind_eq_some_iff.mp h
    rcases l with _ | _ | _ | ⟨index, _ | thread, accepted⟩ | _ | _ | _ <;> cases h
    exact .makeThread hhere
  | workerExit o worker =>
    obtain ⟨⟨hlt, hrunning⟩, h⟩ := Option.ite_none_right_eq_some.mp h
    cases h
    refine .workerExit hlt hrunning ?_
    cases worker
    · exact Nat.le_succ _
    · exact Nat.min_le_left _ _
  | take notice =>
    obtain ⟨⟨htaking, hsome⟩, h⟩ := Option.ite_none_right_eq_some.mp h
    cases h
    exact .take htaking hsome
  | timeOut =>
    obtain ⟨⟨htaking, hnone⟩, h⟩ := Option.ite_none_right_eq_some.mp h
    cases h
    exact .timeOut htaking hnone
  | recover => exact recover_stepsTo h
  | destroy => exact destroy_stepsTo h

end RTPVoice.MyProtocol.Teardown
