import RTPVoice.Framework.Sweep
import RTPVoice.Framework.Transition

namespace RTPVoice.MyRTP

open Framework Framework.Transition Framework.Sweep

/-- A participant of the session, with the packets that were received and not yet extracted. -/
structure RTPSourceData where
  ssrc : UInt32
  validated : Bool
  packetlist : List (List UInt8)
  deriving DecidableEq

namespace RTPSourceData

def hasData (srcdat : RTPSourceData) : Bool := srcdat.validated && !srcdat.packetlist.isEmpty

/-- The packets of a source that is not validated stay where they are. -/
def getNextPacket (srcdat : RTPSourceData) : Option (List UInt8 × RTPSourceData) :=
  if srcdat.validated then
    match srcdat.packetlist with
    | [] => none
    | pack :: packetlist => some (pack, { srcdat with packetlist })
  else none

/-- The packets with their SSRC. -/
def packets (srcdat : RTPSourceData) : List (UInt32 × List UInt8) :=
  srcdat.packetlist.map (srcdat.ssrc, ·)

/-- Those that can be extracted. -/
def pending (srcdat : RTPSourceData) : List (UInt32 × List UInt8) :=
  if srcdat.validated then srcdat.packets else []

/-- The source when they are. -/
def drained (srcdat : RTPSourceData) : RTPSourceData :=
  if srcdat.validated then { srcdat with packetlist := [] } else srcdat

variable {srcdat rest : RTPSourceData} {pack : List UInt8}

theorem pending_of_not_hasData (srcdat : RTPSourceData) (h : srcdat.hasData = false) :
    srcdat.pending = [] := by
  unfold pending packets
  split
  · next hvalidated => simpa [hasData, hvalidated] using h
  · rfl

theorem getNextPacket_eq_some (h : srcdat.getNextPacket = some (pack, rest)) :
    srcdat.packets = (srcdat.ssrc, pack) :: rest.packets ∧
      srcdat.pending = (srcdat.ssrc, pack) :: rest.pending ∧ rest.drained = srcdat.drained ∧
      rest.ssrc = srcdat.ssrc := by
  unfold getNextPacket at h
  split at h
  · next hvalidated =>
    split at h
    · cases h
    · next hlist =>
      cases h
      simp [packets, pending, drained, hlist, hvalidated]
  · cases h

theorem getNextPacket_eq_none (h : srcdat.getNextPacket = none) : srcdat.pending = [] := by
  unfold getNextPacket at h
  unfold pending packets
  split at h
  · next hvalidated =>
    split at h
    · next hlist => simp [hlist]
    · cases h
  · next hvalidated => simp [hvalidated]

theorem drained_of_pending (h : srcdat.pending = []) : srcdat.drained = srcdat := by
  obtain ⟨ssrc, validated, packetlist⟩ := srcdat
  unfold drained
  split
  · next hvalidated =>
    obtain rfl : validated = true := hvalidated
    have hlist : packetlist = [] := by simpa [pending, packets] using h
    rw [hlist]
  · rfl

end RTPSourceData

open RTPSourceData

/-- The functions of `RTPSession` that make another source of the table the current one. Their
bodies are the library's. -/
structure RTPSession where
  gotoFirstSourceWithData : List RTPSourceData → Option Nat
  gotoNextSourceWithData : List RTPSourceData → Nat → Option Nat

/-- They are documented to go to the first and to the next source in the table that has packets not
extracted yet, and to say so when there is none. -/
structure RTPSession.Documented (lib : RTPSession) : Prop where
  first : ∀ sources, FirstFrom hasData sources 0 (lib.gotoFirstSourceWithData sources)
  next : ∀ sources i, FirstFrom hasData sources (i + 1) (lib.gotoNextSourceWithData sources i)

/-- Where the thread is in `OnPollThreadFunc`. -/
inductive Place where
  /-- in front of `BeginDataAccess` -/
  | outside
  /-- in front of `GotoFirstSourceWithData` -/
  | first
  /-- in front of `GetNextPacket`, at the current source -/
  | packets (i : Nat)
  /-- in front of `ProcessRTPPacket` and `DeletePacket` -/
  | processing (i : Nat) (pack : List UInt8)
  /-- behind `EndDataAccess` -/
  | polling
  /-- in `BYEDestroy`, or behind it -/
  | left
  deriving DecidableEq

/-- The thread is between `BeginDataAccess` and `EndDataAccess`. -/
def Place.Locked : Place → Prop
  | .first | .packets _ | .processing .. => True
  | _ => False

instance (p : Place) : Decidable p.Locked := by
  unfold Place.Locked
  split <;> infer_instance

/-- The polling thread with the source table of its session. It is recorded what the library queued,
what was processed and then deleted, what the callback was given, and what the library deleted. -/
structure PollThread where
  sources : List RTPSourceData
  place : Place
  recvVoiceCallBackFunc : Bool
  setThreadExitFlag : Bool
  arrived : List (UInt32 × List UInt8)
  processed : List (UInt32 × List UInt8)
  heard : List (UInt32 × List UInt8)
  lost : List (UInt32 × List UInt8)
  deriving DecidableEq

namespace PollThread

def fresh : PollThread := ⟨[], .outside, false, false, [], [], [], []⟩

/-- To the packets of a source, or to `EndDataAccess`. -/
def goto (s : PollThread) : Option Nat → PollThread
  | some i => { s with place := .packets i }
  | none => { s with place := .polling }

def processRTPPacket (s : PollThread) (srcdat : RTPSourceData) (pack : List UInt8) : PollThread :=
  { s with
    processed := s.processed ++ [(srcdat.ssrc, pack)]
    heard := if s.recvVoiceCallBackFunc then s.heard ++ [(srcdat.ssrc, pack)] else s.heard }

/-- The packets the library holds. -/
def held (s : PollThread) : List (UInt32 × List UInt8) := s.sources.flatMap packets

/-- The thread goes on. -/
def goOn (lib : RTPSession) (s : PollThread) : Option PollThread :=
  match s.place with
  | .outside => some { s with place := .first }
  | .first => some (s.goto (lib.gotoFirstSourceWithData s.sources))
  | .packets i => do
    let srcdat ← s.sources[i]?
    match srcdat.getNextPacket with
    | some (pack, rest) =>
      some { s with sources := s.sources.set i rest, place := .processing i pack }
    | none => some (s.goto (lib.gotoNextSourceWithData s.sources i))
  | .processing i pack => do
    let srcdat ← s.sources[i]?
    return { s.processRTPPacket srcdat pack with place := .packets i }
  | .polling =>
    some { s with place := if s.setThreadExitFlag then .left else .outside }
  | .left => none

end PollThread

inductive Action where
  | goOn
  | setCallBackFunc
  | setThreadExitFlag
  /-- the library adds a source to its table -/
  | join (ssrc : UInt32)
  | validate (i : Nat)
  /-- the library queues a packet of source `i`, in front of the `n` latest -/
  | arrive (i n : Nat) (pack : List UInt8)
  /-- the library deletes source `i`, with its packets -/
  | remove (i : Nat)
  deriving DecidableEq

/-- The library does not touch its table while the thread accesses it. What `BYEDestroy` does to it
is left to the library. -/
def tableStep (s : PollThread) : Action → Option PollThread
  | .join ssrc => some { s with sources := s.sources ++ [⟨ssrc, false, []⟩] }
  | .validate i => do
    let srcdat ← s.sources[i]?
    return { s with sources := s.sources.set i { srcdat with validated := true } }
  | .arrive i n pack => do
    let srcdat ← s.sources[i]?
    let packetlist := srcdat.packetlist.insertIdx (srcdat.packetlist.length - n) pack
    return { s with
      sources := s.sources.set i { srcdat with packetlist }
      arrived := s.arrived ++ [(srcdat.ssrc, pack)] }
  | .remove i => do
    let srcdat ← s.sources[i]?
    return { s with sources := s.sources.eraseIdx i, lost := s.lost ++ srcdat.packets }
  | _ => none

def step (lib : RTPSession) (s : PollThread) : Action → Option PollThread
  | .goOn => s.goOn lib
  | .setCallBackFunc => some { s with recvVoiceCallBackFunc := true }
  | .setThreadExitFlag => some { s with setThreadExitFlag := true }
  | a => if s.place.Locked then none else tableStep s a

/-- What each action needs and does. -/
inductive StepsTo (lib : RTPSession) (s : PollThread) : Action → PollThread → Prop where
  | beginDataAccess (here : s.place = .outside) : StepsTo lib s .goOn { s with place := .first }
  | first (here : s.place = .first) :
    StepsTo lib s .goOn (s.goto (lib.gotoFirstSourceWithData s.sources))
  | extract {i : Nat} {srcdat rest : RTPSourceData} {pack : List UInt8}
    (here : s.place = .packets i) (source : s.sources[i]? = some srcdat)
    (next : srcdat.getNextPacket = some (pack, rest)) :
    StepsTo lib s .goOn { s with sources := s.sources.set i rest, place := .processing i pack }
  | next {i : Nat} {srcdat : RTPSourceData} (here : s.place = .packets i)
    (source : s.sources[i]? = some srcdat) (none : srcdat.getNextPacket = none) :
    StepsTo lib s .goOn (s.goto (lib.gotoNextSourceWithData s.sources i))
  | process {i : Nat} {srcdat : RTPSourceData} {pack : List UInt8}
    (here : s.place = .processing i pack) (source : s.sources[i]? = some srcdat) :
    StepsTo lib s .goOn { s.processRTPPacket srcdat pack with place := .packets i }
  | exit (here : s.place = .polling) (flag : s.setThreadExitFlag = true) :
    StepsTo lib s .goOn { s with place := .left }
  | again (here : s.place = .polling) : StepsTo lib s .goOn { s with place := .outside }
  | setCallBackFunc : StepsTo lib s .setCallBackFunc { s with recvVoiceCallBackFunc := true }
  | setThreadExitFlag : StepsTo lib s .setThreadExitFlag { s with setThreadExitFlag := true }
  | join {ssrc : UInt32} (free : ¬ s.place.Locked) :
    StepsTo lib s (.join ssrc) { s with sources := s.sources ++ [⟨ssrc, false, []⟩] }
  | validate {i : Nat} {srcdat : RTPSourceData} (free : ¬ s.place.Locked)
    (source : s.sources[i]? = some srcdat) :
    StepsTo lib s (.validate i)
      { s with sources := s.sources.set i { srcdat with validated := true } }
  | arrive {i n : Nat} {pack : List UInt8} {srcdat : RTPSourceData}
    (free : ¬ s.place.Locked) (source : s.sources[i]? = some srcdat) :
    StepsTo lib s (.arrive i n pack) { s with
      sources := s.sources.set i { srcdat with
        packetlist := srcdat.packetlist.insertIdx (srcdat.packetlist.length - n) pack }
      arrived := s.arrived ++ [(srcdat.ssrc, pack)] }
  | remove {i : Nat} {srcdat : RTPSourceData} (free : ¬ s.place.Locked)
    (source : s.sources[i]? = some srcdat) :
    StepsTo lib s (.remove i) { s with
      sources := s.sources.eraseIdx i, lost := s.lost ++ srcdat.packets }

variable {lib : RTPSession} {s s' : PollThread} {a : Action}

theorem step_stepsTo (h : step lib s a = some s') : StepsTo lib s a s' := by
  cases a with
  | goOn =>
    simp only [step, PollThread.goOn] at h
    split at h
    · next here =>
      exact Option.some.inj h ▸ .beginDataAccess here
    · next here =>
      exact Option.some.inj h ▸ .first here
    · next i here =>
      obtain ⟨srcdat, hsource, h⟩ := Option.bind_eq_some_iff.mp h
      split at h
      · next pack rest hnext =>
        exact Option.some.inj h ▸ .extract here hsource hnext
      · next hnone =>
        exact Option.some.inj h ▸ .next here hsource hnone
    · next i pack here =>
      obtain ⟨srcdat, hsource, h⟩ := Option.bind_eq_some_iff.mp h
      exact Option.some.inj h ▸ .process here hsource
    · next here =>
      split at h
      · next hflag =>
        exact Option.some.inj h ▸ .exit here hflag
      · exact Option.some.inj h ▸ .again here
    · cases h
  | setCallBackFunc => exact Option.some.inj h ▸ .setCallBackFunc
  | setThreadExitFlag => exact Option.some.inj h ▸ .setThreadExitFlag
  | join ssrc =>
    obtain ⟨hfree, h⟩ := Option.ite_none_left_eq_some.mp h
    exact Option.some.inj h ▸ .join hfree
  | validate i =>
    obtain ⟨hfree, h⟩ := Option.ite_none_left_eq_some.mp h
    obtain ⟨srcdat, hsource, h⟩ := Option.bind_eq_some_iff.mp h
    exact Option.some.inj h ▸ .validate hfree hsource
  | arrive i n pack =>
    obtain ⟨hfree, h⟩ := Option.ite_none_left_eq_some.mp h
    obtain ⟨srcdat, hsource, h⟩ := Option.bind_eq_some_iff.mp h
    exact Option.some.inj h ▸ .arrive hfree hsource
  | remove i =>
    obtain ⟨hfree, h⟩ := Option.ite_none_left_eq_some.mp h
    obtain ⟨srcdat, hsource, h⟩ := Option.bind_eq_some_iff.mp h
    exact Option.some.inj h ▸ .remove hfree hsource

end RTPVoice.MyRTP
