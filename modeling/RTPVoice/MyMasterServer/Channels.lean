import RTPVoice.Common
import RTPVoice.Framework.Update
import RTPVoice.Json.Conversions

namespace RTPVoice.MyMasterServer

open Framework Json

/-- A voice channel, with the pointer to its `MyRTP`. -/
inductive Channel where
  | channel1
  | channel2
  deriving DecidableEq

/-- What `RtpParamsInit` is called with. -/
structure RtpParams where
  portbase : UInt16
  destport : UInt16
  ssrc : UInt32
  deriving DecidableEq

namespace Channel

def params : Channel → RtpParams
  | .channel1 => ⟨55500, 57400, 1973⟩
  | .channel2 => ⟨55600, 57500, 2012⟩

/-- What `channel_id` is compared with. -/
def name : Channel → String
  | .channel1 => "channel1"
  | .channel2 => "channel2"

def groupId (k : Channel) (data : ResponeData) : Int16 :=
  match k with
  | .channel1 => data.channel1GroupId
  | .channel2 => data.channel2GroupId

end Channel

/-- An object of `MyRTP`, with what its session was given. -/
structure MyRTP where
  inits : List RtpParams
  callBack : Bool
  sent : List (List UInt8)
  deriving DecidableEq

def MyRTP.fresh : MyRTP := ⟨[], false, []⟩

/-- The 24 bytes of `sendVoiceBuff` that are sent. -/
def sendVoice : List UInt8 := (asciiBytes "abcdefghiojklmnopqrstuvwxyz").take 24

/-- Where a thread in `MasterOnDataFunc` is, of the parts about voice. -/
inductive Handler where
  /-- in front of the tests whether to set the channel up -/
  | testing (k : Channel) (data : ResponeData)
  | making (k : Channel) (data : ResponeData)
  | initializing (k : Channel) (data : ResponeData)
  | settingCallBack (k : Channel) (data : ResponeData)
  /-- in front of `fopen`, for the first channel -/
  | opening (data : ResponeData)
  /-- in front of the tests whether to send voice on the channel -/
  | calling (k : Channel) (data : ResponeData)
  | sending (k : Channel) (data : ResponeData)
  | done
  deriving DecidableEq

/-- Where a thread is behind setting up the channel. -/
def Handler.afterSetUp (data : ResponeData) : Channel → Handler
  | .channel1 => .testing .channel2 data
  | .channel2 => .done

def Handler.afterCall (data : ResponeData) : Channel → Handler
  | .channel1 => .calling .channel2 data
  | .channel2 => .done

/-- Where a thread called with `command` begins. -/
def Handler.begin (command : ProtocolNames) (data : ResponeData) : Handler :=
  match command with
  | .listening => .testing .channel1 data
  | .callRequest => .calling .channel1 data
  | _ => .done

/-- The objects made for each channel, of which its pointer is to the last, the file behind `fp`,
and the threads that came into `MasterOnDataFunc`. -/
structure Master where
  rtp : Channel → List MyRTP
  fp : Option (List UInt8)
  handlers : List Handler

namespace Master

def fresh : Master := ⟨fun _ => [], none, []⟩

def goTo (s : Master) (i : Nat) (h : Handler) : Master := { s with handlers := s.handlers.set i h }

/-- A call on the object that the pointer of channel `k` is to; `none` when it is `NULL`. -/
def call (s : Master) (k : Channel) (f : MyRTP → MyRTP) : Option Master :=
  ((s.rtp k).getLast?).map fun r =>
    { s with rtp := Function.update s.rtp k ((s.rtp k).dropLast ++ [f r]) }

/-- Thread `i` goes on, which is at `h`. -/
def goOn (s : Master) (i : Nat) : Handler → Option Master
  | .testing k data =>
    some (s.goTo i (if k.groupId data ≠ 0 ∧ s.rtp k = [] then .making k data
      else .afterSetUp data k))
  | .making k data =>
    some { s.goTo i (.initializing k data) with
      rtp := Function.update s.rtp k (s.rtp k ++ [.fresh]) }
  | .initializing k data =>
    (s.goTo i (.settingCallBack k data)).call k fun r => { r with inits := r.inits ++ [k.params] }
  | .settingCallBack k data =>
    (s.goTo i (if k = .channel1 then .opening data else .done)).call k fun r =>
      { r with callBack := true }
  | .opening data => some { s.goTo i (.afterSetUp data .channel1) with fp := some [] }
  | .calling k data =>
    some (s.goTo i (if data.channelId = k.name ∧ s.rtp k ≠ [] then .sending k data
      else .afterCall data k))
  | .sending k data =>
    (s.goTo i (.afterCall data k)).call k fun r => { r with sent := r.sent ++ [sendVoice] }
  | .done => none

/-- The polling thread of an object gets a packet. The first channel's are written to the file,
which is undefined while there is none. -/
def receive (s : Master) (k : Channel) (r : MyRTP) (payload : List UInt8) : Option Master :=
  if r.inits = [] then none
  else if r.callBack then
    match k with
    | .channel1 => s.fp.map fun file => { s with fp := some (file ++ payload) }
    | .channel2 => some s
  else some s

end Master

inductive MasterAction where
  /-- a client's thread calls `MasterOnData` -/
  | onData (command : ProtocolNames) (data : ResponeData)
  | goOn (i : Nat)
  | receive (k : Channel) (j : Nat) (payload : List UInt8)
  deriving DecidableEq

/-- `fopen` succeeds; where it does not, `fseek` is undefined. -/
def masterStep (s : Master) : MasterAction → Option Master
  | .onData command data => some { s with handlers := s.handlers ++ [.begin command data] }
  | .goOn i => (s.handlers[i]?).bind (s.goOn i)
  | .receive k j payload => ((s.rtp k)[j]?).bind fun r => s.receive k r payload

/-- What each action needs and does. -/
inductive MasterStepsTo (s : Master) : MasterAction → Master → Prop where
  | onData (command : ProtocolNames) (data : ResponeData) :
    MasterStepsTo s (.onData command data)
      { s with handlers := s.handlers ++ [.begin command data] }
  | find {i : Nat} {k : Channel} {data : ResponeData}
    (here : s.handlers[i]? = some (.testing k data)) (wanted : k.groupId data ≠ 0)
    (null : s.rtp k = []) : MasterStepsTo s (.goOn i) (s.goTo i (.making k data))
  | pass {i : Nat} {k : Channel} {data : ResponeData}
    (here : s.handlers[i]? = some (.testing k data)) (set : k.groupId data = 0 ∨ s.rtp k ≠ []) :
    MasterStepsTo s (.goOn i) (s.goTo i (.afterSetUp data k))
  | make {i : Nat} {k : Channel} {data : ResponeData}
    (here : s.handlers[i]? = some (.making k data)) :
    MasterStepsTo s (.goOn i) { s.goTo i (.initializing k data) with
      rtp := Function.update s.rtp k (s.rtp k ++ [.fresh]) }
  | rtpParamsInit {i : Nat} {k : Channel} {data : ResponeData} {rest : List MyRTP} {r : MyRTP}
    (here : s.handlers[i]? = some (.initializing k data)) (pointer : s.rtp k = rest ++ [r]) :
    MasterStepsTo s (.goOn i) { s.goTo i (.settingCallBack k data) with
      rtp := Function.update s.rtp k (rest ++ [{ r with inits := r.inits ++ [k.params] }]) }
  | setCallBack {i : Nat} {k : Channel} {data : ResponeData} {rest : List MyRTP} {r : MyRTP}
    (here : s.handlers[i]? = some (.settingCallBack k data)) (pointer : s.rtp k = rest ++ [r]) :
    MasterStepsTo s (.goOn i)
      { s.goTo i (if k = .channel1 then .opening data else .done) with
        rtp := Function.update s.rtp k (rest ++ [{ r with callBack := true }]) }
  | openFile {i : Nat} {data : ResponeData} (here : s.handlers[i]? = some (.opening data)) :
    MasterStepsTo s (.goOn i) { s.goTo i (.afterSetUp data .channel1) with fp := some [] }
  | ready {i : Nat} {k : Channel} {data : ResponeData}
    (here : s.handlers[i]? = some (.calling k data)) (named : data.channelId = k.name)
    (pointer : s.rtp k ≠ []) : MasterStepsTo s (.goOn i) (s.goTo i (.sending k data))
  | unready {i : Nat} {k : Channel} {data : ResponeData}
    (here : s.handlers[i]? = some (.calling k data))
    (other : data.channelId ≠ k.name ∨ s.rtp k = []) :
    MasterStepsTo s (.goOn i) (s.goTo i (.afterCall data k))
  | send {i : Nat} {k : Channel} {data : ResponeData} {rest : List MyRTP} {r : MyRTP}
    (here : s.handlers[i]? = some (.sending k data)) (pointer : s.rtp k = rest ++ [r]) :
    MasterStepsTo s (.goOn i) { s.goTo i (.afterCall data k) with
      rtp := Function.update s.rtp k (rest ++ [{ r with sent := r.sent ++ [sendVoice] }]) }
  | write {j : Nat} {r : MyRTP} {payload file : List UInt8}
    (session : (s.rtp .channel1)[j]? = some r) (callBack : r.callBack = true)
    (fp : s.fp = some file) :
    MasterStepsTo s (.receive .channel1 j payload) { s with fp := some (file ++ payload) }
  | drop {k : Channel} {j : Nat} {r : MyRTP} {payload : List UInt8}
    (session : (s.rtp k)[j]? = some r) (other : k = .channel1 → r.callBack = false) :
    MasterStepsTo s (.receive k j payload) s

variable {s s' : Master} {a : MasterAction} {i : Nat} {k : Channel} {h : Handler}

theorem call_eq {f : MyRTP → MyRTP} (hs : s.call k f = some s') : ∃ rest r,
    s.rtp k = rest ++ [r] ∧ s' = { s with rtp := Function.update s.rtp k (rest ++ [f r]) } := by
  obtain ⟨r, hlast, rfl⟩ := Option.map_eq_some_iff.mp hs
  obtain ⟨rest, hrtp⟩ := List.getLast?_eq_some_iff.mp hlast
  exact ⟨rest, r, hrtp, by rw [hrtp, List.dropLast_concat]⟩

theorem goOn_stepsTo (hhere : s.handlers[i]? = some h) (hs : s.goOn i h = some s') :
    MasterStepsTo s (.goOn i) s' := by
  cases h with
  | testing k data =>
    cases hs
    split
    · next hfind => exact .find hhere hfind.1 hfind.2
    · next hpass => exact .pass hhere ((not_and_or.mp hpass).imp_left not_not.mp)
  | making k data =>
    cases hs
    exact .make hhere
  | initializing k data =>
    obtain ⟨rest, r, hrtp, rfl⟩ := call_eq hs
    exact .rtpParamsInit hhere hrtp
  | settingCallBack k data =>
    obtain ⟨rest, r, hrtp, rfl⟩ := call_eq hs
    exact .setCallBack hhere hrtp
  | opening data =>
    cases hs
    exact .openFile hhere
  | calling k data =>
    cases hs
    split
    · next hready => exact .ready hhere hready.1 hready.2
    · next hother => exact .unready hhere ((not_and_or.mp hother).imp_right not_not.mp)
  | sending k data =>
    obtain ⟨rest, r, hrtp, rfl⟩ := call_eq hs
    exact .send hhere hrtp
  | done => cases hs

theorem masterStep_stepsTo (hs : masterStep s a = some s') : MasterStepsTo s a s' := by
  cases a with
  | onData command data =>
    cases hs
    exact .onData command data
  | goOn i =>
    obtain ⟨h, hhere, hs⟩ := Option.bind_eq_some_iff.mp hs
    exact goOn_stepsTo hhere hs
  | receive k j payload =>
    obtain ⟨r, hsession, hs⟩ := Option.bind_eq_some_iff.mp hs
    unfold Master.receive at hs
    split at hs
    · cases hs
    · split at hs
      · next hcallBack =>
        cases k with
        | channel1 =>
          obtain ⟨file, hfp, rfl⟩ := Option.map_eq_some_iff.mp hs
          exact .write hsession hcallBack hfp
        | channel2 =>
          cases hs
          exact .drop hsession (by simp)
      · next hcallBack =>
        cases hs
        exact .drop hsession fun _ => eq_false_of_ne_true hcallBack

end RTPVoice.MyMasterServer
