import RTPVoice.MyMasterServer.SetUp

namespace RTPVoice.MyMasterServer

open Framework Framework.Transition

/-! ### The voice of one client after another -/

/-- For each channel how often voice was sent on it, once it is set up. -/
abbrev Voice : Type := Channel → Option Nat

def Voice.next (v : Voice) (command : ProtocolNames) (data : ResponeData) : Voice := fun k =>
  match command with
  | .listening => if k.groupId data ≠ 0 then some ((v k).getD 0) else v k
  | .callRequest => if data.channelId = k.name then (v k).map (· + 1) else v k
  | _ => v k

/-- The voice behind commands that are handled one after another. -/
def voice (commands : List (ProtocolNames × ResponeData)) : Voice :=
  commands.foldl (fun v c => v.next c.1 c.2) fun _ => none

/-- The objects that make up a channel's voice. -/
def Voice.rtp (v : Voice) (k : Channel) : List MyRTP :=
  match v k with
  | none => []
  | some n => [⟨[k.params], true, List.replicate n sendVoice⟩]

/-- The command a step brings, if it does. -/
def MasterAction.command : MasterAction → Option (ProtocolNames × ResponeData)
  | .onData command data => some (command, data)
  | _ => none

/-- A command comes while no thread is in `MasterOnData`. -/
def Serial (s : Master) (a : MasterAction) (_ : Master) : Prop :=
  a.command ≠ none → ∀ h ∈ s.handlers, h = .done

/-- What a thread does to a channel's objects until it is done: `here` while it is at channel `k`,
and `later` when it comes to the other one. -/
def onward (k j : Channel) (here later : List MyRTP → List MyRTP) (rtps : List MyRTP) :
    List MyRTP :=
  if j = k then here rtps else if k = .channel1 then later rtps else rtps

def onLast (f : MyRTP → MyRTP) (rtps : List MyRTP) : List MyRTP :=
  match rtps.getLast? with
  | none => []
  | some r => rtps.dropLast ++ [f r]

def MyRTP.complete (k : Channel) (r : MyRTP) : MyRTP :=
  { r with inits := r.inits ++ [k.params], callBack := true }

def MyRTP.listen (r : MyRTP) : MyRTP := { r with callBack := true }

def MyRTP.speak (r : MyRTP) : MyRTP := { r with sent := r.sent ++ [sendVoice] }

def setUp (data : ResponeData) (j : Channel) (rtps : List MyRTP) : List MyRTP :=
  if j.groupId data ≠ 0 ∧ rtps = [] then [MyRTP.fresh.complete j] else rtps

def callOn (data : ResponeData) (j : Channel) (rtps : List MyRTP) : List MyRTP :=
  if data.channelId = j.name then onLast MyRTP.speak rtps else rtps

/-- What becomes of channel `j` when the thread goes on alone until it is done. -/
def Handler.finish (j : Channel) : Handler → List MyRTP → List MyRTP
  | .testing k data => onward k j (setUp data j) (setUp data j)
  | .making k data => onward k j (· ++ [MyRTP.fresh.complete j]) (setUp data j)
  | .initializing k data => onward k j (onLast (MyRTP.complete j)) (setUp data j)
  | .settingCallBack k data => onward k j (onLast MyRTP.listen) (setUp data j)
  | .opening data => onward .channel1 j id (setUp data j)
  | .calling k data => onward k j (callOn data j) (callOn data j)
  | .sending k data => onward k j (onLast MyRTP.speak) (callOn data j)
  | .done => id

variable {s s' : Master} {a : MasterAction} {i : Nat} {j k : Channel} {h g : Handler}
  {data : ResponeData} {rtps rest : List MyRTP} {r : MyRTP} {v : Voice}

theorem onLast_snoc (f : MyRTP → MyRTP) : onLast f (rest ++ [r]) = rest ++ [f r] := by
  simp [onLast]

theorem finish_afterSetUp (data : ResponeData) (j k : Channel) :
    (Handler.afterSetUp data k).finish j rtps = onward k j id (setUp data j) rtps := by
  cases j <;> cases k <;> rfl

theorem finish_afterCall (data : ResponeData) (j k : Channel) :
    (Handler.afterCall data k).finish j rtps = onward k j id (callOn data j) rtps := by
  cases j <;> cases k <;> rfl

/-- Where a step changes only channel `k`, it is enough to look there. -/
theorem onward_update {here here' later : List MyRTP → List MyRTP} {rtp : Channel → List MyRTP}
    (hk : j = k → here' rtps = here (rtp k)) :
    onward k j here' later (Function.update rtp k rtps j) = onward k j here later (rtp j) := by
  unfold onward
  by_cases he : j = k
  · subst he
    simpa using hk rfl
  · simp [he]

theorem onward_same {here here' later : List MyRTP → List MyRTP}
    (hk : j = k → here' rtps = here rtps) :
    onward k j here' later rtps = onward k j here later rtps := by
  unfold onward
  by_cases he : j = k
  · rw [if_pos he, if_pos he, hk he]
  · rw [if_neg he, if_neg he]

/-- A thread goes on to where the rest of its way has the same effect. -/
theorem finish_goOn (hs : masterStep s (.goOn i) = some s') : ∃ h g, s.handlers[i]? = some h ∧
    h ≠ .done ∧ s'.handlers = s.handlers.set i g ∧
    ∀ j, g.finish j (s'.rtp j) = h.finish j (s.rtp j) := by
  cases masterStep_stepsTo hs with
  | @find _ k data hhere hwanted hnull =>
    refine ⟨_, .making k data, hhere, by simp, rfl, fun j => ?_⟩
    rw [Handler.finish, Handler.finish]
    refine onward_same fun he => ?_
    subst he
    simp [Master.goTo, setUp, hwanted, hnull]
  | @pass _ k data hhere hset =>
    refine ⟨_, .afterSetUp data k, hhere, by simp, rfl, fun j => ?_⟩
    rw [finish_afterSetUp]
    refine onward_same fun he => ?_
    subst he
    have hnot : ¬ (j.groupId data ≠ 0 ∧ s.rtp j = []) := by
      rcases hset with hzero | hset
      · simp [hzero]
      · simp [hset]
    exact (if_neg hnot).symm
  | @make _ k data hhere =>
    refine ⟨_, .initializing k data, hhere, by simp, rfl, fun j => ?_⟩
    rw [Handler.finish, Handler.finish]
    refine onward_update fun he => ?_
    subst he
    exact onLast_snoc _
  | @rtpParamsInit _ k data rest r hhere hpointer =>
    refine ⟨_, .settingCallBack k data, hhere, by simp, rfl, fun j => onward_update fun he => ?_⟩
    subst he
    rw [hpointer, onLast_snoc, onLast_snoc]
    rfl
  | @setCallBack _ k data rest r hhere hpointer =>
    refine ⟨_, if k = .channel1 then .opening data else .done, hhere, by simp, rfl, fun j => ?_⟩
    have hlast : (if k = .channel1 then Handler.opening data else .done).finish j =
        onward k j id (setUp data j) := by
      cases j <;> cases k <;> rfl
    rw [hlast]
    refine onward_update fun he => ?_
    subst he
    rw [hpointer, onLast_snoc]
    rfl
  | @openFile _ data hhere =>
    refine ⟨_, .afterSetUp data .channel1, hhere, by simp, rfl, fun j => ?_⟩
    rw [finish_afterSetUp]
    rfl
  | @ready _ k data hhere hnamed hpointer =>
    refine ⟨_, .sending k data, hhere, by simp, rfl, fun j => onward_same fun he => ?_⟩
    subst he
    exact (if_pos hnamed).symm
  | @unready _ k data hhere hother =>
    refine ⟨_, .afterCall data k, hhere, by simp, rfl, fun j => ?_⟩
    rw [finish_afterCall]
    refine onward_same fun he => ?_
    subst he
    rcases hother with hname | hnull
    · exact (if_neg hname).symm
    · unfold callOn
      split <;> simp [Master.goTo, hnull, onLast]
  | @send _ k data rest r hhere hpointer =>
    refine ⟨_, .afterCall data k, hhere, by simp, rfl, fun j => ?_⟩
    rw [finish_afterCall]
    refine onward_update fun he => ?_
    subst he
    rw [hpointer, onLast_snoc]
    rfl

/-- A thread that comes in has the effect of its command in front of it. -/
theorem finish_begin (v : Voice) (command : ProtocolNames) (data : ResponeData) (j : Channel) :
    (Handler.begin command data).finish j (v.rtp j) = (v.next command data).rtp j := by
  have hboth (f : List MyRTP → List MyRTP) : onward .channel1 j f f (v.rtp j) = f (v.rtp j) := by
    unfold onward
    split <;> rfl
  cases command with
  | listening =>
    rw [Handler.begin, Handler.finish, hboth, setUp]
    by_cases hwanted : j.groupId data = 0
    · simp [Voice.rtp, Voice.next, hwanted]
    · cases hv : v j <;> simp [Voice.rtp, Voice.next, hwanted, hv, MyRTP.fresh, MyRTP.complete]
  | callRequest =>
    rw [Handler.begin, Handler.finish, hboth, callOn]
    by_cases hnamed : data.channelId = j.name
    · cases hv : v j <;>
        simp [Voice.rtp, Voice.next, hnamed, hv, onLast, MyRTP.speak, List.replicate_succ']
    · simp [Voice.rtp, Voice.next, hnamed]
  | _ => rfl

/-- All threads but the last are done, and when that is done too the channels are those of `v`. -/
structure Serves (v : Voice) (s : Master) : Prop where
  others : ∀ h ∈ s.handlers.dropLast, h = .done
  finish : ∀ j, (s.handlers.getLast?.getD .done).finish j (s.rtp j) = v.rtp j

/-- The thread that goes on is the last one. -/
theorem Serves.last (hserves : Serves v s) (hhere : s.handlers[i]? = some h) (hbusy : h ≠ .done) :
    ∃ rest, s.handlers = rest ++ [h] ∧ ∀ g, s.handlers.set i g = rest ++ [g] := by
  obtain ⟨hlt, hget⟩ := List.getElem?_eq_some_iff.mp hhere
  obtain ⟨rest, last, hlast⟩ := List.eq_nil_or_concat s.handlers |>.resolve_left fun hnil => by
    simp [hnil] at hlt
  have hothers := hserves.others
  rw [List.concat_eq_append] at hlast
  rw [hlast, List.dropLast_concat] at hothers
  rw [hlast] at hhere hlt ⊢
  rw [List.length_append, List.length_singleton] at hlt
  by_cases hi : i < rest.length
  · rw [List.getElem?_append_left hi] at hhere
    exact absurd (hothers h (List.mem_of_getElem? hhere)) hbusy
  · obtain rfl : i = rest.length := by omega
    obtain rfl : last = h := by simpa using hhere
    exact ⟨rest, rfl, fun g => by simp⟩

theorem Serves.rtp_eq (hserves : Serves v s) (hdone : ∀ h ∈ s.handlers, h = .done) (j : Channel) :
    s.rtp j = v.rtp j := by
  have hlast : s.handlers.getLast?.getD .done = .done := by
    cases hget : s.handlers.getLast? with
    | none => rfl
    | some h => exact hdone h (List.mem_of_getLast? hget)
  have hfinish := hserves.finish j
  rwa [hlast] at hfinish

theorem serves_step (hserves : Serves v s) (hs : masterStep s a = some s')
    (hserial : Serial s a s') :
    Serves (a.command.elim v fun c => v.next c.1 c.2) s' := by
  cases a with
  | onData command data =>
    cases hs
    have hdone := hserial (by simp [MasterAction.command])
    refine ⟨fun h hh => hdone h (by simpa using hh), fun j => ?_⟩
    have hbegin := finish_begin v command data j
    rw [← hserves.rtp_eq hdone j] at hbegin
    simpa [MasterAction.command] using hbegin
  | goOn i =>
    obtain ⟨h, g, hhere, hbusy, hhandlers, hfinish⟩ := finish_goOn hs
    obtain ⟨rest, hlast, hset⟩ := hserves.last hhere hbusy
    rw [hset g] at hhandlers
    have hothers := hserves.others
    have hrtp := hserves.finish
    rw [hlast] at hothers
    simp only [hlast, List.getLast?_concat, Option.getD_some] at hrtp
    refine ⟨?_, fun j => ?_⟩
    · rw [hhandlers, List.dropLast_concat]
      rwa [List.dropLast_concat] at hothers
    · rw [hhandlers, List.getLast?_concat, Option.getD_some, hfinish j]
      exact hrtp j
  | receive k j payload =>
    cases masterStep_stepsTo hs with
    | write => exact ⟨hserves.others, hserves.finish⟩
    | drop => exact hserves

/-- With one command after another, each channel's pointer stays `NULL` until a request names a
group for it; then it has its one session, on which voice was sent for every later call on the
channel. -/
theorem voice_in_turn (actions : List MasterAction) (s : Master) (k : Channel)
    (hrun : run masterStep .fresh actions = some s)
    (hserial : Throughout masterStep Serial .fresh actions) (hdone : ∀ h ∈ s.handlers, h = .done) :
    s.rtp k = (voice (actions.filterMap MasterAction.command)).rtp k := by
  have hserves : Serves (voice (actions.filterMap MasterAction.command)) s := by
    clear hdone
    induction actions using List.reverseRecOn generalizing s with
    | nil =>
      cases hrun
      exact ⟨by simp [Master.fresh], fun j => rfl⟩
    | append_singleton actions a ih =>
      rw [run_snoc] at hrun
      obtain ⟨s₁, h₁, hs⟩ := Option.bind_eq_some_iff.mp hrun
      obtain ⟨hbefore, hlast⟩ := (throughout_snoc h₁).mp hserial
      have hnext := serves_step (ih s₁ h₁ hbefore) hs (hlast s hs)
      cases hcommand : a.command with
      | none => simpa [hcommand] using hnext
      | some c => simpa [voice, hcommand, List.foldl_append] using hnext
  exact hserves.rtp_eq hdone k

theorem serial_of_silent {actions : List MasterAction} (h : ∀ a ∈ actions, a.command = none) :
    Throughout masterStep Serial s actions := by
  intro pre a post he s₁ s₂ _ _ hcommand
  exact absurd (h a (by simp [he])) hcommand

theorem serial_listening : Throughout masterStep Serial .fresh listening := by
  have hs : masterStep .fresh (.onData .listening groupData) =
      some { Master.fresh with handlers := [.testing .channel1 groupData] } := rfl
  refine (throughout_cons hs).mpr ⟨fun _ => by simp [Master.fresh], serial_of_silent ?_⟩
  simp [MasterAction.command]

/-- A call on the first channel. -/
def callData : ResponeData := ⟨300, "3", "", "channel1", 0, 0, 9, 65536, "", ""⟩

/-- A client names a group for the first channel and calls on it. -/
theorem voice_in_turn_call : ∃ actions s, run masterStep .fresh actions = some s ∧
    s.rtp .channel1 = [⟨[⟨55500, 57400, 1973⟩], true, [sendVoice]⟩] ∧ s.rtp .channel2 = [] := by
  let more : List MasterAction := .onData .callRequest callData :: List.replicate 3 (.goOn 1)
  obtain ⟨s, hrun, hdone⟩ : ∃ s, run masterStep .fresh (listening ++ more) = some s ∧
      s.handlers = [.done, .done] := ⟨_, rfl, rfl⟩
  have hserial : Throughout masterStep Serial .fresh (listening ++ more) := by
    obtain ⟨s₁, h₁, hdone₁⟩ := listening_run
    have hs : masterStep s₁ (.onData .callRequest callData) =
        some { s₁ with handlers := s₁.handlers ++ [.calling .channel1 callData] } := rfl
    refine (throughout_append h₁).mpr ⟨serial_listening, (throughout_cons hs).mpr
      ⟨fun _ => by simp [hdone₁], serial_of_silent ?_⟩⟩
    simp [MasterAction.command]
  have hrtp := fun k => voice_in_turn (listening ++ more) s k hrun hserial (by simp [hdone])
  exact ⟨listening ++ more, s, hrun, (hrtp .channel1).trans rfl, (hrtp .channel2).trans rfl⟩

end RTPVoice.MyMasterServer
