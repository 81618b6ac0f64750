import RTPVoice.MyMasterServer.Recording
import RTPVoice.MyRTP.HandedOn

namespace RTPVoice.MyMasterServer

open Framework Framework.Transition

/-- The server with the polling threads of the objects made for the first channel. -/
structure Studio where
  master : Master
  polls : Nat → MyRTP.PollThread

inductive StudioAction where
  /-- a thread in `MasterOnDataFunc`, or a packet of the second channel -/
  | master (a : MasterAction)
  /-- the polling thread of an object, or the library -/
  | poll (j : Nat) (a : MyRTP.Action)

/-- The packet that is handed to `ProcessRTPPacket`. -/
def handed (t : MyRTP.PollThread) : MyRTP.Action → Option (List UInt8)
  | .goOn =>
    match t.place with
    | .processing _ pack => some pack
    | _ => none
  | _ => none

namespace Studio

def fresh : Studio := ⟨.fresh, fun _ => .fresh⟩

/-- `RecvVoiceCallBackFunc` is the one that the polling thread reads. -/
def server (s : Studio) (a : MasterAction) : Option Studio :=
  (masterStep s.master a).map fun master => ⟨master, fun j => { s.polls j with
    recvVoiceCallBackFunc := ((master.rtp .channel1)[j]?).any MyRTP.callBack }⟩

/-- `ProcessRTPPacket` hands a packet on to the callback. -/
def hear (s : Studio) (j : Nat) : Option (List UInt8) → Option Master
  | some pack => masterStep s.master (.receive .channel1 j pack)
  | none => some s.master

def poll (lib : MyRTP.RTPSession) (s : Studio) (j : Nat) (a : MyRTP.Action) : Option Studio := do
  let t ← MyRTP.step lib (s.polls j) a
  let master ← s.hear j (handed (s.polls j) a)
  return ⟨master, Function.update s.polls j t⟩

/-- The object has its session, and with it its thread. -/
def Sounding (s : Studio) (j : Nat) : Prop :=
  ((s.master.rtp .channel1)[j]?).any fun r => r.inits ≠ []

instance (s : Studio) (j : Nat) : Decidable (s.Sounding j) := by
  unfold Sounding
  infer_instance

end Studio

def studioStep (lib : MyRTP.RTPSession) (s : Studio) : StudioAction → Option Studio
  | .master (.receive .channel1 _ _) => none
  | .master a => s.server a
  | .poll _ .setCallBackFunc => none
  | .poll j a => if s.Sounding j then s.poll lib j a else none

/-- What each action needs and does. -/
inductive StudioStepsTo (lib : MyRTP.RTPSession) (s : Studio) : StudioAction → Studio → Prop where
  | master {a : MasterAction} {master : Master} (other : ∀ t, heard t a = [])
    (stepped : masterStep s.master a = some master) :
    StudioStepsTo lib s (.master a) ⟨master, fun j => { s.polls j with
      recvVoiceCallBackFunc := ((master.rtp .channel1)[j]?).any MyRTP.callBack }⟩
  | quiet {j : Nat} {a : MyRTP.Action} {t : MyRTP.PollThread} (own : a ≠ .setCallBackFunc)
    (stepped : MyRTP.step lib (s.polls j) a = some t) (nothing : handed (s.polls j) a = none) :
    StudioStepsTo lib s (.poll j a) { s with polls := Function.update s.polls j t }
  | process {j : Nat} {t : MyRTP.PollThread} {pack : List UInt8} {master : Master}
    (stepped : MyRTP.step lib (s.polls j) .goOn = some t)
    (here : handed (s.polls j) .goOn = some pack)
    (received : masterStep s.master (.receive .channel1 j pack) = some master) :
    StudioStepsTo lib s (.poll j .goOn) ⟨master, Function.update s.polls j t⟩

variable {lib : MyRTP.RTPSession} {s s' : Studio} {a : StudioAction} {j : Nat}

theorem poll_stepsTo {b : MyRTP.Action} (hb : b ≠ .setCallBackFunc)
    (h : s.poll lib j b = some s') : StudioStepsTo lib s (.poll j b) s' := by
  obtain ⟨t, hstep, h⟩ := Option.bind_eq_some_iff.mp h
  obtain ⟨master, hmaster, h⟩ := Option.bind_eq_some_iff.mp h
  cases h
  cases hhanded : handed (s.polls j) b with
  | none =>
    rw [hhanded] at hmaster
    cases hmaster
    exact .quiet hb hstep hhanded
  | some pack =>
    rw [hhanded] at hmaster
    cases b with
    | goOn => exact .process hstep hhanded hmaster
    | setCallBackFunc | setThreadExitFlag | join | validate | arrive | remove => cases hhanded

theorem studioStep_stepsTo (h : studioStep lib s a = some s') : StudioStepsTo lib s a s' := by
  cases a with
  | master a =>
    have hserver (hother : ∀ t, heard t a = []) (h : s.server a = some s') :
        StudioStepsTo lib s (.master a) s' := by
      obtain ⟨master, hstep, rfl⟩ := Option.map_eq_some_iff.mp h
      exact .master hother hstep
    cases a with
    | onData | goOn => exact hserver (fun _ => rfl) h
    | receive k j payload =>
      cases k with
      | channel1 => cases h
      | channel2 => exact hserver (fun _ => rfl) h
  | poll j b =>
    cases b with
    | setCallBackFunc => cases h
    | goOn | setThreadExitFlag | join | validate | arrive | remove =>
      exact poll_stepsTo (by simp) (Option.ite_none_right_eq_some.mp h).2

/-- A callback once set is not taken back. -/
theorem callBack_step {m m' : Master} {b : MasterAction} {k : Channel} {j : Nat}
    (hs : masterStep m b = some m') (h : ((m.rtp k)[j]?).any MyRTP.callBack = true) :
    ((m'.rtp k)[j]?).any MyRTP.callBack = true := by
  have hlast {k' : Channel} {rest : List MyRTP} {r r' : MyRTP} (hrtp : m.rtp k' = rest ++ [r])
      (hr : r.callBack = true → r'.callBack = true) :
      ((Function.update m.rtp k' (rest ++ [r']) k)[j]?).any MyRTP.callBack = true := by
    by_cases hk : k = k'
    · subst hk
      rw [hrtp] at h
      rw [Function.update_self]
      by_cases hj : j < rest.length
      · simpa [List.getElem?_append, hj] using h
      · by_cases he : j - rest.length = 0
        · simpa [List.getElem?_append, hj, List.getElem?_singleton, he] using hr
            (by simpa [List.getElem?_append, hj, List.getElem?_singleton, he] using h)
        · simp [List.getElem?_append, hj, he] at h
    · rw [Function.update_of_ne hk]
      exact h
  cases masterStep_stepsTo hs with
  | onData | find | pass | openFile | ready | unready | write | drop => exact h
  | @make i k' data here =>
    by_cases hk : k = k'
    · subst hk
      obtain ⟨r, hr, hcallBack⟩ := (Option.any_eq_true _ _).mp h
      have hlt := (List.getElem?_eq_some_iff.mp hr).1
      simp [List.getElem?_append_left hlt, hr, hcallBack]
    · simpa [Master.goTo, Function.update_of_ne hk] using h
  | rtpParamsInit here pointer => exact hlast pointer id
  | setCallBack here pointer => exact hlast pointer fun _ => rfl
  | send here pointer => exact hlast pointer id

/-- A packet of voice leaves the objects as they are. -/
theorem receive_rtp {m m' : Master} {k : Channel} {j : Nat} {payload : List UInt8}
    (hs : masterStep m (.receive k j payload) = some m') : m'.rtp = m.rtp := by
  cases masterStep_stepsTo hs with
  | write | drop => rfl

/-- Only `ProcessRTPPacket` hands voice on. -/
theorem handed_step {t t' : MyRTP.PollThread} {b : MyRTP.Action} (hs : MyRTP.step lib t b = some t')
    (hb : b ≠ .setCallBackFunc) : t'.recvVoiceCallBackFunc = t.recvVoiceCallBackFunc ∧
      t'.heard.flatMap Prod.snd = t.heard.flatMap Prod.snd ++
        if t.recvVoiceCallBackFunc then (handed t b).getD [] else [] := by
  cases MyRTP.step_stepsTo hs with
  | beginDataAccess here | exit here | again here | extract here =>
    exact ⟨rfl, by simp [handed, here]⟩
  | first here =>
    cases lib.gotoFirstSourceWithData t.sources <;>
      exact ⟨rfl, by simp [handed, here, MyRTP.PollThread.goto]⟩
  | @next i srcdat here =>
    cases lib.gotoNextSourceWithData t.sources i <;>
      exact ⟨rfl, by simp [handed, here, MyRTP.PollThread.goto]⟩
  | process here =>
    refine ⟨rfl, ?_⟩
    simp only [MyRTP.PollThread.processRTPPacket, handed, here, Option.getD_some]
    split <;> simp
  | setCallBackFunc => exact absurd rfl hb
  | setThreadExitFlag | join | validate | arrive | remove => exact ⟨rfl, by simp [handed]⟩

/-- What holds while no two threads set the first channel up at once. -/
structure Tuned (s : Studio) : Prop where
  played : ∃ actions, run masterStep .fresh actions = some s.master ∧
    Throughout masterStep Apart .fresh actions ∧
    outputs masterStep heard .fresh actions = (s.polls 0).heard.flatMap Prod.snd
  callBack : ∀ j, (s.polls j).recvVoiceCallBackFunc =
    ((s.master.rtp .channel1)[j]?).any MyRTP.callBack
  kept : ∀ j, MyRTP.Kept (s.polls j)

theorem tuned_fresh : Tuned .fresh :=
  ⟨⟨[], rfl, throughout_nil _ _, rfl⟩, fun _ => rfl, fun _ => MyRTP.kept_fresh⟩

theorem Tuned.callBack_update {t : MyRTP.PollThread} {m : Master} (h : Tuned s)
    (hset : t.recvVoiceCallBackFunc = (s.polls j).recvVoiceCallBackFunc)
    (hrtp : m.rtp = s.master.rtp) (i : Nat) :
    (Function.update s.polls j t i).recvVoiceCallBackFunc =
      ((m.rtp .channel1)[i]?).any MyRTP.callBack := by
  rw [hrtp, ← h.callBack i]
  by_cases hi : i = j
  · subst hi
    rw [Function.update_self, hset]
  · rw [Function.update_of_ne hi]

theorem Tuned.kept_update {t : MyRTP.PollThread} {b : MyRTP.Action} (h : Tuned s)
    (hstep : MyRTP.step lib (s.polls j) b = some t) (i : Nat) :
    MyRTP.Kept (Function.update s.polls j t i) := by
  by_cases hi : i = j
  · subst hi
    rw [Function.update_self]
    exact MyRTP.kept_step (h.kept i) hstep
  · rw [Function.update_of_ne hi]
    exact h.kept i

theorem SetUp.length_le {k : Channel} {fp : Option (List UInt8)} {rtps : List MyRTP}
    {stages : List Stage} (h : SetUp k fp rtps stages) : rtps.length ≤ 1 := by
  cases h <;> simp

/-- The steps of the server's threads are apart. -/
def StudioApart (s : Studio) (a : StudioAction) (_ : Studio) : Prop :=
  ∀ b, a = .master b → Apart s.master b s.master

theorem tuned_step (h : Tuned s) (hs : studioStep lib s a = some s')
    (happart : StudioApart s a s') : Tuned s' := by
  obtain ⟨actions, hrun, hall, hout⟩ := h.played
  cases studioStep_stepsTo hs with
  | @master b m hother hstep =>
    have hnew : run masterStep .fresh (actions ++ [b]) = some m := by
      rw [run_snoc, hrun, Option.bind_some, hstep]
    refine ⟨⟨actions ++ [b], hnew, (throughout_snoc hrun).mpr ⟨hall, fun _ _ => happart b rfl⟩, ?_⟩,
      fun _ => rfl, fun j => ?_⟩
    · rw [outputs_snoc masterStep heard b hrun, hother, List.append_nil]
      exact hout
    · have hkept := h.kept j
      refine ⟨hkept.count, hkept.heard, fun hnull => hkept.silent ?_⟩
      -- were it set before, it would be set now
      by_contra hset
      rw [h.callBack j] at hset
      have hstill := callBack_step hstep (by simpa using hset)
      exact absurd (hnull.symm.trans hstill) (by simp)
  | @quiet j b t hb hstep hnothing =>
    obtain ⟨hset, hheard⟩ := handed_step hstep hb
    rw [hnothing, Option.getD_none, ite_self, List.append_nil] at hheard
    refine ⟨⟨actions, hrun, hall, hout.trans ?_⟩, h.callBack_update hset rfl, h.kept_update hstep⟩
    dsimp only
    by_cases hj : 0 = j
    · subst hj
      rw [Function.update_self, hheard]
    · rw [Function.update_of_ne hj]
  | @process j t pack m hstep hhere hreceived =>
    obtain ⟨hset, hheard⟩ := handed_step hstep (by simp)
    -- there is one object, so the thread is that of the first
    obtain ⟨r, hobject, -⟩ := Option.bind_eq_some_iff.mp hreceived
    have hone := ((run_setUp hrun hall).1 .channel1).length_le
    obtain rfl : j = 0 := by
      have hlt := (List.getElem?_eq_some_iff.mp hobject).1
      omega
    have hnew : run masterStep .fresh (actions ++ [.receive .channel1 0 pack]) = some m := by
      rw [run_snoc, hrun, Option.bind_some, hreceived]
    refine ⟨⟨actions ++ [.receive .channel1 0 pack], hnew, (throughout_snoc hrun).mpr
      ⟨hall, fun _ _ i k data he => by cases he⟩, ?_⟩,
      h.callBack_update hset (receive_rtp hreceived), h.kept_update hstep⟩
    dsimp only
    rw [outputs_snoc masterStep heard _ hrun, hout, Function.update_self, hheard, hhere,
      h.callBack 0]
    rfl

/-- The callback of the first object of the first channel is set. -/
def Studio.CallBackSet (s : Studio) : Prop :=
  ((s.master.rtp .channel1)[0]?).any MyRTP.callBack = true

instance (s : Studio) : Decidable s.CallBackSet := by
  unfold Studio.CallBackSet
  infer_instance

theorem Tuned.callBackSet_iff (h : Tuned s) :
    s.CallBackSet ↔ (s.polls 0).recvVoiceCallBackFunc = true := by
  rw [Studio.CallBackSet, h.callBack 0]

/-- The callback is set by a thread in `MasterOnDataFunc`, and nothing is processed meanwhile. -/
theorem sets_step (hs : studioStep lib s a = some s') (hunset : ¬ s.CallBackSet)
    (hset : s'.CallBackSet) : (s'.polls 0).processed = (s.polls 0).processed ∧
      (s'.polls 0).heard = (s.polls 0).heard := by
  cases studioStep_stepsTo hs with
  | master => exact ⟨rfl, rfl⟩
  | quiet => exact absurd hset hunset
  | process _ _ hreceived =>
    have hsame : s.CallBackSet := by
      rwa [Studio.CallBackSet, receive_rtp hreceived] at hset
    exact absurd hsame hunset

/-- From when the callback is set on, what is processed is heard. -/
def Hears (processed heard : List (UInt32 × List UInt8)) (s : Studio) : Prop :=
  s.CallBackSet ∧ ∃ new, (s.polls 0).processed = processed ++ new ∧
    (s.polls 0).heard = heard ++ new

theorem hears_step {processed heard : List (UInt32 × List UInt8)} (ht : Tuned s)
    (h : Hears processed heard s) (hs : studioStep lib s a = some s') :
    Hears processed heard s' := by
  obtain ⟨hset, hnew⟩ := h
  have hrecv := ht.callBackSet_iff.mp hset
  have hpoll {j : Nat} {b : MyRTP.Action} {t : MyRTP.PollThread}
      (hstep : MyRTP.step lib (s.polls j) b = some t) :
      ∃ new, (Function.update s.polls j t 0).processed = processed ++ new ∧
        (Function.update s.polls j t 0).heard = heard ++ new := by
    by_cases hj : 0 = j
    · subst hj
      rw [Function.update_self]
      exact (MyRTP.heard_step ⟨hrecv, hnew⟩ hstep).2
    · rw [Function.update_of_ne hj]
      exact hnew
  cases studioStep_stepsTo hs with
  | master _ hstep => exact ⟨callBack_step hstep hset, hnew⟩
  | quiet _ hstep => exact ⟨hset, hpoll hstep⟩
  | process hstep _ hreceived =>
    refine ⟨?_, hpoll hstep⟩
    rw [Studio.CallBackSet, receive_rtp hreceived]
    exact hset

theorem run_tuned {actions : List StudioAction}
    (hrun : run (studioStep lib) .fresh actions = some s)
    (happart : Throughout (studioStep lib) StudioApart .fresh actions) : Tuned s :=
  throughout_invariant tuned_fresh (fun _ _ _ _ h hs hP => tuned_step h hs hP) hrun happart

/-- The way of the voice while no two threads set the first channel up at once. The file has what
the callback was given, each packet whole and in order. That is nothing until the callback is set,
and from the step that sets it on all that the polling thread processes. What is processed is among
the packets that came, each of which was processed once, or is still in the thread's hand or held,
or was deleted by the library. -/
theorem voice_recorded_from_session (lib : MyRTP.RTPSession) (actions : List StudioAction)
    (s : Studio) (hrun : run (studioStep lib) .fresh actions = some s)
    (happart : Throughout (studioStep lib) StudioApart .fresh actions) :
    (∀ file, s.master.fp = some file → file = (s.polls 0).heard.flatMap Prod.snd) ∧
    (¬ s.CallBackSet → (s.polls 0).heard = []) ∧
    (∀ pre a post s₁ s₂, actions = pre ++ a :: post →
      run (studioStep lib) .fresh pre = some s₁ → studioStep lib s₁ a = some s₂ →
      ¬ s₁.CallBackSet → s₂.CallBackSet →
      (s.polls 0).processed = (s₁.polls 0).processed ++ (s.polls 0).heard) ∧
    (s.polls 0).arrived.Perm ((s.polls 0).processed ++ (s.polls 0).inHand ++ (s.polls 0).held ++
      (s.polls 0).lost) := by
  have h := run_tuned hrun happart
  obtain ⟨played, hplayed, hall, hout⟩ := h.played
  refine ⟨fun file hfp => ?_, fun hunset => ?_, fun pre a post s₁ s₂ he h₁ h₂ hunset hset => ?_,
    (h.kept 0).perm⟩
  · have hfile := (run_recorded hplayed hall).file
    rw [hfp] at hfile
    exact hfile.trans hout
  · rw [h.callBackSet_iff, Bool.not_eq_true] at hunset
    exact (h.kept 0).silent hunset
  · rw [he] at hrun happart
    obtain ⟨hbefore, hrest⟩ := (throughout_append h₁).mp happart
    obtain ⟨hstep, hbehind⟩ := (throughout_cons h₂).mp hrest
    have ht₁ := run_tuned h₁ hbefore
    have ht₂ := tuned_step ht₁ h₂ hstep
    obtain ⟨hprocessed, hheard⟩ := sets_step h₂ hunset hset
    rw [run_append, h₁, Option.bind_some, run_cons, h₂, Option.bind_some] at hrun
    -- nothing was heard in front of the step
    rw [ht₁.callBackSet_iff, Bool.not_eq_true] at hunset
    have hsilent := (ht₁.kept 0).silent hunset
    have hbegin : Hears (s₁.polls 0).processed [] s₂ :=
      ⟨hset, [], by simp [hprocessed], by simp [hheard, hsilent]⟩
    obtain ⟨-, -, new, hnew, hall'⟩ := throughout_invariant
      (I := fun t => Tuned t ∧ Hears (s₁.polls 0).processed [] t) ⟨ht₂, hbegin⟩
      (fun _ _ _ _ hI hs hP => ⟨tuned_step hI.1 hs hP, hears_step hI.1 hI.2 hs⟩) hrun hbehind
    rw [hnew, hall', List.nil_append]

theorem run_studioApart {actions : List StudioAction}
    (hrun : run (studioStep lib) .fresh actions = some s) (hone : s.master.handlers.length ≤ 1) :
    Throughout (studioStep lib) StudioApart .fresh actions := by
  intro pre a post he s₁ s₂ h₁ _ b _
  rw [he, run_append, h₁, Option.bind_some] at hrun
  have hle : s₁.master.handlers.length ≤ s.master.handlers.length := by
    refine run_invariant (I := fun t : Studio => s₁.master.handlers.length ≤
      t.master.handlers.length) (Nat.le_refl _) (fun t b t' _ hle hs => Nat.le_trans hle ?_) hrun
    cases studioStep_stepsTo hs with
    | master _ hstep | process _ _ hstep => exact handlers_step hstep
    | quiet => exact Nat.le_refl _
  exact apart_of_alone (Nat.le_trans hle hone)

/-- The first channel has its session, and a packet is processed there in front of the callback. -/
private def early : List StudioAction :=
  (listening.take 4).map .master ++ [.poll 0 (.join 5), .poll 0 (.validate 0),
    .poll 0 (.arrive 0 0 [9])] ++ List.replicate 4 (.poll 0 .goOn)

/-- Another one comes when the request is done. -/
private def late : List StudioAction :=
  [.master (.goOn 0), .master (.goOn 0), .poll 0 .goOn, .poll 0 .goOn,
    .poll 0 (.arrive 0 0 [1, 2])] ++ List.replicate 4 (.poll 0 .goOn)

theorem voice_recorded_from_session_late : ∃ s,
    run (studioStep MyRTP.sweeping) .fresh (early ++ .master (.goOn 0) :: late) = some s ∧
    (s.polls 0).processed = [(5, [9]), (5, [1, 2])] ∧ s.master.fp = some [1, 2] := by
  obtain ⟨s₁, h₁, hunset, hbefore⟩ : ∃ s₁, run (studioStep MyRTP.sweeping) .fresh early = some s₁ ∧
      ¬ s₁.CallBackSet ∧ (s₁.polls 0).processed = [(5, [9])] := ⟨_, rfl, by decide, rfl⟩
  obtain ⟨s₂, h₂, hset⟩ : ∃ s₂, studioStep MyRTP.sweeping s₁ (.master (.goOn 0)) = some s₂ ∧
      s₂.CallBackSet := by
    cases h₁
    exact ⟨_, rfl, rfl⟩
  obtain ⟨s, hrun, hdone, hfp, hprocessed⟩ : ∃ s, run (studioStep MyRTP.sweeping) .fresh
      (early ++ .master (.goOn 0) :: late) = some s ∧ s.master.handlers = [.done] ∧
      s.master.fp.isSome ∧ (s.polls 0).processed = [(5, [9]), (5, [1, 2])] :=
    ⟨_, rfl, rfl, rfl, rfl⟩
  obtain ⟨file, hfile⟩ := Option.isSome_iff_exists.mp hfp
  obtain ⟨hplayed, -, hfrom, -⟩ := voice_recorded_from_session MyRTP.sweeping _ s hrun
    (run_studioApart hrun (by simp [hdone]))
  refine ⟨s, hrun, hprocessed, hfile.trans (congrArg some ?_)⟩
  have hall := hfrom early _ late s₁ s₂ rfl h₁ h₂ hunset hset
  rw [hprocessed, hbefore] at hall
  have hheard : [(5, [1, 2])] = (s.polls 0).heard := (List.cons.inj hall).2
  rw [hplayed file hfile, ← hheard]
  rfl

end RTPVoice.MyMasterServer
