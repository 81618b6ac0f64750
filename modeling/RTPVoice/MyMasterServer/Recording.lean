import RTPVoice.MyMasterServer.SetUp

namespace RTPVoice.MyMasterServer

open Framework Framework.Transition

/-- What a step hands to `RTPChannel1OnData`. -/
def heard (s : Master) : MasterAction → List UInt8
  | .receive .channel1 j payload =>
    if ((s.rtp .channel1)[j]?).any MyRTP.callBack then payload else []
  | _ => []

/-- The file has what was heard, and there is none before the first channel is set up. -/
structure Recorded (voice : List UInt8) (s : Master) : Prop where
  file : s.fp.getD [] = voice
  closed : s.rtp .channel1 = [] ∨ s.stages .channel1 ≠ [] → s.fp = none

variable {s s' : Master} {a : MasterAction} {i : Nat} {k : Channel} {h g : Handler}
  {data : ResponeData} {voice : List UInt8} {fp : Option (List UInt8)}

theorem recorded_fresh : Recorded [] .fresh := ⟨rfl, fun _ => rfl⟩

/-- A step that leaves the file alone and does not begin to set the channel up. -/
theorem Recorded.same (hrecorded : Recorded voice s) (hquiet : heard s a = []) (hfp : s'.fp = s.fp)
    (hrtp : s'.rtp .channel1 = [] → s.rtp .channel1 = [])
    (hstages : s'.stages .channel1 ≠ [] → s.rtp .channel1 = [] ∨ s.stages .channel1 ≠ []) :
    Recorded (voice ++ heard s a) s' := by
  rw [hquiet, List.append_nil]
  refine ⟨hfp ▸ hrecorded.file, fun hclosed => hfp ▸ hrecorded.closed ?_⟩
  rcases hclosed with hnull | hbusy
  · exact .inl (hrtp hnull)
  · exact hstages hbusy

theorem recorded_step (hrecorded : Recorded voice s)
    (hset : ∀ k, SetUp k s.fp (s.rtp k) (s.stages k)) (hs : masterStep s a = some s') :
    Recorded (voice ++ heard s a) s' := by
  -- a thread at the channel is a reason for there to be no file
  have hbusy {i : Nat} {h : Handler} (hhere : s.handlers[i]? = some h)
      (hstage : h.stage .channel1 ≠ none) : s.stages .channel1 ≠ [] := by
    obtain ⟨x, hx⟩ := Option.ne_none_iff_exists'.mp hstage
    exact List.ne_nil_of_mem (mem_stages hhere hx)
  have hgoOn {i : Nat} {h g : Handler} (hhere : s.handlers[i]? = some h)
      (hg : g.stage .channel1 ≠ none → h.stage .channel1 ≠ none) :
      (s.goTo i g).stages .channel1 ≠ [] → s.rtp .channel1 = [] ∨ s.stages .channel1 ≠ [] := by
    intro hne
    by_cases hstage : h.stage .channel1 = none
    · have hnone : g.stage .channel1 = none := by
        by_contra hg'
        exact hg hg' hstage
      rw [stages_same hhere (hnone.trans hstage.symm)] at hne
      exact .inr hne
    · exact .inr (hbusy hhere hstage)
  cases masterStep_stepsTo hs with
  | onData command data =>
    refine hrecorded.same rfl rfl id fun hne => .inr ?_
    simpa [Master.stages] using hne
  | @find i k data hhere hwanted hnull =>
    refine hrecorded.same rfl rfl id fun hne => ?_
    cases k with
    | channel1 => exact .inl hnull
    | channel2 => exact hgoOn hhere (by simp) hne
  | pass hhere =>
    exact hrecorded.same rfl rfl id (hgoOn hhere (by simp))
  | @make i k data hhere =>
    refine hrecorded.same rfl rfl ?_ (hgoOn hhere (by cases k <;> simp))
    cases k <;> simp
  | @rtpParamsInit i k data rest r hhere hpointer =>
    exact hrecorded.same rfl rfl (update_eq_nil hpointer).mp (hgoOn hhere (by cases k <;> simp))
  | @setCallBack i k data rest r hhere hpointer =>
    exact hrecorded.same rfl rfl (update_eq_nil hpointer).mp (hgoOn hhere (by cases k <;> simp))
  | @openFile i data hhere =>
    have hmem : .opening ∈ s.stages .channel1 := mem_stages hhere (by simp)
    have hnone := hrecorded.closed (.inr (List.ne_nil_of_mem hmem))
    have hfile := hrecorded.file
    rw [hnone] at hfile
    obtain ⟨sent, hrtp, hone⟩ := (hset .channel1).at_opening hmem
    have hnext := stages_next (g := .afterSetUp data .channel1) hhere .channel1 (by simp [hone])
    rw [stage_afterSetUp] at hnext
    refine ⟨hfile.trans (List.append_nil voice).symm, fun hclosed => ?_⟩
    rcases hclosed with hnull | hne
    · exact absurd (hrtp.symm.trans hnull) (by simp)
    · exact absurd hnext hne
  | ready hhere =>
    exact hrecorded.same rfl rfl id (hgoOn hhere (by simp))
  | unready hhere =>
    exact hrecorded.same rfl rfl id (hgoOn hhere (by simp))
  | send hhere hpointer =>
    exact hrecorded.same rfl rfl (update_eq_nil hpointer).mp (hgoOn hhere (by simp))
  | @write j r payload file hsession hcallBack hfp =>
    have hheard : heard s (.receive .channel1 j payload) = payload := by
      simp [heard, hsession, hcallBack]
    have hfile := hrecorded.file
    rw [hfp] at hfile
    refine ⟨by rw [hheard, ← hfile]; rfl, fun hclosed => ?_⟩
    rw [hrecorded.closed hclosed] at hfp
    cases hfp
  | @drop k j r payload hsession hother =>
    have hheard : heard s (.receive k j payload) = [] := by
      cases k with
      | channel1 => simp [heard, hsession, hother]
      | channel2 => rfl
    rw [hheard, List.append_nil]
    exact hrecorded

theorem run_recorded {actions : List MasterAction} (hrun : run masterStep .fresh actions = some s)
    (happart : Throughout masterStep Apart .fresh actions) :
    Recorded (outputs masterStep heard .fresh actions) s := by
  induction actions using List.reverseRecOn generalizing s with
  | nil =>
    cases hrun
    exact recorded_fresh
  | append_singleton actions a ih =>
    rw [run_snoc] at hrun
    obtain ⟨s₁, h₁, hs⟩ := Option.bind_eq_some_iff.mp hrun
    obtain ⟨hbefore, -⟩ := (throughout_snoc h₁).mp happart
    rw [outputs_snoc masterStep heard a h₁]
    exact recorded_step (ih h₁ hbefore) (run_setUp h₁ hbefore).1 hs

/-- The voice of the first channel while no two threads set it up at once. The file has all that
`RTPChannel1OnData` was ever given, in order. And a packet of voice that a polling thread gets is
written to no file, which is undefined, exactly when a thread is between setting the callback and
opening the file. -/
theorem voice_recorded (actions : List MasterAction) (s : Master)
    (hrun : run masterStep .fresh actions = some s)
    (happart : Throughout masterStep Apart .fresh actions) :
    (∀ file, s.fp = some file → file = outputs masterStep heard .fresh actions) ∧
    ∀ (j : Nat) (r : MyRTP) (payload : List UInt8), (s.rtp .channel1)[j]? = some r →
      r.inits ≠ [] →
      (masterStep s (.receive .channel1 j payload) = none ↔
        ∃ data, .opening data ∈ s.handlers) := by
  have hrecorded := run_recorded hrun happart
  refine ⟨fun file hfp => ?_, fun j r payload hsession hinits => ?_⟩
  · rw [← hrecorded.file, hfp]
    rfl
  · have hstep : masterStep s (.receive .channel1 j payload) = none ↔
        r.callBack = true ∧ s.fp = none := by
      simp only [masterStep, hsession, Option.bind_some, Master.receive, if_neg hinits]
      split <;> simp [*]
    have hopening : (∃ data, .opening data ∈ s.handlers) ↔ .opening ∈ s.stages .channel1 := by
      simp only [Master.stages, List.mem_filterMap]
      constructor
      · rintro ⟨data, hmem⟩
        exact ⟨_, hmem, rfl⟩
      · rintro ⟨h, hmem, hstage⟩
        cases h <;> simp at hstage
        exact ⟨_, hmem⟩
    rw [hstep, hopening]
    have hset := (run_setUp hrun happart).1 .channel1
    have hclosed := hrecorded.closed
    generalize s.rtp .channel1 = rtps at hset hsession hclosed
    generalize s.stages .channel1 = stages at hset hclosed
    have hone {r' : MyRTP} (hget : [r'][j]? = some r) : r = r' :=
      List.mem_singleton.mp (List.mem_of_getElem? hget)
    cases hset with
    | null | making => simp at hsession
    | initializing sent =>
      obtain rfl := hone hsession
      exact absurd rfl hinits
    | settingCallBack sent =>
      obtain rfl := hone hsession
      simp
    | opening sent =>
      obtain rfl := hone hsession
      simpa using hclosed
    | ready sent file =>
      obtain rfl := hone hsession
      have hfile := Option.isSome_iff_ne_none.mp (file rfl)
      simpa using hfile

/-- A packet is written once the file is open; one that comes before is not. -/
theorem voice_recorded_listening : (∃ s, run masterStep .fresh
      (listening ++ [.receive .channel1 0 [1, 2]]) = some s ∧ s.fp = some [1, 2]) ∧
    ∃ s, run masterStep .fresh (listening.take 5) = some s ∧
      masterStep s (.receive .channel1 0 [1, 2]) = none := by
  constructor
  · obtain ⟨s, hrun, hdone, hfp⟩ : ∃ s, run masterStep .fresh
        (listening ++ [.receive .channel1 0 [1, 2]]) = some s ∧ s.handlers = [.done] ∧
        s.fp.isSome := ⟨_, rfl, rfl, rfl⟩
    obtain ⟨file, hfile⟩ := Option.isSome_iff_exists.mp hfp
    obtain ⟨hheard, -⟩ := voice_recorded _ s hrun (run_apart hrun (by simp [hdone]))
    exact ⟨s, hrun, hfile.trans (congrArg some ((hheard file hfile).trans rfl))⟩
  · obtain ⟨s, hrun, hhandlers, r, hsession, hinits⟩ : ∃ s, run masterStep .fresh
        (listening.take 5) = some s ∧ s.handlers = [.opening groupData] ∧
        ∃ r, (s.rtp .channel1)[0]? = some r ∧ r.inits = [⟨55500, 57400, 1973⟩] :=
      ⟨_, rfl, rfl, _, rfl, rfl⟩
    obtain ⟨-, hopening⟩ := voice_recorded _ s hrun (run_apart hrun (by simp [hhandlers]))
    refine ⟨s, hrun, (hopening 0 r _ hsession (by simp [hinits])).mpr ⟨groupData, ?_⟩⟩
    simp [hhandlers]

end RTPVoice.MyMasterServer
