import RTPVoice.Framework.Snoc
import RTPVoice.Framework.Transition
import RTPVoice.MyMasterServer.Channels

namespace RTPVoice.MyMasterServer

open Framework Framework.Transition

/-- How far a thread is that sets a channel up. -/
inductive Stage where
  | making
  | initializing
  | settingCallBack
  | opening
  deriving DecidableEq

/-- How far the thread is with channel `k`. -/
def Handler.stage (k : Channel) : Handler → Option Stage
  | .making k' _ => if k' = k then some .making else none
  | .initializing k' _ => if k' = k then some .initializing else none
  | .settingCallBack k' _ => if k' = k then some .settingCallBack else none
  | .opening _ => if .channel1 = k then some .opening else none
  | _ => none

/-- The threads that set channel `k` up. -/
def Master.stages (s : Master) (k : Channel) : List Stage :=
  s.handlers.filterMap (Handler.stage k)

/-- The objects made for channel `k`, and those about to be. -/
def Master.load (s : Master) (k : Channel) : Nat := (s.rtp k).length + (s.stages k).count .making

/-- No channel gets a second object. -/
def Master.Single (s : Master) : Prop := ∀ k, s.load k ≤ 1

/-- No thread finds the pointer `NULL` while another is about to set it. -/
def Apart (s : Master) (a : MasterAction) (_ : Master) : Prop :=
  ∀ i k data, a = .goOn i → s.handlers[i]? = some (.testing k data) → k.groupId data ≠ 0 →
    s.rtp k = [] → Stage.making ∉ s.stages k

instance (s : Master) (a : MasterAction) (s' : Master) : Decidable (Apart s a s') :=
  match a with
  | .goOn i =>
    match hi : s.handlers[i]? with
    | some (.testing k data) =>
      decidable_of_iff (k.groupId data ≠ 0 → s.rtp k = [] → Stage.making ∉ s.stages k)
        ⟨fun h j k' data' ha hj => by
          cases ha
          cases hi.symm.trans hj
          exact h, fun h => h i k data rfl hi⟩
    | some (.making ..) | some (.initializing ..) | some (.settingCallBack ..)
    | some (.opening _) | some (.calling ..) | some (.sending ..) | some .done | none =>
      .isTrue fun j k' data' ha hj => by
        cases ha
        cases hi.symm.trans hj
  | .onData .. | .receive .. => .isTrue fun j k' data' ha => by cases ha

variable {s s' : Master} {a : MasterAction} {i : Nat} {k k' : Channel} {h g : Handler}
  {data : ResponeData}

@[simp] theorem stage_testing : (Handler.testing k' data).stage k = none := rfl

@[simp] theorem stage_making :
    (Handler.making k' data).stage k = if k' = k then some .making else none := rfl

@[simp] theorem stage_initializing :
    (Handler.initializing k' data).stage k = if k' = k then some .initializing else none := rfl

@[simp] theorem stage_settingCallBack :
    (Handler.settingCallBack k' data).stage k =
      if k' = k then some .settingCallBack else none := rfl

@[simp] theorem stage_opening :
    (Handler.opening data).stage k = if .channel1 = k then some .opening else none := rfl

@[simp] theorem stage_calling : (Handler.calling k' data).stage k = none := rfl

@[simp] theorem stage_sending : (Handler.sending k' data).stage k = none := rfl

@[simp] theorem stage_done : Handler.done.stage k = none := rfl

@[simp] theorem stage_afterSetUp : (Handler.afterSetUp data k').stage k = none := by
  cases k' <;> rfl

@[simp] theorem stage_afterCall : (Handler.afterCall data k').stage k = none := by
  cases k' <;> rfl

@[simp] theorem stage_begin (command : ProtocolNames) :
    (Handler.begin command data).stage k = none := by
  cases command <;> rfl

/-- Where thread `i` is takes the place of where it was. -/
theorem stages_goTo (hhere : s.handlers[i]? = some h) (k : Channel) :
    ((h.stage k).toList ++ (s.goTo i g).stages k).Perm ((g.stage k).toList ++ s.stages k) :=
  filterMap_replaced (Handler.stage k) hhere

/-- A thread that is nowhere in the set-up goes where it is not either. -/
theorem stages_same (hhere : s.handlers[i]? = some h) (hstage : g.stage k = h.stage k) :
    (s.goTo i g).stages k = s.stages k :=
  filterMap_replaced_same hhere hstage

/-- A thread that neither comes to making an object nor goes from there. -/
theorem making_goTo (hhere : s.handlers[i]? = some h) (hold : h.stage k ≠ some .making)
    (hnew : g.stage k ≠ some .making) :
    ((s.goTo i g).stages k).count .making = (s.stages k).count .making := by
  have hcount := (stages_goTo (g := g) hhere k).count_eq .making
  have hnone {x : Option Stage} (hx : x ≠ some .making) : x.toList.count .making = 0 := by
    rw [List.count_eq_zero, Option.mem_toList]
    exact hx
  rwa [List.count_append, List.count_append, hnone hold, hnone hnew, Nat.zero_add,
    Nat.zero_add] at hcount

theorem length_update {rtps : List MyRTP} (hlen : rtps.length = (s.rtp k').length) :
    (Function.update s.rtp k' rtps k).length = (s.rtp k).length := by
  by_cases hk : k = k'
  · subst hk
    rw [Function.update_self, hlen]
  · rw [Function.update_of_ne hk]

theorem load_goTo {rtp : Channel → List MyRTP} {fp : Option (List UInt8)}
    (hhere : s.handlers[i]? = some h) (hold : h.stage k ≠ some .making)
    (hnew : g.stage k ≠ some .making) (hlen : (rtp k).length = (s.rtp k).length) :
    Master.load { s.goTo i g with rtp, fp } k = s.load k := by
  rw [Master.load, Master.load, ← making_goTo hhere hold hnew, ← hlen]
  rfl

/-- Only a thread that finds the pointer `NULL` adds to the objects made and to be made. -/
theorem load_step (hs : masterStep s a = some s') :
    (∀ k, s'.load k = s.load k) ∧ Apart s a s' ∨
    ∃ i k data, a = .goOn i ∧ s.handlers[i]? = some (.testing k data) ∧ k.groupId data ≠ 0 ∧
      s.rtp k = [] ∧ s'.load k = s.load k + 1 ∧ ∀ k', k' ≠ k → s'.load k' = s.load k' := by
  have happart {i : Nat} {h : Handler} (hhere : s.handlers[i]? = some h)
      (hh : ∀ k data, h = .testing k data → k.groupId data = 0 ∨ s.rtp k ≠ []) :
      Apart s (.goOn i) s' := by
    intro j k data hj htesting hwanted hnull
    cases hj
    rcases hh k data (Option.some.inj (hhere.symm.trans htesting)) with hzero | hset
    · exact absurd hzero hwanted
    · exact absurd hnull hset
  cases masterStep_stepsTo hs with
  | onData command data =>
    refine .inl ⟨fun k => ?_, fun i k data hi => by cases hi⟩
    simp [Master.load, Master.stages]
  | write | drop => exact .inl ⟨fun k => rfl, fun i k data hi => by cases hi⟩
  | @find i k data hhere hwanted hnull =>
    refine .inr ⟨i, k, data, rfl, hhere, hwanted, hnull, ?_, fun k' hk' => ?_⟩
    · have hcount := (stages_goTo (g := .making k data) hhere k).count_eq .making
      simp only [stage_making, stage_testing, if_true, Option.toList_some, Option.toList_none,
        List.nil_append, List.singleton_append, List.count_cons_self] at hcount
      rw [Master.load, Master.load, hcount]
      rfl
    · have hcount := making_goTo (k := k') (g := .making k data) hhere (by simp)
        (by simp [Ne.symm hk'])
      rw [Master.load, hcount]
      rfl
  | pass hhere hset =>
    refine .inl ⟨fun k => load_goTo hhere (by simp) (by simp) rfl,
      happart hhere fun k data he => ?_⟩
    cases he
    exact hset
  | @make i k data hhere =>
    refine .inl ⟨fun k' => ?_, happart hhere (by simp)⟩
    have hcount := (stages_goTo (g := .initializing k data) hhere k').count_eq .making
    have hstages : Master.stages { s.goTo i (.initializing k data) with
        rtp := Function.update s.rtp k (s.rtp k ++ [.fresh]) } k' =
      (s.goTo i (.initializing k data)).stages k' := rfl
    by_cases hk : k = k'
    · subst hk
      have hone : [Stage.making].count .making = 1 := rfl
      have hzero : [Stage.initializing].count .making = 0 := rfl
      simp only [stage_making, stage_initializing, if_true, Option.toList_some, List.count_append,
        hone, hzero] at hcount
      simp only [Master.load, hstages, Function.update_self, List.length_append,
        List.length_singleton]
      omega
    · simp only [stage_making, stage_initializing, if_neg hk, Option.toList_none,
        List.nil_append] at hcount
      simp only [Master.load, hstages, hcount, Function.update_of_ne (Ne.symm hk)]
  | rtpParamsInit hhere hrtp | send hhere hrtp =>
    refine .inl ⟨fun k => load_goTo hhere ?_ ?_ (length_update (by simp [hrtp])),
      happart hhere (by simp)⟩ <;> simp
  | @setCallBack i k data rest r hhere hrtp =>
    refine .inl ⟨fun k' => load_goTo hhere ?_ ?_ (length_update (by simp [hrtp])),
      happart hhere (by simp)⟩
    · simp
    · split <;> simp
  | openFile hhere | ready hhere | unready hhere =>
    refine .inl ⟨fun k => load_goTo hhere ?_ ?_ rfl, happart hhere (by simp)⟩ <;> simp

theorem single_step (hs : masterStep s a = some s') :
    s'.Single ↔ s.Single ∧ Apart s a s' := by
  rcases load_step hs with ⟨hload, hapart⟩ | ⟨i, k, data, rfl, hhere, hwanted, hnull, hk, hother⟩
  · simp only [Master.Single, hload, hapart, and_true]
  · constructor
    · intro h
      refine ⟨fun k' => ?_, fun j k' data' hj htesting _ _ hmaking => ?_⟩
      · by_cases he : k' = k
        · have := h k
          rw [he]
          omega
        · rw [← hother k' he]
          exact h k'
      · cases hj
        cases hhere.symm.trans htesting
        have hpos := List.count_pos_iff.mpr hmaking
        have hle := h k
        rw [hk, Master.load] at hle
        omega
    · intro h k'
      obtain ⟨hsingle, hapart⟩ := h
      by_cases he : k' = k
      · have hnone := List.count_eq_zero.mpr (hapart i k data rfl hhere hwanted hnull)
        rw [he, hk, Master.load, hnull, hnone]
        exact Nat.le_refl 1
      · rw [hother k' he]
        exact hsingle k'

/-! ### Set up once -/

/-- How far channel `k` is set up, with the objects made for it and the threads at it. -/
inductive SetUp (k : Channel) (fp : Option (List UInt8)) : List MyRTP → List Stage → Prop where
  | null : SetUp k fp [] []
  | making : SetUp k fp [] [.making]
  | initializing (sent : List (List UInt8)) : SetUp k fp [⟨[], false, sent⟩] [.initializing]
  | settingCallBack (sent : List (List UInt8)) :
    SetUp k fp [⟨[k.params], false, sent⟩] [.settingCallBack]
  | opening (sent : List (List UInt8)) : SetUp k fp [⟨[k.params], true, sent⟩] [.opening]
  | ready (sent : List (List UInt8)) (file : k = .channel1 → fp.isSome) :
    SetUp k fp [⟨[k.params], true, sent⟩] []

variable {fp fp' : Option (List UInt8)} {rtps : List MyRTP} {stages : List Stage} {x : Stage}

theorem SetUp.mono (hset : SetUp k fp rtps stages) (hfp : fp.isSome → fp'.isSome) :
    SetUp k fp' rtps stages := by
  cases hset with
  | ready sent file => exact .ready sent fun hk => hfp (file hk)
  | _ => constructor

theorem append_singleton_inj {rest : List MyRTP} {r r' : MyRTP} (he : rest ++ [r] = [r']) :
    rest = [] ∧ r = r' := by
  obtain ⟨hrest, hr⟩ := List.append_inj' (he.trans (List.nil_append _).symm) rfl
  exact ⟨hrest, by simpa using hr⟩

theorem SetUp.send {rest : List MyRTP} {r : MyRTP} (hset : SetUp k fp (rest ++ [r]) stages)
    (sent : List (List UInt8)) : SetUp k fp (rest ++ [{ r with sent }]) stages := by
  generalize hrtps : rest ++ [r] = rtps at hset
  cases hset with
  | null | making => simp at hrtps
  | ready _ file =>
    obtain ⟨rfl, rfl⟩ := append_singleton_inj hrtps
    exact .ready sent file
  | _ =>
    obtain ⟨rfl, rfl⟩ := append_singleton_inj hrtps
    constructor

theorem SetUp.at_null (hset : SetUp k fp [] stages) (hx : .making ∉ stages) : stages = [] := by
  cases hset with
  | null => rfl
  | making => simp at hx

theorem SetUp.at_making (hset : SetUp k fp rtps stages) (hx : .making ∈ stages) :
    rtps = [] ∧ stages = [.making] := by
  cases hset <;> simp at hx ⊢

theorem SetUp.at_initializing (hset : SetUp k fp rtps stages) (hx : .initializing ∈ stages) :
    ∃ sent, rtps = [⟨[], false, sent⟩] ∧ stages = [.initializing] := by
  cases hset <;> simp at hx ⊢

theorem SetUp.at_settingCallBack (hset : SetUp k fp rtps stages)
    (hx : .settingCallBack ∈ stages) :
    ∃ sent, rtps = [⟨[k.params], false, sent⟩] ∧ stages = [.settingCallBack] := by
  cases hset <;> simp at hx ⊢

theorem SetUp.at_opening (hset : SetUp k fp rtps stages) (hx : .opening ∈ stages) :
    ∃ sent, rtps = [⟨[k.params], true, sent⟩] ∧ stages = [.opening] := by
  cases hset <;> simp at hx ⊢

/-- The only thread at the channel goes on, or the first one comes. -/
theorem stages_next (hhere : s.handlers[i]? = some h) (k : Channel)
    (hstages : s.stages k = (h.stage k).toList) :
    (s.goTo i g).stages k = (g.stage k).toList := by
  have hperm := stages_goTo (g := g) hhere k
  rw [hstages] at hperm
  have hnext := (List.perm_append_left_iff _).mp (hperm.trans List.perm_append_comm)
  cases hx : g.stage k with
  | none =>
    rw [hx] at hnext
    exact List.perm_nil.mp hnext
  | some x =>
    rw [hx] at hnext
    exact List.perm_singleton.mp hnext

theorem mem_stages (hhere : s.handlers[i]? = some h) (hx : h.stage k = some x) :
    x ∈ s.stages k :=
  List.mem_filterMap.mpr ⟨h, List.mem_of_getElem? hhere, hx⟩

theorem setUp_step (hset : ∀ k, SetUp k s.fp (s.rtp k) (s.stages k)) (hapart : Apart s a s')
    (hs : masterStep s a = some s') : ∀ k, SetUp k s'.fp (s'.rtp k) (s'.stages k) := by
  -- where a thread at channel `k` goes on, the other channel stays as it is
  have hother {i : Nat} {k k' : Channel} {h g : Handler} {rtps : List MyRTP}
      (hhere : s.handlers[i]? = some h) (hk : k' ≠ k) (hold : h.stage k' = none)
      (hnew : g.stage k' = none) : SetUp k' s.fp (Function.update s.rtp k rtps k')
        ((s.goTo i g).stages k') := by
    rw [Function.update_of_ne hk, stages_same hhere (hnew.trans hold.symm)]
    exact hset k'
  intro k'
  cases masterStep_stepsTo hs with
  | onData command data =>
    have hsame : Master.stages { s with handlers := s.handlers ++ [.begin command data] } k' =
        s.stages k' := by simp [Master.stages]
    rw [hsame]
    exact hset k'
  | write => exact (hset k').mono fun _ => rfl
  | drop => exact hset k'
  | pass hhere | ready hhere | unready hhere =>
    rw [stages_same hhere (by simp)]
    exact hset k'
  | @find i k data hhere hwanted hnull =>
    by_cases hk : k' = k
    · subst hk
      have hthis := hset k'
      rw [hnull] at hthis
      have hnone := hthis.at_null (hapart i k' data rfl hhere hwanted hnull)
      rw [stages_next hhere k' (by simp [hnone]), stage_making, if_pos rfl]
      show SetUp k' s.fp (s.rtp k') [.making]
      rw [hnull]
      exact .making
    · rw [stages_same hhere (by simp [Ne.symm hk])]
      exact hset k'
  | @make i k data hhere =>
    by_cases hk : k' = k
    · subst hk
      obtain ⟨hrtp, hone⟩ := (hset k').at_making (mem_stages hhere (by simp))
      have hnext := stages_next (g := .initializing k' data) hhere k' (by simp [hone])
      rw [stage_initializing, if_pos rfl] at hnext
      simp only [Function.update_self, hrtp]
      exact hnext.symm ▸ .initializing []
    · exact hother hhere hk (by simp [Ne.symm hk]) (by simp [Ne.symm hk])
  | @rtpParamsInit i k data rest r hhere hpointer =>
    by_cases hk : k' = k
    · subst hk
      obtain ⟨sent, hrtp, hone⟩ := (hset k').at_initializing (mem_stages hhere (by simp))
      obtain ⟨rfl, rfl⟩ := append_singleton_inj (hpointer.symm.trans hrtp)
      have hnext := stages_next (g := .settingCallBack k' data) hhere k' (by simp [hone])
      rw [stage_settingCallBack, if_pos rfl] at hnext
      simp only [Function.update_self]
      exact hnext.symm ▸ .settingCallBack sent
    · exact hother hhere hk (by simp [Ne.symm hk]) (by simp [Ne.symm hk])
  | @setCallBack i k data rest r hhere hpointer =>
    by_cases hk : k' = k
    · subst hk
      obtain ⟨sent, hrtp, hone⟩ := (hset k').at_settingCallBack (mem_stages hhere (by simp))
      obtain ⟨rfl, rfl⟩ := append_singleton_inj (hpointer.symm.trans hrtp)
      have hnext := stages_next (g := if k' = .channel1 then .opening data else .done) hhere k'
        (by simp [hone])
      simp only [Function.update_self]
      cases k' with
      | channel1 => exact hnext.symm ▸ .opening sent
      | channel2 => exact hnext.symm ▸ .ready sent (by simp)
    · refine hother hhere hk (by simp [Ne.symm hk]) ?_
      cases k <;> simp [Ne.symm hk]
  | @openFile i data hhere =>
    by_cases hk : k' = .channel1
    · subst hk
      obtain ⟨sent, hrtp, hone⟩ := (hset .channel1).at_opening (mem_stages hhere (by simp))
      have hnext := stages_next (g := .afterSetUp data .channel1) hhere .channel1 (by simp [hone])
      rw [stage_afterSetUp] at hnext
      show SetUp .channel1 (some []) (s.rtp .channel1) _
      rw [hrtp]
      exact hnext.symm ▸ .ready sent fun _ => rfl
    · have hsame := stages_same (g := .afterSetUp data .channel1) hhere
        (k := k') (by simp [Ne.symm hk])
      exact (hsame.symm ▸ hset k').mono fun _ => rfl
  | @send i k data rest r hhere hpointer =>
    have hsame := stages_same (k := k') (g := .afterCall data k) hhere (by simp)
    by_cases hk : k' = k
    · subst hk
      simp only [Function.update_self]
      have hthis := hset k'
      rw [hpointer] at hthis
      exact hsame.symm ▸ hthis.send _
    · exact hother hhere hk (by simp) (by simp)

/-! ### Who asked for it -/

/-- The thread sets channel `k` up, or is still to test whether to. -/
def Handler.Concerns (k : Channel) : Handler → Prop
  | .testing k' data => (k' = k ∨ k' = .channel1) ∧ k.groupId data ≠ 0
  | .making k' data | .initializing k' data | .settingCallBack k' data =>
    k' = k ∨ k' = .channel1 ∧ k.groupId data ≠ 0
  | .opening data => k = .channel1 ∨ k.groupId data ≠ 0
  | _ => False

/-- Channel `k` is set up or will be. -/
def Master.Concerns (s : Master) (k : Channel) : Prop :=
  s.rtp k ≠ [] ∨ ∃ h ∈ s.handlers, h.Concerns k

/-- A client has named a group for channel `k`. -/
def MasterAction.Asks (k : Channel) (a : MasterAction) : Prop :=
  ∃ data, a = .onData .listening data ∧ k.groupId data ≠ 0

theorem concerns_goTo {rtp : Channel → List MyRTP} (hhere : s.handlers[i]? = some h)
    (hrtp : rtp k = [] ↔ s.rtp k = [])
    (hsame : s.rtp k = [] → (g.Concerns k ↔ h.Concerns k)) :
    Master.Concerns { s.goTo i g with rtp, fp } k ↔ s.Concerns k := by
  by_cases hnull : s.rtp k = []
  · have hmem := exists_mem_replaced hhere (hsame hnull)
    simp only [Master.Concerns, hrtp, hnull, ne_eq, not_true_eq_false, false_or]
    exact hmem
  · exact iff_of_true (.inl (mt hrtp.mp hnull)) (.inl hnull)

theorem update_eq_nil {rest : List MyRTP} {r r' : MyRTP} (hpointer : s.rtp k' = rest ++ [r]) :
    Function.update s.rtp k' (rest ++ [r']) k = [] ↔ s.rtp k = [] := by
  by_cases hk : k = k'
  · subst hk
    simp [hpointer]
  · rw [Function.update_of_ne hk]

theorem concerns_step (hset : ∀ k, SetUp k s.fp (s.rtp k) (s.stages k))
    (hs : masterStep s a = some s') (k : Channel) :
    s'.Concerns k ↔ s.Concerns k ∨ a.Asks k := by
  have hnot {i : Nat} : ¬ (MasterAction.goOn i).Asks k := by simp [MasterAction.Asks]
  cases masterStep_stepsTo hs with
  | onData command data =>
    have hbegin : (Handler.begin command data).Concerns k ↔
        (MasterAction.onData command data).Asks k := by
      cases command <;> simp [Handler.begin, Handler.Concerns, MasterAction.Asks]
    simp only [Master.Concerns, List.mem_append, List.mem_singleton, or_and_right, exists_or,
      exists_eq_left, hbegin, or_assoc]
  | write | drop => simp [Master.Concerns, MasterAction.Asks]
  | @find i k' data hhere hwanted hnull =>
    rw [or_iff_left hnot]
    refine concerns_goTo hhere Iff.rfl fun _ => ?_
    cases k <;> cases k' <;> simp_all [Handler.Concerns]
  | @pass i k' data hhere hpass =>
    rw [or_iff_left hnot]
    refine concerns_goTo hhere Iff.rfl fun hnull => ?_
    cases k <;> cases k' <;> simp_all [Handler.Concerns, Handler.afterSetUp]
  | @make i k' data hhere =>
    rw [or_iff_left hnot]
    by_cases hk : k = k'
    · subst hk
      exact iff_of_true (.inl (by simp)) (.inr ⟨_, List.mem_of_getElem? hhere, .inl rfl⟩)
    · exact concerns_goTo hhere (by rw [Function.update_of_ne hk]) fun _ => Iff.rfl
  | rtpParamsInit hhere hpointer =>
    rw [or_iff_left hnot]
    exact concerns_goTo hhere (update_eq_nil hpointer) fun _ => Iff.rfl
  | @setCallBack i k' data rest r hhere hpointer =>
    rw [or_iff_left hnot]
    refine concerns_goTo hhere (update_eq_nil hpointer) fun hnull => ?_
    cases k <;> cases k' <;> simp_all [Handler.Concerns]
  | @openFile i data hhere =>
    rw [or_iff_left hnot]
    refine concerns_goTo hhere Iff.rfl fun hnull => ?_
    obtain ⟨sent, hrtp, -⟩ := (hset .channel1).at_opening (mem_stages hhere (by simp))
    cases k <;> simp_all [Handler.Concerns, Handler.afterSetUp]
  | ready hhere =>
    rw [or_iff_left hnot]
    exact concerns_goTo hhere Iff.rfl fun _ => Iff.rfl
  | @unready i k' data hhere =>
    rw [or_iff_left hnot]
    refine concerns_goTo hhere Iff.rfl fun _ => ?_
    cases k' <;> rfl
  | @send i k' data rest r hhere hpointer =>
    rw [or_iff_left hnot]
    refine concerns_goTo hhere (update_eq_nil hpointer) fun _ => ?_
    cases k' <;> rfl

/-! ### Runs -/

theorem setUp_fresh (k : Channel) :
    SetUp k Master.fresh.fp (Master.fresh.rtp k) (Master.fresh.stages k) := .null

theorem run_setUp {actions : List MasterAction}
    (hrun : run masterStep .fresh actions = some s)
    (happart : Throughout masterStep Apart .fresh actions) :
    (∀ k, SetUp k s.fp (s.rtp k) (s.stages k)) ∧
    ∀ k, s.Concerns k ↔ ∃ a ∈ actions, a.Asks k := by
  induction actions using List.reverseRecOn generalizing s with
  | nil =>
    cases hrun
    exact ⟨setUp_fresh, fun k => by simp [Master.Concerns, Master.fresh]⟩
  | append_singleton actions a ih =>
    rw [run_snoc] at hrun
    obtain ⟨s₁, h₁, hs⟩ := Option.bind_eq_some_iff.mp hrun
    obtain ⟨hbefore, hlast⟩ := (throughout_snoc h₁).mp happart
    obtain ⟨hset, hconcerns⟩ := ih h₁ hbefore
    refine ⟨setUp_step hset (hlast s hs) hs, fun k => ?_⟩
    rw [concerns_step hset hs k, hconcerns k]
    simp [or_and_right, exists_or]

/-- One thread alone finds no other. -/
theorem apart_of_alone (hone : s.handlers.length ≤ 1) : Apart s a s' := by
  intro i k data _ hhere _ _ hmaking
  obtain ⟨h, hh, hstage⟩ := List.mem_filterMap.mp hmaking
  obtain ⟨x, hx⟩ | hnil : (∃ x, s.handlers = [x]) ∨ s.handlers = [] := by
    rcases hs : s.handlers with _ | ⟨x, _ | ⟨y, rest⟩⟩
    · exact .inr rfl
    · exact .inl ⟨x, rfl⟩
    · rw [hs] at hone
      simp at hone
  · rw [hx] at hh hhere
    obtain rfl := List.mem_singleton.mp hh
    obtain rfl : Handler.testing k data = h := by
      simpa using (List.mem_singleton.mp (List.mem_of_getElem? hhere))
    cases hstage
  · rw [hnil] at hh
    cases hh

theorem handlers_step (hs : masterStep s a = some s') :
    s.handlers.length ≤ s'.handlers.length := by
  cases masterStep_stepsTo hs <;> simp [Master.goTo]

theorem run_apart {actions : List MasterAction} (hrun : run masterStep .fresh actions = some s)
    (hone : s.handlers.length ≤ 1) : Throughout masterStep Apart .fresh actions := by
  intro pre a post he s₁ s₂ h₁ _
  rw [he, run_append, h₁, Option.bind_some] at hrun
  have hle : s₁.handlers.length ≤ s.handlers.length :=
    run_invariant (I := fun t => s₁.handlers.length ≤ t.handlers.length) (Nat.le_refl _)
      (fun _ _ _ _ hle hs => Nat.le_trans hle (handlers_step hs)) hrun
  exact apart_of_alone (Nat.le_trans hle hone)

def groupData : ResponeData := ⟨300, "2", "", "", 5, 0, 0, 0, "", ""⟩

/-- A client names a group for the first channel and none for the second. -/
def listening : List MasterAction :=
  .onData .listening groupData :: List.replicate 6 (.goOn 0)

theorem listening_run : ∃ s, run masterStep .fresh listening = some s ∧
    s.handlers = [.done] := ⟨_, rfl, rfl⟩

/-- Clients' threads come into `MasterOnData` as they like. No channel ever gets a second object,
made or about to be, exactly when no thread finds its pointer `NULL` while another is in front of
setting it. -/
theorem single_iff_apart (actions : List MasterAction) (s : Master)
    (hrun : run masterStep .fresh actions = some s) :
    s.Single ↔ Throughout masterStep Apart .fresh actions := by
  refine kept_iff_throughout (I := fun _ => True) trivial (fun k => ?_) (fun _ _ _ _ _ => trivial)
    (fun _ _ _ _ => single_step) hrun
  exact Nat.zero_le 1

/-- Two clients name groups, one of them for both channels, and their threads are in
`MasterOnData` at once. -/
private def crossing : List MasterAction :=
  [.onData .listening groupData, .onData .listening ⟨301, "3", "", "", 5, 6, 0, 0, "", ""⟩,
    .goOn 0, .goOn 0, .goOn 1, .goOn 0, .goOn 1, .goOn 0, .goOn 1, .goOn 0, .goOn 1, .goOn 0,
    .goOn 1]

private theorem crossing_run : ∃ s, run masterStep .fresh crossing = some s ∧
    s.handlers = [.done, .done] := ⟨_, rfl, rfl⟩

private theorem crossing_apart : Throughout masterStep Apart .fresh crossing := by
  unfold crossing
  iterate 13 refine (throughout_cons rfl).mpr ⟨by decide, ?_⟩
  exact throughout_nil _ _

/-- The second thread comes to its test when the first has set the pointer. -/
theorem single_iff_apart_crossing : ∃ s, run masterStep .fresh crossing = some s ∧ s.Single := by
  obtain ⟨s, hrun, -⟩ := crossing_run
  exact ⟨s, hrun, (single_iff_apart _ s hrun).mpr crossing_apart⟩

/-- While that holds, every channel is set up at most once, completely, and only when asked for:
when no thread is in `MasterOnData`, a channel for which no request named a group has no object, and
any other has one, with its session created once, on the channel's ports, and its callback set; and
there is a file for the voice of the first. -/
theorem set_up_once (actions : List MasterAction) (s : Master) (k : Channel)
    (hrun : run masterStep .fresh actions = some s)
    (happart : Throughout masterStep Apart .fresh actions) (hdone : ∀ h ∈ s.handlers, h = .done) :
    (s.rtp k = [] ∧ ¬ ∃ a ∈ actions, a.Asks k) ∨
    (∃ sent, s.rtp k = [⟨[k.params], true, sent⟩] ∧ (k = .channel1 → s.fp.isSome) ∧
      ∃ a ∈ actions, a.Asks k) := by
  obtain ⟨hset, hconcerns⟩ := run_setUp hrun happart
  have hnone : s.stages k = [] := by
    refine List.filterMap_eq_nil_iff.mpr fun h hh => ?_
    rw [hdone h hh]
    rfl
  have hasked : (∃ a ∈ actions, a.Asks k) ↔ s.rtp k ≠ [] := by
    rw [← hconcerns k]
    refine or_iff_left fun hex => ?_
    obtain ⟨h, hh, hk⟩ := hex
    rw [hdone h hh] at hk
    exact hk
  have hthis := hset k
  rw [hnone] at hthis
  generalize s.rtp k = rtps at hthis hasked
  cases hthis with
  | null => exact .inl ⟨rfl, fun hex => hasked.mp hex rfl⟩
  | ready sent file => exact .inr ⟨sent, rfl, file, hasked.mpr (by simp)⟩

/-- Each channel is set up by one of the threads. -/
theorem set_up_once_crossing : ∃ s, run masterStep .fresh crossing = some s ∧
    (∃ r, s.rtp .channel1 = [r] ∧ r.inits = [⟨55500, 57400, 1973⟩]) ∧
    ∃ r, s.rtp .channel2 = [r] ∧ r.callBack = true := by
  obtain ⟨s, hrun, hdone⟩ := crossing_run
  have hall : ∀ h ∈ s.handlers, h = .done := by simp [hdone]
  refine ⟨s, hrun, ?_, ?_⟩
  · rcases set_up_once _ s .channel1 hrun crossing_apart hall with ⟨-, hnot⟩ | ⟨sent, hrtp, -⟩
    · exact absurd ⟨_, List.mem_cons_self, groupData, rfl, by decide⟩ hnot
    · exact ⟨_, hrtp, rfl⟩
  · rcases set_up_once _ s .channel2 hrun crossing_apart hall with ⟨-, hnot⟩ | ⟨sent, hrtp, -⟩
    · exact absurd ⟨_, List.mem_cons_of_mem _ List.mem_cons_self, _, rfl, by decide⟩ hnot
    · exact ⟨_, hrtp, rfl⟩

end RTPVoice.MyMasterServer
