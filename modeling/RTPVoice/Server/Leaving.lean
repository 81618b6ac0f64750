import RTPVoice.Server.Hosting

namespace RTPVoice.Server

open Framework Framework.Transition Json ClientObj MyMasterServer MyProtocol SocketWrap FifoQueue

/-! ### The answering thread of an object that goes -/

section Client

variable {lib : Library} {w : StyledWriter} {rand : Nat → Nat → Nat → Nat}
  {clientmap : List SocketParams} {clientfd : HSocket} {c c' : Client} {a : Server.Action}

/-- The answering thread waits for a permit in vain, or has to try `send` again. -/
def Action.Stalls : Server.Action → Prop
  | .timeOut => True
  | .send sent => Retried sent
  | _ => False

instance : DecidablePred Action.Stalls := fun a => by
  unfold Action.Stalls
  split <;> infer_instance

/-- What the answering thread still does when it is told to end, at most, if it is not in front of
parsing a packet: it sends what is left, and takes a packet that it does not parse. -/
def Client.rest (c : Client) : Nat :=
  c.left + (3 - (3 * c.queueData.toList.length + 2 * c.jqueue.passed + c.jqueue.holding))

theorem rest_step (hleft : c.Left) (hplace : InPlace c) (hbacked : Backed c.jqueue)
    (hs : step lib w rand clientmap clientfd c a = some c') (hparse : a ≠ .parse) :
    c'.rest ≤ c.rest ∧ (¬ a.Stalls → c'.rest < c.rest) := by
  have halone := hplace.alone
  cases step_stepsTo hs with
  | turn _ _ hturn => exact absurd (turn_inLoop hturn) (by simp [hleft.outside])
  | store hnext => exact absurd hnext (by simp [hleft.toPush])
  | semPost hq =>
    cases FifoQueue.step_stepsTo hq with
    | semPost hne => exact absurd hleft.posting hne
  | timeOut _ hq =>
    cases FifoQueue.step_stepsTo hq with
    | timeOut => exact ⟨Nat.le_refl _, fun hgoesOn => absurd trivial hgoesOn⟩
  | semWait hwaiting hq =>
    obtain ⟨hholding, hpassed, -, hdata, -⟩ := hwaiting
    cases FifoQueue.step_stepsTo hq with
    | semWait =>
      simp only [Client.rest, Client.left, hholding, hpassed, hdata, Option.toList_none,
        List.length_nil]
      omega
  | test hq =>
    cases FifoQueue.step_stepsTo hq with
    | abandon hholding hempty =>
      -- a permit stands for a packet, so the thread is not sent away at the test
      have hle := hbacked.1
      rw [hempty, List.length_nil] at hle
      omega
    | test hholding =>
      obtain ⟨hdata, -⟩ := hplace.taking (by omega)
      simp only [Client.rest, Client.left, hdata, Option.toList_none, List.length_nil]
      omega
  | pop hq =>
    cases FifoQueue.step_stepsTo hq with
    | pop hpassed =>
      obtain ⟨hdata, -⟩ := hplace.taking (by omega)
      simp only [Client.rest, Client.left, hdata, List.getLast?_append, List.getLast?_singleton,
        Option.some_or, Option.toList_some, Option.toList_none, List.length_singleton,
        List.length_nil]
      omega
  | parse => exact absurd rfl hparse
  | send | sent =>
    obtain ⟨hle, hlt⟩ := left_send hplace hs
    simp only [Client.rest]
    refine ⟨by omega, fun hgoesOn => ?_⟩
    have hless := hlt hgoesOn
    omega

/-- What a packet comes to: the bytes of its answers, and one for the end of each. -/
def Client.answerSize (lib : Library) (w : StyledWriter) (rand : Nat → Nat → Nat → Nat)
    (c : Client) : Nat :=
  match c.queueData.bind fun slot => parsePacket lib w rand [] c.handled c.ctrlr slot with
  | some (_, toSend) => (toSend.map fun m => m.2.length + 1).sum
  | none => 0

/-- A thread that has a packet in hand does nothing but parse it. -/
theorem parse_of_queueData (hleft : c.Left) (hplace : InPlace c) (hdata : c.queueData ≠ none)
    (hs : step lib w rand clientmap clientfd c a = some c') : a = .parse := by
  have htoSend := hplace.parsing hdata
  have hbetween : ¬ 0 < c.jqueue.holding + c.jqueue.passed := fun h =>
    hdata (hplace.taking h).1
  cases step_stepsTo hs with
  | parse => rfl
  | turn _ _ hturn => exact absurd (turn_inLoop hturn) (by simp [hleft.outside])
  | store hnext => exact absurd hnext (by simp [hleft.toPush])
  | semPost hq =>
    cases FifoQueue.step_stepsTo hq with
    | semPost hne => exact absurd hleft.posting hne
  | semWait hwaiting | timeOut hwaiting => exact absurd hwaiting.2.2.2.1 hdata
  | test hq =>
    cases FifoQueue.step_stepsTo hq with
    | abandon hne | test hne => omega
  | pop hq =>
    cases FifoQueue.step_stepsTo hq with
    | pop hne => omega
  | send hnext | sent hnext => exact absurd hnext (by simp [htoSend])

/-- Behind the parsing there is what the packet comes to. -/
theorem parse_rest (hplace : InPlace c)
    (hs : step lib w rand [] clientfd c .parse = some c') :
    c'.rest ≤ c.answerSize lib w rand + 3 ∧ c'.handled = c.handled + 1 := by
  cases step_stepsTo hs with
  | parse hdata hparsed =>
    have hbetween := hplace.between (hplace.parsing (by simp [hdata]))
    refine ⟨?_, rfl⟩
    simp only [Client.rest, Client.left, Client.answerSize, hdata, Option.bind_some, hparsed,
      hbetween, Sending.initial, Option.toList_none, List.length_nil]
    omega

end Client

/-! ### The destructor of an object -/

variable {lib : Library} {w : StyledWriter} {rand : Nat → Nat → Nat → Nat → Nat} {indentSize : Nat}
  {s s' : Host} {a : HostAction} {o : Nat}

/-- A step of an object's threads that is not one of waiting. -/
def HostAction.GoesOn (o : Nat) : HostAction → Prop
  | .client o' b => o' = o ∧ ¬ b.Stalls
  | _ => False

instance : DecidablePred (HostAction.GoesOn o) := fun a => by
  unfold HostAction.GoesOn
  split <;> infer_instance

/-- What an object's answering thread still does behind `SetThreadExitFlag`, at most: a packet that
it has tested the flag for is parsed and answered. -/
def Host.remaining (lib : Library) (w : StyledWriter) (rand : Nat → Nat → Nat → Nat → Nat)
    (s : Host) (o : Nat) : Nat :=
  (s.clients o).rest + if o ∈ s.tested then (s.clients o).answerSize lib w (rand o) + 4 else 0

/-- Every answering thread is in one place, every permit stands for a packet, and a thread behind
its test has one in hand. -/
structure Manned (s : Host) : Prop where
  inPlace : ∀ o, InPlace (s.clients o)
  backed : ∀ o, Backed (s.clients o).jqueue
  tested : ∀ o ∈ s.tested, (s.clients o).queueData ≠ none

theorem manned_started : Manned .started :=
  ⟨fun _ => inPlace_initial, fun _ => backed_fresh, fun _ ho => by cases ho⟩

/-- A packet stays in hand until it is parsed. -/
theorem queueData_step {lib : Library} {rand : Nat → Nat → Nat → Nat}
    {clientmap : List SocketParams} {clientfd : HSocket} {c c' : Client} {b : Server.Action}
    (hs : step lib w rand clientmap clientfd c b = some c') (hparse : b ≠ .parse)
    (hdata : c.queueData ≠ none) : c'.queueData ≠ none := by
  cases step_stepsTo hs with
  | parse => exact absurd rfl hparse
  | pop hq =>
    cases FifoQueue.step_stepsTo hq with
    | pop => simp
  | turn | store | semPost | semWait | timeOut | test | send | sent => exact hdata

theorem manned_step (h : Manned s) (hs : hostStep lib w rand s a = some s') : Manned s' := by
  cases hostStep_stepsTo hs with
  | registry | setThreadExitFlag | join => exact ⟨h.inPlace, h.backed, h.tested⟩
  | testExitFlag _ hpacket =>
    exact ⟨h.inPlace, h.backed, forall_mem_snoc.mpr ⟨h.tested, hpacket⟩⟩
  | @client o p b c _ _ hstep =>
    have hinPlace : InPlace c := inPlace_step (h.inPlace o) hstep
    have hbacked : Backed c.jqueue := by
      rcases jqueue_step hstep with he | ⟨_, hq, -⟩
      · exact he ▸ h.backed o
      · exact backed_step (h.backed o) hq
    refine ⟨fun o' => ?_, fun o' => ?_, fun o' ho' => ?_⟩
    · by_cases ho : o' = o
      · subst ho
        simpa using hinPlace
      · simpa [ho] using h.inPlace o'
    · by_cases ho : o' = o
      · subst ho
        simpa using hbacked
      · simpa [ho] using h.backed o'
    · by_cases hparse : b = .parse
      · subst hparse
        obtain ⟨hmem, hne⟩ := List.mem_filter.mp ho'
        simpa [of_decide_eq_true hne] using h.tested o' hmem
      · have hmem : o' ∈ s.tested := by
          cases b with
          | parse => exact absurd rfl hparse
          | turn | store | semPost | semWait | timeOut | test | pop | send => exact ho'
        by_cases ho : o' = o
        · subst ho
          simpa using queueData_step hstep hparse (h.tested o' hmem)
        · simpa [ho] using h.tested o' hmem

/-- What holds of an object from `SetThreadExitFlag` on; `handled` packets are parsed, or are when
the one is that its thread has tested for. -/
structure Leaving (lib : Library) (w : StyledWriter) (indentSize : Nat) (o handled : Nat)
    (s : Host) : Prop where
  housed : Housed lib w indentSize s
  manned : Manned s
  flagged : o ∈ s.exitFlags
  parsed : (s.clients o).handled + (if o ∈ s.tested then 1 else 0) = handled

theorem behind_of_ne {b : Server.Action} (hparse : b ≠ .parse) (o : Nat) :
    s.behind o b = s.tested := by
  cases b with
  | parse => exact absurd rfl hparse
  | turn | store | semPost | semWait | timeOut | test | pop | send => rfl

theorem mem_behind_of_ne {o' : Nat} {b : Server.Action} (hne : o' ≠ o) :
    o' ∈ s.behind o b ↔ o' ∈ s.tested := by
  cases b with
  | parse => simp [Host.behind, hne]
  | turn | store | semPost | semWait | timeOut | test | pop | send => rfl

theorem leaving_step {handled : Nat} (h : Leaving lib w indentSize o handled s)
    (hs : hostStep lib w rand s a = some s') (hsane : Sane lib w indentSize s a) :
    Leaving lib w indentSize o handled s' ∧ s'.remaining lib w rand o +
      (if decide (a.GoesOn o) then 1 else 0) ≤ s.remaining lib w rand o := by
  have hhoused := housed_step h.housed hs hsane
  have hmanned := manned_step h.manned hs
  cases hostStep_stepsTo hs with
  | registry | join => exact ⟨⟨hhoused, hmanned, h.flagged, h.parsed⟩, Nat.le_refl _⟩
  | setThreadExitFlag =>
    exact ⟨⟨hhoused, hmanned, List.mem_append_left _ h.flagged, h.parsed⟩, Nat.le_refl _⟩
  | @testExitFlag o' hunset =>
    -- the flag of this object is set
    have hne : o ≠ o' := fun he => hunset (he ▸ h.flagged)
    have hmem : o ∈ s.tested ++ [o'] ↔ o ∈ s.tested := by simp [hne]
    refine ⟨⟨hhoused, hmanned, h.flagged, ?_⟩, ?_⟩
    · simpa only [hmem] using h.parsed
    · have hidle : ¬ HostAction.GoesOn o (.testExitFlag o') := id
      simp [Host.remaining, hmem, hidle]
  | @client o' p b c hrunning hobject hstep =>
    by_cases ho : o' = o
    · subst ho
      have hleft := h.housed.deleted_left (h.housed.flagged o' h.flagged)
      have hplace := h.manned.inPlace o'
      by_cases htested : o' ∈ s.tested
      · obtain rfl := parse_of_queueData hleft hplace (h.manned.tested o' htested) hstep
        rw [h.housed.clientStep_eq hobject] at hstep
        obtain ⟨hrest, hhandled⟩ := parse_rest hplace hstep
        have hparsed := h.parsed
        rw [if_pos htested] at hparsed
        refine ⟨⟨hhoused, hmanned, h.flagged, ?_⟩, ?_⟩
        · simp [Host.behind, hhandled, hparsed]
        · simp only [Host.remaining, Host.behind, HostAction.GoesOn, Function.update_self, htested,
            if_true, List.mem_filter]
          simp [Action.Stalls]
          omega
      · have hparse : b ≠ .parse := fun he => htested (hrunning.2 he)
        obtain ⟨hle, hlt⟩ := rest_step hleft hplace (h.manned.backed o') hstep hparse
        have hparsed := h.parsed
        refine ⟨⟨hhoused, hmanned, h.flagged, ?_⟩, ?_⟩
        · simpa [behind_of_ne hparse, handled_step hstep hparse] using hparsed
        · simp only [Host.remaining, behind_of_ne hparse, Function.update_self, if_neg htested]
          by_cases hstalls : b.Stalls
          · simpa [HostAction.GoesOn, hstalls] using hle
          · have hless := hlt hstalls
            simp only [HostAction.GoesOn, hstalls, not_false_eq_true, and_self, decide_true,
              if_true]
            omega
    · have hmem := mem_behind_of_ne (s := s) (b := b) (Ne.symm ho)
      refine ⟨⟨hhoused, hmanned, h.flagged, ?_⟩, ?_⟩
      · simpa [Ne.symm ho, hmem] using h.parsed
      · simp [Host.remaining, HostAction.GoesOn, ho, Ne.symm ho, hmem]

/-- The packet that the object's thread has tested the flag for, if it has, can be parsed: nothing
throws, and the answers fit their fragments. -/
def Host.CanParse (lib : Library) (w : StyledWriter) (rand : Nat → Nat → Nat → Nat → Nat) (s : Host)
    (o : Nat) : Prop :=
  o ∈ s.tested → ∀ slot ∈ (s.clients o).queueData,
    (parsePacket lib w (rand o) [] (s.clients o).handled (s.clients o).ctrlr slot).isSome

/-- Until the object's threads have ended one of them can go on. -/
theorem leaving_goesOn {handled : Nat} (h : Leaving lib w indentSize o handled s)
    (ho : s.destroying = some o) (hcan : s.CanParse lib w rand o) :
    ∃ a s', hostStep lib w rand s a = some s' ∧ (a = .join ∨ a.GoesOn o) := by
  have hplace := h.manned.inPlace o
  have hbacked := h.manned.backed o
  obtain ⟨p, hobject⟩ : ∃ p, s.registry.objects[o]? = some p :=
    ⟨_, List.getElem?_eq_getElem (h.housed.deleted_lt (h.housed.destroying o ho))⟩
  have hgoesOn {b : Server.Action} (hb : b = .parse → o ∈ s.tested) (hstalls : ¬ b.Stalls)
      (hs : ∃ c, clientStep lib w rand s o p b = some c) :
      ∃ a s', hostStep lib w rand s a = some s' ∧ (a = .join ∨ a.GoesOn o) := by
    obtain ⟨c, hs⟩ := hs
    exact ⟨_, _, hostStep_client ⟨fun _ => ho, hb⟩ hobject hs, .inr ⟨rfl, hstalls⟩⟩
  -- wherever the thread is, short of its look at the flag, it has a step
  by_cases htested : o ∈ s.tested
  · obtain ⟨slot, hdata⟩ := Option.ne_none_iff_exists'.mp (h.manned.tested o htested)
    obtain ⟨parsed, hparsed⟩ := Option.isSome_iff_exists.mp (hcan htested slot hdata)
    have hs : ∃ c, clientStep lib w rand s o p .parse = some c := by
      rw [h.housed.clientStep_eq hobject, step, hdata, Option.bind_eq_bind, Option.bind_some,
        hparsed]
      exact ⟨_, rfl⟩
    exact hgoesOn (fun _ => htested) (by simp [Action.Stalls]) hs
  by_cases hnext : (s.clients o).toSend ≠ []
  · exact hgoesOn (by simp) (by simp [Action.Stalls, Retried]) (sends hplace hnext)
  by_cases hholding : (s.clients o).jqueue.holding ≠ 0
  · exact hgoesOn (by simp) (by simp [Action.Stalls]) (tests hbacked hholding)
  by_cases hpassed : (s.clients o).jqueue.passed ≠ 0
  · have hshape := (h.housed.owned o p hobject).headed.toShape
    exact hgoesOn (by simp) (by simp [Action.Stalls]) (pops hshape hbacked hpassed)
  push Not at hnext hholding hpassed
  have hs : hostStep lib w rand s .join = some { s with destroying := none } := by
    rw [hostStep, ho, Option.bind_eq_bind, Option.bind_some,
      if_pos ⟨h.flagged, ⟨hnext, hholding, hpassed⟩, htested⟩]
  exact ⟨_, _, hs, .inl rfl⟩

theorem run_manned {actions : List HostAction}
    (hrun : run (hostStep lib w rand) .started actions = some s)
    (hsane : Throughout (hostStep lib w rand) (fun s₁ a _ => Sane lib w indentSize s₁ a) .started
      actions) : Housed lib w indentSize s ∧ Manned s := by
  refine throughout_invariant (I := fun s₁ => Housed lib w indentSize s₁ ∧ Manned s₁)
    ⟨(hosted_started : Hosted lib w rand indentSize _).toHoused, manned_started⟩ ?_ hrun hsane
  exact fun _ _ _ _ hI hs hP => ⟨housed_step hI.1 hs hP, manned_step hI.2 hs⟩

/-- Once `SetThreadExitFlag` is called in a destructor, the destructor ends if `send` has not to be
tried again for ever: however all threads of the server interleave, the object's threads take only
so many steps more, parse at most the one packet that was tested for before, and until they have
ended one of them has a step to take, unless that packet cannot be parsed. -/
theorem client_destructor_ends (lib : Library) (w : StyledWriter)
    (rand : Nat → Nat → Nat → Nat → Nat) (indentSize : Nat) (actions more : List HostAction)
    (s s' : Host) (o : Nat)
    (hrun : run (hostStep lib w rand) .started actions = some s)
    (hsane : Throughout (hostStep lib w rand) (fun s₁ a _ => Sane lib w indentSize s₁ a) .started
      actions)
    (hflag : o ∈ s.exitFlags) (hmore : run (hostStep lib w rand) s more = some s')
    (hsane' : Throughout (hostStep lib w rand) (fun s₁ a _ => Sane lib w indentSize s₁ a) s more) :
    more.countP (fun a => a.GoesOn o) + s'.remaining lib w rand o ≤ s.remaining lib w rand o ∧
    (s'.clients o).handled + (if o ∈ s'.tested then 1 else 0) =
      (s.clients o).handled + (if o ∈ s.tested then 1 else 0) ∧
    (s'.destroying = some o → s'.CanParse lib w rand o →
      ∃ a s'', hostStep lib w rand s' a = some s'' ∧ (a = .join ∨ a.GoesOn o)) := by
  have hkept := run_manned hrun hsane
  obtain ⟨h, hle⟩ := run_countP (I := Leaving lib w indentSize o
      ((s.clients o).handled + (if o ∈ s.tested then 1 else 0)))
    (fun a : HostAction => decide (a.GoesOn o)) (fun s₁ => s₁.remaining lib w rand o)
    (fun _ _ _ hI hs hP => leaving_step hI hs hP) ⟨hkept.1, hkept.2, hflag, rfl⟩ hmore hsane'
  exact ⟨hle, h.parsed, leaving_goesOn h⟩

/-- The client goes away when its request is in the answering thread's hand: the thread is behind
its test of the flag, parses the request behind `SetThreadExitFlag`, and goes on. -/
theorem client_destructor_ends_tested : ∃ s s', hostQueryStep s (.client 0 .parse) = some s' ∧
    s.destroying = some 0 ∧ 0 ∈ s.exitFlags ∧ (s.clients 0).queueData ≠ none ∧
    (s'.clients 0).handled = (s.clients 0).handled + 1 ∧
    ∃ a s'', hostQueryStep s' a = some s'' ∧ (a = .join ∨ a.GoesOn 0) := by
  obtain ⟨_, c, hrun, hsmooth, hin, hhanded, htoPush, hposting, slot, parsed, hslot, hparsed⟩ :=
    query_taken
  obtain ⟨_, r, hleft, hfits, hout, -⟩ := query_left hrun hsmooth hhanded hin htoPush hposting
  obtain ⟨actions, s₀, s₁, hrun, htidy, hrecover, hdestroying, hflags, -, hobject, -, -, hclient⟩ :=
    closed_run hleft hfits ⟨hout, rfl, hposting⟩
  have hdata : (s₁.clients 0).queueData ≠ none := by simp [hclient, hslot]
  -- the thread tests the flag, if it has not yet
  obtain ⟨first, tested, hfirst, hsane₁, hmem⟩ : ∃ first tested,
      run hostQueryStep s₁ first = some { s₁ with tested } ∧
      Throughout hostQueryStep (fun t a _ => Sane queryLibrary asciiWriter 3 t a) s₁ first ∧
      0 ∈ tested := by
    by_cases hmem : 0 ∈ s₁.tested
    · exact ⟨[], _, rfl, throughout_nil _ _, hmem⟩
    · have htest : hostQueryStep s₁ (.testExitFlag 0) =
          some { s₁ with tested := s₁.tested ++ [0] } := if_pos ⟨by simp [hflags], hmem, hdata⟩
      refine ⟨[.testExitFlag 0], _, by rw [run_cons, htest, Option.bind_some, run_nil], ?_,
        List.mem_append_right _ (List.mem_singleton_self 0)⟩
      exact (throughout_cons htest).mpr ⟨⟨by simp, by simp⟩, throughout_nil _ _⟩
  let s₂ : Host := { s₁ with tested }
  let s : Host := { s₂ with exitFlags := s₂.exitFlags ++ [0] }
  have hset : hostQueryStep s₂ .setThreadExitFlag = some s := by
    simp [hostQueryStep, hostStep, hdestroying, hflags, s₂, s]
  have hflag : 0 ∈ s.exitFlags := List.mem_append_right _ (List.mem_singleton_self 0)
  have hall : run hostQueryStep .started
      (actions ++ .registry .recover :: (first ++ [.setThreadExitFlag])) = some s := by
    rw [run_append, hrun, Option.bind_some, run_cons, hrecover, Option.bind_some, run_append,
      hfirst, Option.bind_some, run_cons, hset, Option.bind_some, run_nil]
  have hsane : Throughout hostQueryStep (fun t a _ => Sane queryLibrary asciiWriter 3 t a) .started
      (actions ++ .registry .recover :: (first ++ [.setThreadExitFlag])) := by
    refine (throughout_append hrun).mpr
      ⟨fun pre a post he t t' h h' => (htidy pre a post he t t' h h').toSane, ?_⟩
    refine (throughout_cons hrecover).mpr ⟨⟨by simp, by simp⟩, ?_⟩
    refine (throughout_append hfirst).mpr ⟨hsane₁, ?_⟩
    exact (throughout_cons hset).mpr ⟨⟨by simp, by simp⟩, throughout_nil _ _⟩
  obtain ⟨hhoused, -⟩ := run_manned hall hsane
  obtain ⟨c', hc'⟩ : ∃ c', clientStep queryLibrary asciiWriter (fun _ _ _ _ => 0) s 0 ⟨300, 0⟩
      .parse = some c' := by
    rw [hhoused.clientStep_eq hobject, show s.clients 0 = _ from hclient]
    simp only [step, hslot, hparsed, Option.bind_eq_bind, Option.bind_some]
    exact ⟨_, rfl⟩
  let s' : Host := { s with
    clients := Function.update s.clients 0 c'
    tested := s.behind 0 .parse }
  have hparse : hostQueryStep s (.client 0 .parse) = some s' :=
    hostStep_client (s := s) ⟨fun _ => hdestroying, fun _ => hmem⟩ hobject hc'
  have hmore : run hostQueryStep s [.client 0 .parse] = some s' := by
    rw [run_cons, hparse, Option.bind_some, run_nil]
  obtain ⟨-, hhandled, hgoesOn⟩ := client_destructor_ends queryLibrary asciiWriter
    (fun _ _ _ _ => 0) 3 _ [.client 0 .parse] s s' 0 hall hsane hflag hmore
    ((throughout_cons hparse).mpr ⟨⟨by simp, by simp [Client.FitsSlot]⟩, throughout_nil _ _⟩)
  have hbehind : 0 ∉ s'.tested := by simp [s', Host.behind]
  rw [if_neg hbehind, if_pos (show 0 ∈ s.tested from hmem)] at hhandled
  exact ⟨s, s', hparse, hdestroying, hflag, hdata, hhandled,
    hgoesOn hdestroying fun h => absurd h hbehind⟩

end RTPVoice.Server
