import RTPVoice.Framework.Interleaving
import RTPVoice.MyProtocol.Recovery
import RTPVoice.Server.Host
import RTPVoice.Server.Isolation

namespace RTPVoice.Server

open Framework Framework.Transition Framework.Interleaving Json ClientObj MyMasterServer MyProtocol
  SocketWrap FifoQueue

/-! ### One client -/

section Client

variable {lib : Library} {w : StyledWriter} {rand : Nat → Nat → Nat → Nat} {indentSize : Nat}
  {clientmap : List SocketParams} {clientfd : HSocket} {c c' : Client} {a : Server.Action}

theorem sendDataToTheThirdParty_clientmap (clientmap clientmap' : List SocketParams)
    (hne : clientfd ≠ 0) (buff : List UInt8) :
    sendDataToTheThirdParty clientfd buff clientmap =
      sendDataToTheThirdParty clientfd buff clientmap' := by
  simp only [sendDataToTheThirdParty, if_neg hne]

theorem outgoing_clientmap (clientmap clientmap' : List SocketParams) (hne : clientfd ≠ 0)
    {composed : List (HSocket × Value)} (hdst : ∀ m ∈ composed, m.1 = clientfd) :
    outgoing w clientmap composed = outgoing w clientmap' composed := by
  unfold outgoing
  congr 1
  induction composed with
  | nil => rfl
  | cons m composed ih =>
    obtain ⟨hm, hrest⟩ := List.forall_mem_cons.mp hdst
    rw [List.mapM_cons, List.mapM_cons, ih hrest, hm,
      sendDataToTheThirdParty_clientmap clientmap clientmap' hne]

/-- Only a message for handle zero goes to all clients of the map. -/
theorem step_clientmap (clientmap clientmap' : List SocketParams)
    (hset : Setting lib w indentSize clientfd) (h : Owned clientfd c) :
    step lib w rand clientmap clientfd c a = step lib w rand clientmap' clientfd c a := by
  cases a with
  | parse =>
    simp only [step]
    refine Option.bind_congr fun slot hslot => ?_
    congr 1
    simp only [parsePacket]
    refine Option.bind_congr fun took htake => ?_
    rw [outgoing_clientmap clientmap clientmap' hset.ne_zero
      (composed_dst hset (h.taken slot hslot) htake)]
  | turn | store | semPost | semWait | timeOut | test | pop | send => rfl

/-- Whatever its threads still do, the client is sent nothing. -/
def Settled (lib : Library) (w : StyledWriter) (rand : Nat → Nat → Nat → Nat) (clientfd : HSocket)
    (c : Client) : Prop :=
  ∀ actions c', run (step lib w rand [] clientfd) c actions = some c' → c'.toSend = []

theorem Settled.toSend (h : Settled lib w rand clientfd c) : c.toSend = [] := h [] c rfl

theorem Settled.step (h : Settled lib w rand clientfd c)
    (hs : step lib w rand [] clientfd c a = some c') : Settled lib w rand clientfd c' := by
  intro actions c'' hrun
  refine h (a :: actions) c'' ?_
  rw [run_cons, hs, Option.bind_some, hrun]

/-- Behind its loop the reading thread takes no steps, and so it stays. -/
theorem left_step (h : c.Left) (hs : step lib w rand clientmap clientfd c a = some c') :
    c'.Left := by
  obtain ⟨houtside, htoPush, hposting⟩ := h
  cases step_stepsTo hs with
  | turn _ _ hturn => exact absurd (turn_inLoop hturn) (by simp [houtside])
  | store hnext => exact absurd hnext (by simp [htoPush])
  | semPost hpost => cases FifoQueue.step_stepsTo hpost with
    | semPost hne => exact absurd hposting hne
  | semWait _ hq => cases FifoQueue.step_stepsTo hq with
    | semWait => exact ⟨houtside, htoPush, hposting⟩
  | timeOut _ hq => cases FifoQueue.step_stepsTo hq with
    | timeOut => exact ⟨houtside, htoPush, hposting⟩
  | test hq => cases FifoQueue.step_stepsTo hq with
    | abandon | test => exact ⟨houtside, htoPush, hposting⟩
  | pop hq => cases FifoQueue.step_stepsTo hq with
    | pop => exact ⟨houtside, htoPush, hposting⟩
  | parse | send | sent => exact ⟨houtside, htoPush, hposting⟩

/-- A client that waits for all its answers before it leaves is settled. -/
theorem Client.Left.settled (h : c.Left) (hquiet : c.Quiet) :
    Settled lib w rand clientfd c := by
  intro actions c' hrun
  have hend : c'.Left ∧ c'.Quiet := by
    refine run_invariant (I := fun c₁ => c₁.Left ∧ c₁.Quiet) ⟨h, hquiet⟩
      (fun c₁ b c₂ _ hI hs => ?_) hrun
    obtain ⟨hleft, htoPush, hposting, hsem, hholding, hpassed, habandoned, hdata, htoSend⟩ := hI
    refine ⟨left_step hleft hs, ?_⟩
    cases step_stepsTo hs with
    | turn _ _ hturn => exact absurd (turn_inLoop hturn) (by simp [hleft.outside])
    | store hnext => exact absurd hnext (by simp [htoPush])
    | semPost hq => cases FifoQueue.step_stepsTo hq with
      | semPost hne => exact absurd hposting hne
    | semWait _ hq => cases FifoQueue.step_stepsTo hq with
      | semWait hne => exact absurd hsem hne
    | timeOut _ hq => cases FifoQueue.step_stepsTo hq with
      | timeOut => exact ⟨htoPush, hposting, hsem, hholding, hpassed, habandoned, hdata, htoSend⟩
    | test hq => cases FifoQueue.step_stepsTo hq with
      | abandon hne | test hne => exact absurd hholding hne
    | pop hq => cases FifoQueue.step_stepsTo hq with
      | pop hne => exact absurd hpassed hne
    | parse hslot => exact absurd hslot (by simp [hdata])
    | send hnext | sent hnext => exact absurd hnext (by simp [htoSend])
  exact hend.2.2.2.2.2.2.2.2

theorem Client.Left.fitsSlot (h : c.Left) (a : Server.Action) : c.FitsSlot a := by
  intro _ packet hmem
  rw [h.toPush] at hmem
  cases hmem

end Client

/-! ### The server -/

/-- What a step adds to the clients, notices and deletions of the registry. -/
structure Grows (s : MyProtocol.Server) (a : MyProtocol.Action) (s' : MyProtocol.Server) :
    Prop where
  objects : ∀ o p, s'.objects[o]? = some p →
    s.objects[o]? = some p ∨ o = s.objects.length ∧ p ∈ s.accepted
  objects_grow : s.objects <+: s'.objects
  accepted : ∀ p ∈ s'.accepted, p ∈ s.accepted ∨ a = .accept p
  exited : ∀ o ∈ s'.exited, o ∈ s.exited ∨ a = .readerExit o
  deleted : ∀ o ∈ s'.deleted, o ∈ s.deleted ∨
    s'.deleted[s.deleted.length]? = some o ∧ s'.objects = s.objects
  deleted_grow : s.deleted <+: s'.deleted

theorem grows_of_same {s s' : MyProtocol.Server} {a : MyProtocol.Action}
    (hobjects : s'.objects = s.objects)
    (haccepted : ∀ p ∈ s'.accepted, p ∈ s.accepted ∨ a = .accept p)
    (hexited : ∀ o ∈ s'.exited, o ∈ s.exited ∨ a = .readerExit o)
    (hdeleted : s'.deleted = s.deleted) : Grows s a s' where
  objects _ _ h := .inl (hobjects ▸ h)
  objects_grow := hobjects ▸ List.prefix_rfl
  accepted := haccepted
  exited := hexited
  deleted _ ho := .inl (hdeleted ▸ ho)
  deleted_grow := hdeleted ▸ List.prefix_rfl

theorem createListenThread_lists (s : MyProtocol.Server) :
    s.createListenThread.objects = s.objects ∧ s.createListenThread.accepted = s.accepted ∧
      s.createListenThread.exited = s.exited ∧ s.createListenThread.deleted = s.deleted ∧
      s.createListenThread.openFds = s.openFds := by
  unfold MyProtocol.Server.createListenThread
  split <;> exact ⟨rfl, rfl, rfl, rfl, rfl⟩

theorem step_grows {s s' : MyProtocol.Server} {a : MyProtocol.Action}
    (h : MyProtocol.step s a = some s') : Grows s a s' := by
  cases MyProtocol.step_stepsTo h with
  | accept p =>
    obtain ⟨hobjects, haccepted, hexited, hdeleted, -⟩ := createListenThread_lists
      { s with
        listening := s.listening - 1
        openFds := s.openFds ++ [p.socketFd]
        accepted := s.accepted ++ [p] }
    refine grows_of_same hobjects (fun q hq => ?_) (fun o ho => .inl (hexited ▸ ho)) hdeleted
    rw [MyProtocol.Server.accept, haccepted, List.mem_append, List.mem_singleton] at hq
    exact hq.imp_right (congrArg MyProtocol.Action.accept ·.symm)
  | acceptFail =>
    obtain ⟨hobjects, haccepted, hexited, hdeleted, -⟩ := createListenThread_lists
      { s with listening := s.listening - 1 }
    exact grows_of_same hobjects (fun q hq => .inl (haccepted ▸ hq))
      (fun o ho => .inl (hexited ▸ ho)) hdeleted
  | construct p hp =>
    unfold MyProtocol.Server.construct
    split
    · refine ⟨fun o q hq => ?_, List.prefix_append _ _, fun q hq => .inl (List.mem_of_mem_erase hq),
        fun o ho => .inl ho, fun o ho => .inl ho, List.prefix_rfl⟩
      rcases getElem?_snoc.mp hq with hold | ⟨rfl, rfl⟩
      · exact .inl hold
      · exact .inr ⟨rfl, hp⟩
    · exact grows_of_same rfl (fun q hq => .inl (List.mem_of_mem_erase hq))
        (fun o ho => .inl ho) rfl
  | insert o p => exact grows_of_same rfl (fun q hq => .inl hq) (fun o ho => .inl ho) rfl
  | readerExit o p =>
    refine grows_of_same rfl (fun q hq => .inl hq) (fun o' ho => ?_) rfl
    rw [MyProtocol.Server.notify, List.mem_append, List.mem_singleton] at ho
    exact ho.imp_right (congrArg MyProtocol.Action.readerExit ·.symm)
  | dequeue n rest => exact grows_of_same rfl (fun q hq => .inl hq) (fun o ho => .inl ho) rfl
  | recover n =>
    unfold MyProtocol.Server.recover
    split
    · exact grows_of_same rfl (fun q hq => .inl hq) (fun o ho => .inl ho) rfl
    · refine ⟨fun o q hq => .inl hq, List.prefix_rfl, fun q hq => .inl hq, fun o ho => .inl ho,
        fun o ho => ?_, List.prefix_append _ _⟩
      rw [List.mem_append, List.mem_singleton] at ho
      refine ho.imp_right fun he => ?_
      rw [he]
      exact ⟨List.getElem?_concat_length, rfl⟩

section Hosted

variable (lib : Library) (w : StyledWriter) (rand : Nat → Nat → Nat → Nat → Nat) (indentSize : Nat)

/-- Handles are those whose four characters are read back, and packets fit their slots. -/
structure Sane (s : Host) (a : HostAction) : Prop where
  handle : ∀ p, a = .registry (.accept p) → Setting lib w indentSize p.socketFd
  fits : ∀ o b, a = .client o b → (s.clients o).FitsSlot b

/-- When the destructor of an object is entered there is nothing left for it to send. -/
structure Tidy (s : Host) (a : HostAction) (s' : Host) : Prop extends
    Sane lib w indentSize s a where
  settled : ∀ o p, s.begun s'.registry = some o → s.registry.objects[o]? = some p →
    Settled lib w (rand o) p.socketFd (s.clients o)

/-- What holds of the server in every sane run. -/
structure Housed (s : Host) : Prop where
  sound : Sound s.registry
  accepted : ∀ p ∈ s.registry.accepted, Setting lib w indentSize p.socketFd
  objects : ∀ (o : Nat) (p : SocketParams), s.registry.objects[o]? = some p →
    Setting lib w indentSize p.socketFd
  owned : ∀ (o : Nat) (p : SocketParams), s.registry.objects[o]? = some p →
    Owned p.socketFd (s.clients o)
  unborn : ∀ o, s.registry.objects.length ≤ o → s.clients o = .initial
  left : ∀ o ∈ s.registry.exited, (s.clients o).Left
  flagged : ∀ o ∈ s.exitFlags, o ∈ s.registry.deleted
  destroying : ∀ o, s.destroying = some o → o ∈ s.registry.deleted

/-- What holds of it in every tidy run. -/
structure Hosted (s : Host) : Prop extends Housed lib w indentSize s where
  settled : ∀ o ∈ s.registry.deleted, ∀ p, s.registry.objects[o]? = some p →
    Settled lib w (rand o) p.socketFd (s.clients o)

end Hosted

variable {lib : Library} {w : StyledWriter} {rand : Nat → Nat → Nat → Nat → Nat} {indentSize : Nat}
  {s s' : Host} {a : HostAction} {o : Nat} {p : SocketParams} {c : Client}

theorem hosted_started : Hosted lib w rand indentSize .started where
  sound := sound_started
  accepted _ h := absurd h List.not_mem_nil
  objects _ _ h := by cases h
  owned _ _ h := by cases h
  unborn _ _ := rfl
  left _ h := absurd h List.not_mem_nil
  flagged _ h := absurd h List.not_mem_nil
  destroying _ h := by cases h
  settled _ h := absurd h List.not_mem_nil

namespace Housed

variable (h : Housed lib w indentSize s)
include h

theorem clientStep_eq (hobject : s.registry.objects[o]? = some p) (a : Server.Action) :
    clientStep lib w rand s o p a = step lib w (rand o) [] p.socketFd (s.clients o) a :=
  step_clientmap _ [] (h.objects o p hobject) (h.owned o p hobject)

theorem deleted_lt (ho : o ∈ s.registry.deleted) : o < s.registry.objects.length :=
  h.sound.exited_lt o (h.sound.handled_exited o (h.sound.deleted_handled o ho))

theorem deleted_left (ho : o ∈ s.registry.deleted) : (s.clients o).Left :=
  h.left o (h.sound.handled_exited o (h.sound.deleted_handled o ho))

/-- A step of the threads that accept, register and recover. -/
theorem registry_step {b : MyProtocol.Action} {registry : MyProtocol.Server} (hready : s.Ready b)
    (hstep : MyProtocol.step s.registry b = some registry)
    (hsane : Sane lib w indentSize s (.registry b)) :
    Housed lib w indentSize
      { s with registry, destroying := (s.begun registry).or s.destroying } := by
  have hgrows := step_grows hstep
  refine ⟨sound_step h.sound hstep, fun p hp => ?_, fun o p hp => ?_, fun o p hp => ?_,
    fun o ho => ?_, fun o ho => ?_, fun o ho => ?_, fun o ho => ?_⟩
  · rcases hgrows.accepted p hp with hold | rfl
    · exact h.accepted p hold
    · exact hsane.handle p rfl
  · rcases hgrows.objects o p hp with hold | ⟨-, hnew⟩
    · exact h.objects o p hold
    · exact h.accepted p hnew
  · rcases hgrows.objects o p hp with hold | ⟨rfl, -⟩
    · exact h.owned o p hold
    · -- the object is new
      dsimp only
      rw [h.unborn _ (Nat.le_refl _)]
      exact owned_initial
  · exact h.unborn o (hgrows.objects_grow.length_le.trans ho)
  · rcases hgrows.exited o ho with hold | rfl
    · exact h.left o hold
    · exact hready
  · exact hgrows.deleted_grow.subset (h.flagged o ho)
  · rcases Option.or_eq_some_iff.mp ho with hnew | ⟨-, hold⟩
    · exact List.mem_of_getElem? hnew
    · exact hgrows.deleted_grow.subset (h.destroying o hold)

/-- A step of the two threads of an object. -/
theorem client_step {b : Server.Action} (tested : List Nat)
    (hobject : s.registry.objects[o]? = some p)
    (hstep : clientStep lib w rand s o p b = some c) (hfits : (s.clients o).FitsSlot b) :
    Housed lib w indentSize { s with clients := Function.update s.clients o c, tested } := by
  have hset := h.objects o p hobject
  have hlt : o < s.registry.objects.length := (List.getElem?_eq_some_iff.mp hobject).1
  refine { h with
    owned := fun o' p' hobject' => ?_
    unborn := fun o' ho' => ?_
    left := fun o' ho' => ?_ }
  · by_cases he : o' = o
    · subst he
      obtain rfl := Option.some.inj (hobject.symm.trans hobject')
      simpa using owned_step hset (h.owned o' p hobject) hfits hstep
    · simpa [he] using h.owned o' p' hobject'
  · have hne : o' ≠ o := (hlt.trans_le ho').ne'
    simpa [hne] using h.unborn o' ho'
  · by_cases he : o' = o
    · subst he
      simpa using left_step (h.left o' ho') hstep
    · simpa [he] using h.left o' ho'

end Housed

theorem housed_step (h : Housed lib w indentSize s) (hs : hostStep lib w rand s a = some s')
    (hsane : Sane lib w indentSize s a) : Housed lib w indentSize s' := by
  cases hostStep_stepsTo hs with
  | registry hready hstep => exact h.registry_step hready hstep hsane
  | client _ hobject hstep => exact h.client_step _ hobject hstep (hsane.fits _ _ rfl)
  | testExitFlag => exact { h with }
  | setThreadExitFlag hdestroying =>
    exact { h with flagged := forall_mem_snoc.mpr ⟨h.flagged, h.destroying _ hdestroying⟩ }
  | join => exact { h with destroying := fun o ho => by cases ho }

theorem hosted_step (h : Hosted lib w rand indentSize s) (hs : hostStep lib w rand s a = some s')
    (htidy : Tidy lib w rand indentSize s a s') : Hosted lib w rand indentSize s' := by
  refine ⟨housed_step h.toHoused hs htidy.toSane, fun o ho p hp => ?_⟩
  cases hostStep_stepsTo hs with
  | registry hready hstep =>
    have hgrows := step_grows hstep
    rcases hgrows.deleted o ho with hold | ⟨hnew, hsame⟩
    · rcases hgrows.objects o p hp with hobject | ⟨rfl, -⟩
      · exact h.settled o hold p hobject
      · exact absurd (h.deleted_lt hold) (Nat.lt_irrefl _)
    · exact htidy.settled o p hnew (hsame ▸ hp)
  | @client o' p' b c running hobject hstep =>
    by_cases he : o = o'
    · subst he
      obtain rfl := Option.some.inj (hobject.symm.trans hp)
      rw [h.clientStep_eq hobject] at hstep
      simpa using (h.settled o ho p' hobject).step hstep
    · simpa [he] using h.settled o ho p hp
  | testExitFlag | setThreadExitFlag | join => exact h.settled o ho p hp

/-- Only the recovery thread enters destructors. -/
theorem registry_deleted {b : MyProtocol.Action}
    (hs : hostStep lib w rand s (.registry b) = some s') (hb : b ≠ .recover) :
    s'.registry.deleted = s.registry.deleted := by
  cases hostStep_stepsTo hs with
  | registry _ hstep =>
    cases MyProtocol.step_stepsTo hstep with
    | accept | acceptFail => exact (createListenThread_lists _).2.2.2.1
    | construct p =>
      simp only [MyProtocol.Server.construct]
      split <;> rfl
    | insert | readerExit | dequeue => rfl
    | recover => exact absurd rfl hb

theorem tidy_registry {b : MyProtocol.Action} (hs : hostStep lib w rand s (.registry b) = some s')
    (hb : b ≠ .recover) (hhandle : ∀ p, b = .accept p → Setting lib w indentSize p.socketFd) :
    Tidy lib w rand indentSize s (.registry b) s' := by
  refine ⟨⟨fun p he => ?_, fun o b' he => (by cases he)⟩, fun o p he => ?_⟩
  · cases he
    exact hhandle p rfl
  · rw [Host.begun, registry_deleted hs hb] at he
    simp at he

theorem run_hosted {s₀ : Host} {actions : List HostAction}
    (h : Hosted lib w rand indentSize s₀) (hrun : run (hostStep lib w rand) s₀ actions = some s)
    (htidy : Throughout (hostStep lib w rand) (Tidy lib w rand indentSize) s₀ actions) :
    Hosted lib w rand indentSize s :=
  throughout_invariant h (fun _ _ _ _ h hs htidy => hosted_step h hs htidy) hrun htidy

/-! ### Whom a message reaches -/

/-- The next message of an object's thread goes to a handle that is open, and not, or no longer, the
handle of the object's connection. -/
def Host.Astray (s : Host) : Prop :=
  ∃ o, ∃ m ∈ (s.clients o).toSend.head?, m.1 ∈ s.registry.openFds ∧
    ∀ p, s.registry.Alive o p → p.socketFd ≠ m.1

theorem Hosted.not_astray (h : Hosted lib w rand indentSize s) : ¬ s.Astray := by
  rintro ⟨o, m, hm, -, hnone⟩
  have hmem := List.mem_of_head? hm
  have hlt : o < s.registry.objects.length := by
    by_contra hge
    rw [h.unborn o (Nat.le_of_not_lt hge)] at hmem
    cases hmem
  have hobject := List.getElem?_eq_getElem hlt
  by_cases hdeleted : o ∈ s.registry.deleted
  · rw [(h.settled o hdeleted _ hobject).toSend] at hmem
    cases hmem
  · refine hnone _ ⟨hobject, hdeleted⟩ ?_
    exact ((h.owned o _ hobject).messages m (List.mem_append_right _ hmem)).symm

/-! ### An object's threads alone -/

theorem Client.Left.fitsSlots {clientmap : List SocketParams} {rand : Nat → Nat → Nat → Nat}
    {clientfd : HSocket} (h : c.Left) (actions : List Server.Action) :
    Throughout (step lib w rand clientmap clientfd) (fun c₁ b _ => c₁.FitsSlot b) c actions :=
  throughout_of_invariant h (fun _ b _ h hs => ⟨left_step h hs, h.fitsSlot b⟩) actions

theorem tidy_client (b : Server.Action) (hfits : (s.clients o).FitsSlot b) (tested : List Nat) :
    Tidy lib w rand indentSize s (.client o b)
      { s with clients := Function.update s.clients o c, tested } := by
  refine ⟨⟨fun q he => (by cases he), fun o' b' he => ?_⟩, fun o' q he => ?_⟩
  · cases he
    exact hfits
  · simp [Host.begun] at he

theorem tidy_testExitFlag (tested : List Nat) :
    Tidy lib w rand indentSize s (.testExitFlag o) { s with tested } := by
  refine ⟨⟨fun q he => (by cases he), fun o' b' he => (by cases he)⟩, fun o' q he => ?_⟩
  simp [Host.begun] at he

/-- What is true of a step of the server, and of an object's threads if it is theirs. -/
def Along (lib : Library) (w : StyledWriter) (rand : Nat → Nat → Nat → Nat → Nat) (indentSize : Nat)
    (o : Nat) (P : Client → Server.Action → Client → Prop) (s : Host) (a : HostAction)
    (s' : Host) : Prop :=
  Tidy lib w rand indentSize s a s' ∧ ∀ b, a = .client o b → P (s.clients o) b (s'.clients o)

section Alone

variable {P : Client → Server.Action → Client → Prop} {b : Server.Action}

/-- A step of an object's threads alone is one in the server. -/
theorem Housed.along_client (rand : Nat → Nat → Nat → Nat → Nat) (h : Housed lib w indentSize s)
    (hobject : s.registry.objects[o]? = some p) (hflag : o ∉ s.exitFlags)
    (hparse : b = .parse → o ∈ s.tested)
    (hs : step lib w (rand o) [] p.socketFd (s.clients o) b = some c)
    (hfits : (s.clients o).FitsSlot b) (hP : P (s.clients o) b c) :
    hostStep lib w rand s (.client o b) =
        some { s with clients := Function.update s.clients o c, tested := s.behind o b } ∧
      Along lib w rand indentSize o P s (.client o b)
        { s with clients := Function.update s.clients o c, tested := s.behind o b } := by
  have hclient : clientStep lib w rand s o p b = some c := (h.clientStep_eq hobject b).trans hs
  refine ⟨hostStep_client ⟨fun hmem => absurd hmem hflag, hparse⟩ hobject hclient,
    tidy_client b hfits _, fun b' he => ?_⟩
  cases he
  simpa using hP

/-- In front of a packet that is parsed is the test of the exit flag. -/
theorem Housed.along_alone (rand : Nat → Nat → Nat → Nat → Nat) (h : Housed lib w indentSize s)
    (hobject : s.registry.objects[o]? = some p) (hflag : o ∉ s.exitFlags)
    (hs : step lib w (rand o) [] p.socketFd (s.clients o) b = some c)
    (hfits : (s.clients o).FitsSlot b) (hP : P (s.clients o) b c) :
    ∃ first tested, run (hostStep lib w rand) s first =
        some { s with clients := Function.update s.clients o c, tested } ∧
      Throughout (hostStep lib w rand) (Along lib w rand indentSize o P) s first := by
  by_cases hparse : b = .parse → o ∈ s.tested
  · obtain ⟨hstep, halong⟩ := h.along_client rand hobject hflag hparse hs hfits hP
    refine ⟨[.client o b], _, by rw [run_cons, hstep, Option.bind_some, run_nil], ?_⟩
    exact (throughout_cons hstep).mpr ⟨halong, throughout_nil _ _⟩
  · obtain ⟨rfl, huntested⟩ := Classical.not_imp.mp hparse
    obtain ⟨slot, hdata, -⟩ := Option.bind_eq_some_iff.mp hs
    let s₁ : Host := { s with tested := s.tested ++ [o] }
    have htest : hostStep lib w rand s (.testExitFlag o) = some s₁ :=
      if_pos ⟨hflag, huntested, by simp [hdata]⟩
    have htidy : Along lib w rand indentSize o P s (.testExitFlag o) s₁ :=
      ⟨tidy_testExitFlag _, fun b he => by cases he⟩
    have h₁ : Housed lib w indentSize s₁ := housed_step h htest htidy.1.toSane
    obtain ⟨hstep, halong⟩ := h₁.along_client rand hobject hflag
      (fun _ => List.mem_append_right _ (List.mem_singleton_self o)) hs hfits hP
    refine ⟨[.testExitFlag o, .client o .parse], s₁.behind o .parse, ?_, ?_⟩
    · rw [run_cons, htest, Option.bind_some, run_cons, hstep, Option.bind_some, run_nil]
    · exact (throughout_cons htest).mpr ⟨htidy, (throughout_cons hstep).mpr
        ⟨halong, throughout_nil _ _⟩⟩

/-- What an object's threads can do alone they can do in the server. -/
theorem Housed.run_client (rand : Nat → Nat → Nat → Nat → Nat) (h : Housed lib w indentSize s)
    (hobject : s.registry.objects[o]? = some p) (hflag : o ∉ s.exitFlags)
    {actions : List Server.Action}
    (hrun : run (step lib w (rand o) [] p.socketFd) (s.clients o) actions = some c)
    (hfits : Throughout (step lib w (rand o) [] p.socketFd) (fun c₁ b _ => c₁.FitsSlot b)
      (s.clients o) actions)
    (hP : Throughout (step lib w (rand o) [] p.socketFd) P (s.clients o) actions) :
    ∃ more tested, run (hostStep lib w rand) s more =
        some { s with clients := Function.update s.clients o c, tested } ∧
      Throughout (hostStep lib w rand) (Along lib w rand indentSize o P) s more ∧
      Housed lib w indentSize { s with clients := Function.update s.clients o c, tested } := by
  induction actions generalizing s with
  | nil =>
    cases hrun
    refine ⟨[], s.tested, ?_, throughout_nil _ _, ?_⟩
    · rw [Function.update_eq_self]
      rfl
    · rw [Function.update_eq_self]
      exact h
  | cons b actions ih =>
    obtain ⟨c₁, h₁, hrest⟩ := Option.bind_eq_some_iff.mp hrun
    obtain ⟨hb, hfits⟩ := (throughout_cons h₁).mp hfits
    obtain ⟨hPb, hP⟩ := (throughout_cons h₁).mp hP
    obtain ⟨first, tested₁, hfirst, hall₁⟩ := h.along_alone rand hobject hflag h₁ hb hPb
    have hhoused : Housed lib w indentSize
        { s with clients := Function.update s.clients o c₁, tested := tested₁ } :=
      throughout_invariant h (fun _ _ _ _ h hs hP => housed_step h hs hP.1.toSane) hfirst hall₁
    obtain ⟨more, tested, hmore, hall, hend⟩ := ih hhoused hobject hflag
      (by simpa using hrest) (by simpa using hfits) (by simpa using hP)
    rw [Function.update_idem] at hmore hend
    refine ⟨first ++ more, tested, ?_, (throughout_append hfirst).mpr ⟨hall₁, hall⟩, hend⟩
    rw [run_append, hfirst, Option.bind_some, hmore]

end Alone

end RTPVoice.Server
