import RTPVoice.Server.Answers
import RTPVoice.Server.Handles

namespace RTPVoice.Server

open Framework Framework.Transition Framework.Interleaving Framework.Framing Json ClientObj
  MyMasterServer MyProtocol SocketWrap Session FifoQueue

/-! ### A client on handle 300 -/

abbrev hostQueryStep : Host → HostAction → Option Host :=
  hostStep queryLibrary asciiWriter fun _ _ _ _ => 0

abbrev HostTidy : Host → HostAction → Host → Prop :=
  Tidy queryLibrary asciiWriter (fun _ _ _ _ => 0) 3

def entering : List HostAction :=
  [.registry (.accept ⟨300, 0⟩), .registry (.construct ⟨300, 0⟩), .registry (.insert 0)]

def entered : Host :=
  { Host.started with
    registry := { Server.started with
      listenNumb := 2
      openFds := [300]
      objects := [⟨300, 0⟩]
      clientmap := [(⟨300, 0⟩, 0)] } }

theorem entering_run : run hostQueryStep .started entering = some entered := rfl

theorem entering_tidy : Throughout hostQueryStep HostTidy .started entering := by
  intro pre a post he s₁ s₂ _ h₂
  have hmem : a ∈ entering := by
    rw [he]
    simp
  simp only [entering, List.mem_cons, List.not_mem_nil, or_false] at hmem
  rcases hmem with rfl | rfl | rfl
  · refine tidy_registry h₂ (by simp) fun p he' => ?_
    cases he'
    exact querySetting
  · exact tidy_registry h₂ (by simp) (by simp)
  · exact tidy_registry h₂ (by simp) (by simp)

theorem entered_hosted : Hosted queryLibrary asciiWriter (fun _ _ _ _ => 0) 3 entered :=
  run_hosted hosted_started entering_run entering_tidy

/-- What the client's threads can do alone they can do in the server. -/
theorem entered_run {P : Client → Server.Action → Client → Prop} {actions : List Server.Action}
    {c : Client} (hrun : run queryStep .initial actions = some c)
    (hfits : Throughout queryStep (fun c₁ b _ => c₁.FitsSlot b) .initial actions)
    (hP : Throughout queryStep P .initial actions) :
    ∃ more tested, run hostQueryStep entered more =
        some { entered with clients := Function.update entered.clients 0 c, tested } ∧
      Throughout hostQueryStep (Along queryLibrary asciiWriter (fun _ _ _ _ => 0) 3 0 P) entered
        more := by
  have hobject : entered.registry.objects[0]? = some ⟨300, 0⟩ := rfl
  have hflag : 0 ∉ entered.exitFlags := List.not_mem_nil
  have hclient : entered.clients 0 = .initial := rfl
  rw [← hclient] at hrun hfits hP
  obtain ⟨more, tested, hruns, hall, -⟩ :=
    entered_hosted.run_client (fun _ _ _ _ => 0) hobject hflag hrun hfits hP
  exact ⟨more, tested, hruns, hall⟩

/-! ### An object that is deleted -/

section Deleted

variable {lib : Library} {w : StyledWriter} {rand : Nat → Nat → Nat → Nat → Nat} {indentSize : Nat}
  {s s₁ s' : Host} {a : HostAction} {o : Nat} {p : SocketParams}

/-- The recovery thread's step that enters an object's destructor closes its socket. -/
theorem recover_deletes {r r' : MyProtocol.Server} (h : Sound r)
    (hs : MyProtocol.step r .recover = some r') (ho : r'.deleted[r.deleted.length]? = some o)
    (hobject : r.objects[o]? = some p) : o ∉ r.deleted ∧ r'.objects = r.objects ∧
      r'.listening = r.listening ∧ p.socketFd ∉ r'.openFds := by
  have hsound := sound_step h hs
  cases MyProtocol.step_stepsTo hs with
  | recover n hheld =>
    unfold MyProtocol.Server.recover at ho hsound ⊢
    split at ho
    · simp at ho
    · next k o' hfind =>
      obtain rfl : o' = o := by simpa using ho
      rw [hfind] at hsound
      refine ⟨(nodup_snoc.mp hsound.deleted_nodup).1, rfl, rfl, ?_⟩
      simp [hobject]

/-- A handle that is not open can be given to the next client. -/
theorem accept_again (lib : Library) (w : StyledWriter) (rand : Nat → Nat → Nat → Nat → Nat)
    (hlistening : 0 < s.registry.listening) (hvalid : p.socketFd ≠ invalidSocket)
    (hclosed : p.socketFd ∉ s.registry.openFds) : ∃ s',
      hostStep lib w rand s (.registry (.accept p)) = some s' ∧ s'.clients = s.clients ∧
      s'.registry.deleted = s.registry.deleted ∧ p.socketFd ∈ s'.registry.openFds := by
  obtain ⟨-, -, -, hdeleted, hopen⟩ := createListenThread_lists
    { s.registry with
      listening := s.registry.listening - 1
      openFds := s.registry.openFds ++ [p.socketFd]
      accepted := s.registry.accepted ++ [p] }
  have hstep : MyProtocol.step s.registry (.accept p) = some (s.registry.accept p) :=
    if_pos ⟨hlistening, hvalid, hclosed⟩
  refine ⟨_, hostStep_registry trivial hstep, rfl, hdeleted, ?_⟩
  simp only [MyProtocol.Server.accept, hopen]
  exact List.mem_append_right _ (List.mem_singleton_self _)

/-- Entering the destructor of an object with something left to send, the server can come to send
it to another client. -/
theorem settled_of_never_astray (h : Housed lib w indentSize s)
    (hs : hostStep lib w rand s (.registry .recover) = some s₁) (ho : s₁.destroying = some o)
    (hobject : s.registry.objects[o]? = some p) (hlistening : 0 < s.registry.listening)
    (hnever : ∀ more s₂, run (hostStep lib w rand) s₁ more = some s₂ →
      Throughout (hostStep lib w rand) (Tidy lib w rand indentSize) s₁ more → ¬ s₂.Astray) :
    Settled lib w (rand o) p.socketFd (s.clients o) := by
  have h₁ : Housed lib w indentSize s₁ := housed_step h hs ⟨by simp, by simp⟩
  have hset := h.objects o p hobject
  have hdeleted := h₁.destroying o ho
  cases hostStep_stepsTo hs with
  | @registry _ r hready hstep =>
    have hnone : s.destroying = none := hready
    simp only [hnone, Option.or_none] at ho
    obtain ⟨hundeleted, hobjects, hlisten, hclosed⟩ := recover_deletes h.sound hstep ho hobject
    intro actions c hrun
    by_contra hne
    have hflag : o ∉ s.exitFlags := fun hmem => hundeleted (h.flagged o hmem)
    -- the thread goes on to where it has something to send, and then the handle is given away
    have hleft := h₁.deleted_left hdeleted
    obtain ⟨more, tested, hruns, hall, hhoused⟩ := h₁.run_client rand (hobjects ▸ hobject) hflag
      hrun (hleft.fitsSlots actions) (hleft.fitsSlots actions)
    obtain ⟨s₃, hs₃, hclients, hsame, hopen⟩ := accept_again lib w rand
      (s := { s with
        registry := r
        clients := Function.update s.clients o c
        destroying := (s.begun r).or s.destroying
        tested })
      (hlisten ▸ hlistening) hset.valid hclosed
    refine hnever (more ++ [.registry (.accept p)]) s₃ ?_ ?_ ?_
    · rw [run_snoc, hruns, Option.bind_some, hs₃]
    · refine (throughout_snoc hruns).mpr ⟨?_, fun s₄ hs₄ => ?_⟩
      · exact fun pre b post he s₁ s₂ h₁ h₂ => (hall pre b post he s₁ s₂ h₁ h₂).1
      obtain rfl := Option.some.inj (hs₃.symm.trans hs₄)
      refine tidy_registry hs₄ (by simp) fun q he => ?_
      cases he
      exact hset
    · obtain ⟨m, rest, hm⟩ := List.exists_cons_of_ne_nil hne
      have hdst : m.1 = p.socketFd := by
        have howned := hhoused.owned o p (hobjects ▸ hobject)
        simp only [Function.update_self] at howned
        exact howned.messages m (by simp [hm])
      refine ⟨o, m, by simp [hclients, hm], hdst ▸ hopen, fun q halive => ?_⟩
      exact absurd (hsame ▸ hdeleted) halive.2

end Deleted

/-- Only what an object's threads have still to send when its destructor is entered can reach
another client: the destructor gives the handle back first, and then waits for the threads. When
there is something left, it can. -/
theorem settled_iff_never_astray (lib : Library) (w : StyledWriter)
    (rand : Nat → Nat → Nat → Nat → Nat) (indentSize : Nat) (actions : List HostAction)
    (s s₁ : Host) (o : Nat) (p : SocketParams)
    (hrun : run (hostStep lib w rand) .started actions = some s)
    (htidy : Throughout (hostStep lib w rand) (Tidy lib w rand indentSize) .started actions)
    (hrecover : hostStep lib w rand s (.registry .recover) = some s₁) (ho : s₁.destroying = some o)
    (hobject : s.registry.objects[o]? = some p) (hlistening : 0 < s.registry.listening) :
    Settled lib w (rand o) p.socketFd (s.clients o) ↔
      ∀ more s₂, run (hostStep lib w rand) s₁ more = some s₂ →
        Throughout (hostStep lib w rand) (Tidy lib w rand indentSize) s₁ more → ¬ s₂.Astray := by
  have h := run_hosted hosted_started hrun htidy
  refine ⟨fun hsettled more s₂ hmore htidy => ?_, fun hnever => ?_⟩
  · have hbegun : s.begun s₁.registry = some o := by
      cases hostStep_stepsTo hrecover with
      | registry hready =>
        have hnone : s.destroying = none := hready
        simpa [hnone] using ho
    have h₁ : Hosted lib w rand indentSize s₁ := by
      refine hosted_step h hrecover ⟨⟨by simp, by simp⟩, fun o' q ho' hq => ?_⟩
      obtain rfl := Option.some.inj (hbegun.symm.trans ho')
      obtain rfl := Option.some.inj (hobject.symm.trans hq)
      exact hsettled
    exact (run_hosted h₁ hmore htidy).not_astray
  · exact settled_of_never_astray h.toHoused hrecover ho hobject hlistening hnever

/-- The connection of a client is closed when its reading thread waits. -/
theorem query_left {actions : List Server.Action} {c : Client}
    (hrun : run queryStep .initial actions = some c)
    (hsmooth : Throughout queryStep Smooth .initial actions)
    (hhanded : c.reqThread.handed = [frame queryText]) (hin : c.reqThread.inLoop = true)
    (htoPush : c.toPush = []) (hposting : c.jqueue.posting = 0) :
    ∃ more r, run queryStep .initial more = some { c with reqThread := r, toPush := [] } ∧
      Throughout queryStep (fun c b _ => c.FitsSlot b) .initial more ∧ r.inLoop = false ∧
      r.handed = [frame queryText] := by
  have hfits := smooth_fitsSlot querySetting queryConversation hrun hsmooth
    (hhanded ▸ List.prefix_rfl)
  let r : ReqThread := { c.reqThread with returnValue := -1, inLoop := false }
  have hturn : processClientReq 0 300 c.reqThread (.recv (.error false)) = some r := by
    rw [processClientReq, if_pos hin]
    rfl
  have ht : queryStep c (.turn 0 (.recv (.error false))) =
      some { c with reqThread := r, toPush := [] } := by
    rw [queryStep, step, if_pos ⟨htoPush, hposting⟩, hturn]
    simp [r, packets]
  refine ⟨actions ++ [.turn 0 (.recv (.error false))], r, ?_, ?_, rfl, hhanded⟩
  · rw [run_snoc, hrun, Option.bind_some, ht]
  · exact (throughout_snoc hrun).mpr ⟨hfits, fun _ _ he => by cases he⟩

/-- The client has its answer, and its connection is closed. -/
theorem query_closed : ∃ actions t, run queryStep .initial actions = some t ∧
    Throughout queryStep (fun c b _ => c.FitsSlot b) .initial actions ∧
    t.reqThread.handed = [frame queryText] ∧ t.Left ∧ t.Quiet := by
  obtain ⟨actions, s, hrun, hsmooth, hin, hhanded, hquiet⟩ := query_whole_run
  obtain ⟨htoPush, hposting, hrest⟩ := hquiet
  obtain ⟨more, r, hmore, hfits, hout, hhanded'⟩ :=
    query_left hrun hsmooth hhanded hin htoPush hposting
  exact ⟨more, _, hmore, hfits, hhanded', ⟨hout, rfl, hposting⟩, rfl, hposting, hrest⟩

/-- A client goes away, and the recovery thread enters its object's destructor. -/
theorem closed_run {actions : List Server.Action} {t : Client}
    (ht : run queryStep .initial actions = some t)
    (hfits : Throughout queryStep (fun c b _ => c.FitsSlot b) .initial actions)
    (hleft : t.Left) : ∃ actions s s₁, run hostQueryStep .started actions = some s ∧
    Throughout hostQueryStep HostTidy .started actions ∧
    hostQueryStep s (.registry .recover) = some s₁ ∧ s₁.destroying = some 0 ∧ s₁.exitFlags = [] ∧
    s.registry.objects[0]? = some ⟨300, 0⟩ ∧ s₁.registry.objects[0]? = some ⟨300, 0⟩ ∧
    0 < s.registry.listening ∧ s.clients 0 = t ∧ s₁.clients 0 = t := by
  obtain ⟨more, tested, hruns, hall⟩ := entered_run ht hfits hfits
  -- the reading thread sends its notice, and the recovery thread takes it
  let clients := Function.update entered.clients 0 t
  let notice : Notice := ⟨⟨300, 0⟩, 0⟩
  let exited : Host := { entered with
    registry := { entered.registry with exited := [0], clientqueue := [notice] }
    clients
    tested }
  let held : Host := { entered with
    registry := { entered.registry with exited := [0], held := some notice }
    clients
    tested }
  have hexit : hostQueryStep { entered with clients, tested } (.registry (.readerExit 0)) =
      some exited :=
    hostStep_registry (show (clients 0).Left by simpa [clients] using hleft) rfl
  have hdequeue : hostQueryStep exited (.registry .dequeue) = some held := hostStep_registry rfl rfl
  have hclient : clients 0 = t := Function.update_self 0 t entered.clients
  obtain ⟨s₁, hrecover, hdestroying, hflags, hobject, hclients⟩ : ∃ s₁,
      hostQueryStep held (.registry .recover) = some s₁ ∧ s₁.destroying = some 0 ∧
      s₁.exitFlags = [] ∧ s₁.registry.objects[0]? = some ⟨300, 0⟩ ∧ s₁.clients = clients :=
    ⟨_, hostStep_registry rfl rfl, rfl, rfl, rfl, rfl⟩
  have hrun : run hostQueryStep .started (entering ++
      (more ++ [.registry (.readerExit 0), .registry .dequeue])) = some held := by
    rw [run_append, entering_run, Option.bind_some, run_append, hruns, Option.bind_some, run_cons,
      hexit, Option.bind_some, run_cons, hdequeue]
    rfl
  have htidy : Throughout hostQueryStep HostTidy .started (entering ++
      (more ++ [.registry (.readerExit 0), .registry .dequeue])) := by
    refine (throughout_append entering_run).mpr ⟨entering_tidy, (throughout_append hruns).mpr
      ⟨fun pre a post he s₁ s₂ h₁ h₂ => (hall pre a post he s₁ s₂ h₁ h₂).1, ?_⟩⟩
    refine (throughout_cons hexit).mpr ⟨tidy_registry hexit (by simp) (by simp), ?_⟩
    refine (throughout_cons hdequeue).mpr ⟨tidy_registry hdequeue (by simp) (by simp), ?_⟩
    exact throughout_nil _ _
  exact ⟨_, held, s₁, hrun, htidy, hrecover, hdestroying, hflags, rfl, hobject, Nat.one_pos,
    hclient, hclients ▸ hclient⟩

/-- A client that goes away when it has its answer. -/
theorem settled_iff_never_astray_closed : ∃ s s₁,
    (s.clients 0).reqThread.handed = [frame queryText] ∧
    hostQueryStep s (.registry .recover) = some s₁ ∧ s₁.destroying = some 0 ∧
    ∀ more s₂, run hostQueryStep s₁ more = some s₂ → Throughout hostQueryStep HostTidy s₁ more →
      ¬ s₂.Astray := by
  obtain ⟨_, t, ht, hfits, hhanded, hleft, hquiet⟩ := query_closed
  obtain ⟨actions, s, s₁, hrun, htidy, hrecover, hdestroying, -, hobject, -, hlistening, hclient,
    -⟩ := closed_run ht hfits hleft
  rw [← hclient] at hhanded hleft hquiet
  exact ⟨s, s₁, hhanded, hrecover, hdestroying, (settled_iff_never_astray queryLibrary asciiWriter
    (fun _ _ _ _ => 0) 3 actions s s₁ 0 ⟨300, 0⟩ hrun htidy hrecover hdestroying hobject
    hlistening).mp (hleft.settled hquiet)⟩

/-! ### An object that serves a client -/

/-- The action of an object's threads, if it is that. -/
def ownClient (o : Nat) : HostAction → Option Server.Action
  | .client o' b => if o' = o then some b else none
  | _ => none

section Own

variable {lib : Library} {w : StyledWriter} {rand : Nat → Nat → Nat → Nat → Nat} {indentSize : Nat}
  {s s' : Host} {a : HostAction} {o : Nat} {p : SocketParams} {actions : List HostAction}

theorem run_objects (hrun : run (hostStep lib w rand) s actions = some s') :
    s.registry.objects <+: s'.registry.objects := by
  refine run_invariant (I := fun s₁ => s.registry.objects <+: s₁.registry.objects)
    List.prefix_rfl (fun s₁ a s₂ _ hI hs => ?_) hrun
  cases hostStep_stepsTo hs with
  | registry _ hstep => exact hI.trans (step_grows hstep).objects_grow
  | client | testExitFlag | setThreadExitFlag | join => exact hI

/-- A step of the server leaves an object's threads where they are, or is theirs. -/
theorem hostStep_moves {P : Client → Server.Action → Client → Prop}
    (h : Housed lib w indentSize s) (hs : hostStep lib w rand s a = some s')
    (hobject : ∀ q, s.registry.objects[o]? = some q → q = p)
    (hP : ∀ b, a = .client o b → P (s.clients o) b (s'.clients o)) :
    Moves (·.clients o) (ownClient o) (step lib w (rand o) [] p.socketFd) P s a s' := by
  cases hostStep_stepsTo hs with
  | registry | testExitFlag | setThreadExitFlag | join => rfl
  | @client o' q b c _ hq hstep =>
    by_cases ho : o' = o
    · subst ho
      obtain rfl := hobject q hq
      rw [h.clientStep_eq hq] at hstep
      simpa [Moves, ownClient] using ⟨hstep, by simpa using hP b rfl⟩
    · simpa [Moves, ownClient, ho] using Function.update_of_ne (Ne.symm ho) c s.clients

/-- An object's threads run as they would alone. -/
theorem run_ownClient {P : Client → Server.Action → Client → Prop}
    (hrun : run (hostStep lib w rand) .started actions = some s)
    (htidy : Throughout (hostStep lib w rand) (Tidy lib w rand indentSize) .started actions)
    (hobject : s.registry.objects[o]? = some p)
    (hP : Throughout (hostStep lib w rand)
      (fun s₁ a s₂ => ∀ b, a = .client o b → P (s₁.clients o) b (s₂.clients o)) .started actions) :
    run (step lib w (rand o) [] p.socketFd) .initial (actions.filterMap (ownClient o)) =
        some (s.clients o) ∧
      Throughout (step lib w (rand o) [] p.socketFd) P .initial
        (actions.filterMap (ownClient o)) := by
  refine run_part (·.clients o) (ownClient o) (step lib w (rand o) [] p.socketFd) hrun ?_
  intro pre a post he s₁ s₂ h₁ h₂
  have h : Hosted lib w rand indentSize s₁ := by
    subst he
    exact run_hosted hosted_started h₁ ((throughout_append h₁).mp htidy).1
  refine hostStep_moves h.toHoused h₂ (fun q hq => ?_) (hP pre a post he s₁ s₂ h₁ h₂)
  -- the object keeps its handle
  rw [he, run_append, h₁, Option.bind_some] at hrun
  obtain ⟨later, hlater⟩ := run_objects hrun
  rw [← hlater, List.getElem?_append_left (List.getElem?_eq_some_iff.mp hq).1, hq] at hobject
  exact Option.some.inj hobject

end Own

/-- The whole server: clients come and go, and handles are used again. A client in such a
conversation is sent the answers to its requests, in order and as if it were alone; while its object
lives no other object's thread has a message for its connection. -/
theorem connection_answered (lib : Library) (w : StyledWriter)
    (rand : Nat → Nat → Nat → Nat → Nat) (indentSize : Nat) (payloads : List (List UInt8))
    (requests : List Request) (chunks : List (List UInt8)) (actions : List HostAction) (s : Host)
    (o : Nat) (p : SocketParams)
    (hconv : Conversation lib w indentSize payloads requests chunks)
    (hrun : run (hostStep lib w rand) .started actions = some s)
    (htidy : Throughout (hostStep lib w rand) (Tidy lib w rand indentSize) .started actions)
    (hobject : s.registry.objects[o]? = some p)
    (hsmooth : Throughout (hostStep lib w rand)
      (fun s₁ a s₂ => ∀ b, a = .client o b → Smooth (s₁.clients o) b (s₂.clients o)) .started
      actions)
    (hpre : (s.clients o).reqThread.handed <+: chunks) :
    (s.registry.Alive o p →
      ∀ j, ∀ m ∈ (s.clients j).toSend.head?, m.1 = p.socketFd → j = o) ∧
    ∃ docs, Conveys docs (answers ⟨0, 0⟩ (requests.take (s.clients o).handled)).flatten ∧
      (s.clients o).sent ++ (s.clients o).toSend = framed w p.socketFd docs ∧
      ((s.clients o).Quiet → (s.clients o).wire = stream frame (docs.map w.write) ∧
        (s.clients o).handled =
          (completed frame payloads (s.clients o).reqThread.handed.flatten.length).length) := by
  have h := run_hosted hosted_started hrun htidy
  have hset := h.objects o p hobject
  obtain ⟨hown, hownSmooth⟩ := run_ownClient hrun htidy hobject hsmooth
  have hserving := run_serving hset hconv hown hownSmooth hpre
  obtain ⟨-, docs, hdocs, hsent⟩ := hserving.answers hset hconv hpre
  refine ⟨fun halive j m hm hdst => ?_, docs, hdocs, hsent, fun hquiet => ⟨?_, ?_⟩⟩
  · by_contra hj
    refine h.not_astray ⟨j, m, hm, hdst ▸ h.sound.alive_open o p halive, fun q hq he => ?_⟩
    exact hj (h.sound.alive_unique j q o p hq halive (he.trans hdst))
  · rw [← flatMap_framed p.socketFd, ← hsent]
    exact hserving.answering.wire_eq hquiet.2.2.2.2.2.2.2
  · exact hserving.quiet hset hconv hpre hquiet

/-- The answer to a query, in the server. -/
theorem connection_answered_query : ∃ actions s docs,
    run hostQueryStep .started (entering ++ actions) = some s ∧ Conveys docs [.query 0 0] ∧
    (s.clients 0).wire = stream frame (docs.map asciiWriter.write) := by
  obtain ⟨actions, c, hrun, hsmooth, -, hhanded, hquiet⟩ := query_whole_run
  have hfits := smooth_fitsSlot querySetting queryConversation hrun hsmooth
    (hhanded ▸ List.prefix_rfl)
  obtain ⟨more, tested, hruns, hboth⟩ := entered_run hrun hfits hsmooth
  let s : Host := { entered with clients := Function.update entered.clients 0 c, tested }
  have hclient : s.clients 0 = c := Function.update_self 0 c entered.clients
  have hall : run hostQueryStep .started (entering ++ more) = some s := by
    rw [run_append, entering_run, Option.bind_some, hruns]
  have htidy : Throughout hostQueryStep HostTidy .started (entering ++ more) :=
    (throughout_append entering_run).mpr ⟨entering_tidy,
      fun pre a post he s₁ s₂ h₁ h₂ => (hboth pre a post he s₁ s₂ h₁ h₂).1⟩
  have hone : Throughout hostQueryStep (fun s₁ a s₂ => ∀ b, a = .client 0 b →
      Smooth (s₁.clients 0) b (s₂.clients 0)) .started (entering ++ more) := by
    refine (throughout_append entering_run).mpr ⟨?_,
      fun pre a post he s₁ s₂ h₁ h₂ => (hboth pre a post he s₁ s₂ h₁ h₂).2⟩
    intro pre a post he s₁ s₂ _ _ b ha
    have hmem : a ∈ entering := by
      rw [he]
      simp
    simp [entering, ha] at hmem
  obtain ⟨-, docs, hdocs, -, hwhole⟩ := connection_answered queryLibrary asciiWriter
    (fun _ _ _ _ => 0) 3 _ _ _ _ s 0 ⟨300, 0⟩ queryConversation hall htidy rfl hone
    (by rw [hclient, hhanded])
  rw [hclient] at hdocs hwhole
  obtain ⟨hwire, hhandled⟩ := hwhole hquiet
  rw [hhandled, hhanded] at hdocs
  exact ⟨_, s, docs, hall, by simpa [completed, answers, Request.answer] using hdocs,
    by rw [hclient, hwire]⟩

end RTPVoice.Server
