import RTPVoice.Server.Draining
import RTPVoice.Server.Isolation

namespace RTPVoice.Server

open Framework Framework.Transition Framework.Interleaving Framework.Framing Json ClientObj
  MyMasterServer MyProtocol SocketWrap Session FifoQueue

/-! ### A client with one request -/

def queryText : List UInt8 :=
  asciiBytes "\x7b\"identifier\":\"2\",\"name\":\"Query\",\"type\":\"Request\"\x7d"

def queryValue : Value :=
  .objectValue [("identifier", .stringValue "2"), ("name", .stringValue "Query"),
    ("type", .stringValue "Request")]

/-- What follows the object is not looked at. -/
def queryLibrary : Library :=
  .withParser fun text => if queryText <+: text then some queryValue else none

theorem querySetting : Setting queryLibrary asciiWriter 3 300 where
  library := Library.withParser_documented _
  writer := asciiWriter_documented
  indent := by decide
  escape := asciiWriter_escape
  ne_zero := by decide
  valid := by decide
  printed := by decide

theorem queryConversation : Conversation queryLibrary asciiWriter 3 [queryText] [.query]
    [frame queryText] where
  carried := by
    refine .cons ⟨queryValue, fun rest => ?_, ?_⟩ .nil
    · show (if queryText <+: queryText ++ rest then some queryValue else none) = some queryValue
      exact if_pos (List.prefix_append _ _)
    · exact ⟨⟨_, _, rfl, rfl⟩, ⟨_, rfl, rfl⟩, ⟨_, rfl, rfl⟩, trivial⟩
  conforming := by
    simp only [List.forall_mem_singleton]
    decide +kernel
  nulFree := by
    simp only [List.forall_mem_singleton]
    decide +kernel
  fitting := by simp [Fitting]
  whole := by simp
  sizes := by
    simp only [List.forall_mem_singleton]
    decide +kernel
  header k := by
    rintro ⟨j, hj, hlo, hhi⟩
    obtain rfl : j = 0 := by simpa using hj
    have hlen : (frame queryText).length = 55 := by decide +kernel
    rcases k with _ | k <;> simp [offset, hlen] at hlo hhi

abbrev queryStep : Client → Server.Action → Option Client :=
  step queryLibrary asciiWriter (fun _ _ _ => 0) [] 300

/-- The request is received. -/
theorem query_received : ∃ a s, queryStep .initial a = some s ∧ Smooth .initial a s ∧
    s.reqThread.inLoop = true ∧ s.reqThread.handed = [frame queryText] ∧ s.handled = 0 ∧
    Serving queryLibrary asciiWriter (fun _ _ _ => 0) [] 300 s := by
  have h : Serving queryLibrary asciiWriter (fun _ _ _ => 0) [] 300 .initial := serving_initial
  obtain ⟨fuel, s, hs, hin, hhanded⟩ := h.receiving.turn querySetting.valid
    queryConversation.cutting (fun p hp => (queryConversation.small p hp).trans (by decide))
    queryConversation.passes (c := frame queryText) List.prefix_rfl (by decide +kernel) rfl rfl rfl
  have hsmooth : Smooth .initial (.turn fuel (.recv (.done (frame queryText)))) s :=
    ⟨by simp, by simp [Unbroken]⟩
  exact ⟨_, s, hs, hsmooth, hin, hhanded, handled_step hs (by simp),
    serving_step querySetting queryConversation h hs hsmooth (hhanded ▸ List.prefix_rfl)⟩

/-- Then the threads run until both wait. -/
theorem query_run : ∃ a s more s', queryStep .initial a = some s ∧ Smooth .initial a s ∧
    s.reqThread.inLoop = true ∧ s.reqThread.handed = [frame queryText] ∧
    run queryStep s more = some s' ∧
    Throughout queryStep (fun s₁ a s₂ => ¬ a.Idle ∧ Smooth s₁ a s₂) s more ∧
    s'.reqThread = s.reqThread ∧ s'.Quiet := by
  obtain ⟨a, s, hs, hsmooth, hin, hhanded, -, hserving⟩ := query_received
  obtain ⟨more, s', hmore, hgoesOn, ⟨-, hsame⟩, hquiet⟩ :=
    hserving.drains querySetting queryConversation (hhanded ▸ List.prefix_rfl)
  exact ⟨_, s, more, s', hs, hsmooth, hin, hhanded, hmore, hgoesOn, hsame, hquiet⟩

theorem query_whole_run : ∃ actions s, run queryStep .initial actions = some s ∧
    Throughout queryStep Smooth .initial actions ∧ s.reqThread.inLoop = true ∧
    s.reqThread.handed = [frame queryText] ∧ s.Quiet := by
  obtain ⟨a, s, more, s', hs, hsmooth, hin, hhanded, hmore, hgoesOn, hsame, hquiet⟩ := query_run
  refine ⟨a :: more, s', by rw [run_cons, hs, Option.bind_some, hmore], ?_, hsame ▸ hin,
    hsame ▸ hhanded, hquiet⟩
  refine (throughout_cons hs).mpr ⟨hsmooth, fun pre b post he s₁ s₂ h₁ h₂ => ?_⟩
  exact (hgoesOn pre b post he s₁ s₂ h₁ h₂).2

/-- The request is received, and the answering thread has it in hand. -/
theorem query_taken : ∃ actions s, run queryStep .initial actions = some s ∧
    Throughout queryStep Smooth .initial actions ∧ s.reqThread.inLoop = true ∧
    s.reqThread.handed = [frame queryText] ∧ s.toPush = [] ∧ s.jqueue.posting = 0 ∧
    ∃ slot parsed, s.queueData = some slot ∧
      parsePacket queryLibrary asciiWriter (fun _ _ _ => 0) [] s.handled s.ctrlr slot =
        some parsed := by
  obtain ⟨a, s, hs, hsmooth, hin, hhanded, hhandled, hserving⟩ := query_received
  have hpre : s.reqThread.handed <+: [frame queryText] := hhanded ▸ List.prefix_rfl
  have hone : (completed frame [queryText] s.reqThread.handed.flatten.length).length = 1 := by
    rw [hhanded]
    exact congrArg List.length (completed_stream [queryText])
  let I (t : Client) : Prop := (Serving queryLibrary asciiWriter (fun _ _ _ => 0) [] 300 t ∧
    t.reqThread = s.reqThread) ∧ t.handled = 0
  have hstep : ∀ t b t', I t → queryStep t b = some t' →
      (¬ b.Idle ∧ Smooth t b t') ∧ b ≠ .parse → I t' ∧ t'.work < t.work := by
    intro t b t' hI ht' hP
    obtain ⟨hI', hlt⟩ := goesOn_step querySetting queryConversation hpre hI.1 ht' hP.1
    exact ⟨⟨hI', (handled_step ht' hP.2).trans hI.2⟩, hlt⟩
  have hnext : ∀ t, I t → ¬ t.queueData ≠ none →
      ∃ b t', queryStep t b = some t' ∧ (¬ b.Idle ∧ Smooth t b t') ∧ b ≠ .parse := by
    intro t hI hnone
    obtain ⟨⟨hserving, hsame⟩, hhandled⟩ := hI
    have hbusy : ¬ t.Quiet := fun hquiet => by
      have hall := hserving.quiet querySetting queryConversation (hsame ▸ hpre) hquiet
      rw [hsame, hone, hhandled] at hall
      cases hall
    obtain ⟨b, t', ht', hb⟩ :=
      hserving.canGoOn querySetting queryConversation (hsame ▸ hpre) hbusy
    refine ⟨b, t', ht', hb, ?_⟩
    rintro rfl
    obtain ⟨slot, hdata, -⟩ := Option.bind_eq_some_iff.mp ht'
    exact hnone (by simp [hdata])
  obtain ⟨more, t, hmore, hall, ⟨⟨ht, hsame⟩, hhandled'⟩, hdata⟩ :=
    run_until Client.work hstep hnext ⟨⟨hserving, rfl⟩, hhandled⟩
  obtain ⟨slot, hslot⟩ := Option.ne_none_iff_exists'.mp hdata
  obtain ⟨c', docs, hparse, -⟩ := ht.parses querySetting queryConversation (hsame ▸ hpre) hslot
  -- the only packet is in hand, so that nothing is left to be pushed or posted
  obtain ⟨parsed, htaken, hlen, -⟩ := ht.answering.given
  have hrecords := congrArg List.length
    (ht.records querySetting queryConversation (hsame ▸ hpre))
  rw [List.length_append, List.length_map, hsame, hone] at hrecords
  have htaken' := congrArg List.length htaken
  rw [List.length_append, hlen, hhandled', hslot, Option.toList_some, List.length_singleton]
    at htaken'
  have hle := ht.orderly.le
  have hclaimed := ht.orderly.claimed
  rw [Claimed, ht.orderly.mList_length] at hclaimed
  have htoPush : t.toPush = [] := List.eq_nil_of_length_eq_zero (by omega)
  refine ⟨a :: more, t, by rw [run_cons, hs, Option.bind_some, hmore], ?_, hsame ▸ hin,
    hsame ▸ hhanded, htoPush, by omega, slot, _, hslot, hparse⟩
  refine (throughout_cons hs).mpr ⟨hsmooth, fun pre b post he s₁ s₂ h₁ h₂ => ?_⟩
  exact (hall pre b post he s₁ s₂ h₁ h₂).1.2

/-! ### Conversations -/

/-- A client sends requests, each in a frame, in whatever chunks that do not cut a header. However
its two threads interleave, and whatever `recv` and `send` come back with short of an error, the
client is sent the answers of the reference machine to the requests parsed so far, in order, each
in its frame, and nothing else; when both threads wait these are all the requests that have come
whole. -/
theorem answers_in_order (lib : Library) (w : StyledWriter) (rand : Nat → Nat → Nat → Nat)
    (indentSize : Nat) (clientmap : List SocketParams) (clientfd : HSocket)
    (payloads : List (List UInt8)) (requests : List Request) (chunks : List (List UInt8))
    (actions : List Server.Action) (s : Client) (hset : Setting lib w indentSize clientfd)
    (hconv : Conversation lib w indentSize payloads requests chunks)
    (hrun : run (step lib w rand clientmap clientfd) .initial actions = some s)
    (hsmooth : Throughout (step lib w rand clientmap clientfd) Smooth .initial actions)
    (hpre : s.reqThread.handed <+: chunks) :
    s.handled ≤ (completed frame payloads s.reqThread.handed.flatten.length).length ∧
    (∀ m ∈ s.sent ++ s.toSend, m.1 = clientfd) ∧
    ∃ docs, Conveys docs (answers ⟨0, 0⟩ (requests.take s.handled)).flatten ∧
      s.wire <+: stream frame (docs.map w.write) ∧
      (s.Quiet →
        s.handled = (completed frame payloads s.reqThread.handed.flatten.length).length ∧
        s.wire = stream frame (docs.map w.write)) := by
  have h := run_serving hset hconv hrun hsmooth hpre
  obtain ⟨hle, docs, hdocs, hsent⟩ := h.answers hset hconv hpre
  refine ⟨hle, fun m hm => ?_, docs, hdocs, ?_, fun hquiet => ⟨h.quiet hset hconv hpre hquiet, ?_⟩⟩
  · rw [hsent] at hm
    obtain ⟨doc, -, rfl⟩ := List.mem_map.mp hm
    rfl
  · rw [← flatMap_framed clientfd, ← hsent]
    exact h.answering.wire_prefix
  · rw [← flatMap_framed clientfd, ← hsent]
    exact h.answering.wire_eq hquiet.2.2.2.2.2.2.2

/-- The answer to a query, with no channel set. -/
theorem answers_in_order_query : ∃ actions s docs, run queryStep .initial actions = some s ∧
    s.Quiet ∧ Conveys docs [.query 0 0] ∧
    s.wire = stream frame (docs.map asciiWriter.write) := by
  obtain ⟨actions, s, hrun, hsmooth, -, hhanded, hquiet⟩ := query_whole_run
  obtain ⟨-, -, docs, hdocs, -, hwhole⟩ := answers_in_order _ _ _ 3 _ _ _ _ _ _ s querySetting
    queryConversation hrun hsmooth (by rw [hhanded])
  obtain ⟨hhandled, hwire⟩ := hwhole hquiet
  rw [hhandled, hhanded] at hdocs
  exact ⟨actions, s, docs, hrun, hquiet, by simpa [completed, answers, Request.answer] using hdocs,
    hwire⟩

/-- From any state of such a conversation, whichever of the two threads goes on and however little
`send` takes at a time: the steps come to an end, and then every request that has come whole is
answered. -/
theorem threads_come_to_rest (lib : Library) (w : StyledWriter) (rand : Nat → Nat → Nat → Nat)
    (indentSize : Nat) (clientmap : List SocketParams) (clientfd : HSocket)
    (payloads : List (List UInt8)) (requests : List Request) (chunks : List (List UInt8))
    (actions more : List Server.Action) (s s' : Client) (hset : Setting lib w indentSize clientfd)
    (hconv : Conversation lib w indentSize payloads requests chunks)
    (hrun : run (step lib w rand clientmap clientfd) .initial actions = some s)
    (hsmooth : Throughout (step lib w rand clientmap clientfd) Smooth .initial actions)
    (hpre : s.reqThread.handed <+: chunks)
    (hmore : run (step lib w rand clientmap clientfd) s more = some s')
    (hgoesOn : Throughout (step lib w rand clientmap clientfd)
      (fun s₁ a s₂ => ¬ a.Idle ∧ Smooth s₁ a s₂) s more) :
    more.length ≤ s.work ∧ (CanGoOn lib w rand clientmap clientfd s' ∨
      ∃ docs, Conveys docs (answers ⟨0, 0⟩ (requests.take
          (completed frame payloads s.reqThread.handed.flatten.length).length)).flatten ∧
        s'.wire = stream frame (docs.map w.write)) := by
  have hserving := run_serving hset hconv hrun hsmooth hpre
  obtain ⟨⟨h, hsame⟩, hle⟩ := run_work (I := fun t => Serving lib w rand clientmap clientfd t ∧
    t.reqThread = s.reqThread) Client.work
    (fun _ _ _ hI hs hP => goesOn_step hset hconv hpre hI hs hP) ⟨hserving, rfl⟩ hmore hgoesOn
  have hpre' : s'.reqThread.handed <+: chunks := hsame ▸ hpre
  refine ⟨by omega, ?_⟩
  by_cases hquiet : s'.Quiet
  · obtain ⟨-, docs, hdocs, hsent⟩ := h.answers hset hconv hpre'
    rw [h.quiet hset hconv hpre' hquiet, hsame] at hdocs
    refine .inr ⟨docs, hdocs, ?_⟩
    rw [← flatMap_framed clientfd, ← hsent]
    exact h.answering.wire_eq hquiet.2.2.2.2.2.2.2
  · exact .inl (h.canGoOn hset hconv hpre' hquiet)

/-- Once the query is received the threads take no more steps than there is work, and then it is
answered. -/
theorem threads_come_to_rest_query : ∃ s more s' docs, run queryStep s more = some s' ∧
    more.length ≤ s.work ∧ Conveys docs [.query 0 0] ∧
    s'.wire = stream frame (docs.map asciiWriter.write) := by
  obtain ⟨a, s, more, s', hs, hsmooth, -, hhanded, hmore, hgoesOn, -, hquiet⟩ := query_run
  have hrun : run queryStep .initial [a] = some s := by
    rw [run_cons, hs, Option.bind_some, run_nil]
  obtain ⟨hlen, hrest⟩ := threads_come_to_rest _ _ _ 3 _ _ _ _ _ [a] more s s' querySetting
    queryConversation hrun ((throughout_cons hs).mpr ⟨hsmooth, throughout_nil _ _⟩)
    (by rw [hhanded]) hmore hgoesOn
  obtain ⟨docs, hdocs, hwire⟩ := hrest.resolve_left hquiet.not_canGoOn
  rw [hhanded] at hdocs
  exact ⟨s, more, s', docs, hmore, hlen, by simpa [completed, answers, Request.answer] using hdocs,
    hwire⟩

/-! ### Many clients -/

/-- Any number of clients on different handles, one of them in such a conversation; the others send
whatever they like, so long as no packet runs out of its slot. Nothing is sent to the handle of the
one by the threads of another, and its own send it the answers to its requests, in order and as if
it were alone. -/
theorem clients_isolated {ι : Type} [DecidableEq ι] (lib : Library) (w : StyledWriter)
    (rand : ι → Nat → Nat → Nat → Nat) (indentSize : Nat) (clientmap : List SocketParams)
    (fd : ι → HSocket) (payloads : List (List UInt8)) (requests : List Request)
    (chunks : List (List UInt8)) (actions : List (ι × Server.Action)) (s : ι → Client) (i : ι)
    (hfd : Function.Injective fd) (hset : ∀ j, Setting lib w indentSize (fd j))
    (hconv : Conversation lib w indentSize payloads requests chunks)
    (hrun : run (interleave fun j => step lib w (rand j) clientmap (fd j)) (fun _ => .initial)
      actions = some s)
    (hfits : Throughout (interleave fun j => step lib w (rand j) clientmap (fd j))
      (fun s₁ a _ => a.1 ≠ i → (s₁ a.1).FitsSlot a.2) (fun _ => .initial) actions)
    (hsmooth : Throughout (interleave fun j => step lib w (rand j) clientmap (fd j))
      (fun s₁ a s₂ => a.1 = i → Smooth (s₁ i) a.2 (s₂ i)) (fun _ => .initial) actions)
    (hpre : (s i).reqThread.handed <+: chunks) :
    (∀ j, ∀ m ∈ (s j).sent ++ (s j).toSend, m.1 = fd i → j = i) ∧
    ∃ docs, Conveys docs (answers ⟨0, 0⟩ (requests.take (s i).handled)).flatten ∧
      (s i).sent ++ (s i).toSend = framed w (fd i) docs ∧
      ((s i).Quiet → (s i).wire = stream frame (docs.map w.write) ∧
        (s i).handled =
          (completed frame payloads (s i).reqThread.handed.flatten.length).length) := by
  have h := run_serving (hset i) hconv (run_own hrun i) (throughout_own i hrun hsmooth) hpre
  obtain ⟨-, docs, hdocs, hsent⟩ := h.answers (hset i) hconv hpre
  refine ⟨fun j m hm hdst => ?_, docs, hdocs, hsent, fun hquiet => ⟨?_, ?_⟩⟩
  · by_contra hj
    have howned : Owned (fd j) (s j) := by
      refine run_owned (hset j) (run_own hrun j) (throughout_own j hrun ?_)
      intro pre a post he s₁ s₂ h₁ h₂ ha
      exact ha ▸ hfits pre a post he s₁ s₂ h₁ h₂ (ha ▸ hj)
    exact hj (hfd ((howned.messages m hm).symm.trans hdst))
  · rw [← flatMap_framed (fd i), ← hsent]
    exact h.answering.wire_eq hquiet.2.2.2.2.2.2.2
  · exact h.quiet (hset i) hconv hpre hquiet

private def queryHandles : Bool → HSocket
  | true => 300
  | false => 301

private theorem queryHandles_setting : ∀ j, Setting queryLibrary asciiWriter 3 (queryHandles j)
  | true => querySetting
  | false => { querySetting with
    ne_zero := by decide
    valid := by decide
    printed := by decide }

private abbrev closedTurn : Server.Action := .turn 0 (.recv (.done []))

/-- The query, while the connection of another client is closed. -/
theorem clients_isolated_query : ∃ actions s docs,
    run (interleave fun j => step queryLibrary asciiWriter (fun _ _ _ => 0) [] (queryHandles j))
      (fun _ => .initial) ((false, closedTurn) :: actions) = some s ∧
    Conveys docs [.query 0 0] ∧
    (s true).wire = stream frame (docs.map asciiWriter.write) := by
  obtain ⟨actions, s, hrun, hsmooth, -, hhanded, hquiet⟩ := query_whole_run
  obtain ⟨t, ht⟩ : ∃ t, step queryLibrary asciiWriter (fun _ _ _ => 0) [] 301 .initial closedTurn =
      some t := ⟨_, rfl⟩
  let steps := fun j => step queryLibrary asciiWriter (fun _ _ _ => 0) [] (queryHandles j)
  -- the other client's step, and then the run of the one
  have hfirst : interleave steps (fun _ => .initial) (false, closedTurn) =
      some (Function.update (fun _ => .initial) false t) := by
    have h := interleave_update steps (s := fun _ => .initial) (i := false) ht
    rwa [Function.update_eq_self] at h
  have hrest := run_alone steps (i := true)
    (s := Function.update (fun _ => .initial) false t) hrun
  have hthrough := throughout_alone steps (i := true)
    (s := Function.update (fun _ => .initial) false t) hrun hsmooth
  rw [Function.update_eq_self_iff.mpr (by rfl)] at hrest hthrough
  have hall : run (interleave steps) (fun _ => .initial)
      ((false, closedTurn) :: actions.map (Prod.mk true)) =
        some (Function.update (Function.update (fun _ => .initial) false t) true s) := by
    rw [run_cons, hfirst, Option.bind_some, hrest]
  have hfits : Throughout (interleave steps)
      (fun s₁ a _ => a.1 ≠ true → (s₁ a.1).FitsSlot a.2) (fun _ => .initial)
      ((false, closedTurn) :: actions.map (Prod.mk true)) := by
    refine (throughout_cons hfirst).mpr ⟨fun _ he => (by cases he), ?_⟩
    intro pre a post he s₁ s₂ h₁ h₂ ha
    exact absurd (hthrough pre a post he s₁ s₂ h₁ h₂).1 ha
  have hone : Throughout (interleave steps)
      (fun s₁ a s₂ => a.1 = true → Smooth (s₁ true) a.2 (s₂ true)) (fun _ => .initial)
      ((false, closedTurn) :: actions.map (Prod.mk true)) := by
    refine (throughout_cons hfirst).mpr ⟨fun he => (by cases he), ?_⟩
    intro pre a post he s₁ s₂ h₁ h₂ _
    exact (hthrough pre a post he s₁ s₂ h₁ h₂).2
  have htrue :
      Function.update (Function.update (fun _ => Client.initial) false t) true s true = s :=
    Function.update_self _ _ _
  have hinj : Function.Injective queryHandles := by
    intro i j h
    cases i <;> cases j <;> first | rfl | exact absurd h (by decide)
  obtain ⟨-, docs, hdocs, -, hwhole⟩ := clients_isolated queryLibrary asciiWriter
    (fun _ _ _ _ => 0) 3 [] queryHandles _ _ _ _ _ true hinj queryHandles_setting
    queryConversation hall hfits hone (by rw [htrue, hhanded])
  rw [htrue] at hdocs hwhole
  obtain ⟨hwire, hhandled⟩ := hwhole hquiet
  rw [hhandled, hhanded] at hdocs
  refine ⟨_, _, docs, hall, by simpa [completed, answers, Request.answer] using hdocs, ?_⟩
  rwa [htrue]

end RTPVoice.Server
