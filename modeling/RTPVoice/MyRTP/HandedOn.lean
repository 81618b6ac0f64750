import RTPVoice.MyRTP.Polling

namespace RTPVoice.MyRTP

open Framework Framework.Transition Framework.Sweep RTPSourceData

variable {lib : RTPSession} {s s' s₀ : PollThread} {a : Action}

/-! ### Every packet is somewhere -/

/-- The packet that is extracted and not yet processed. -/
def PollThread.inHand (s : PollThread) : List (UInt32 × List UInt8) :=
  match s.place with
  | .processing i pack => (s.sources[i]?).toList.map fun srcdat => (srcdat.ssrc, pack)
  | _ => []

theorem inHand_of_free (h : ¬ s.place.Locked) : s.inHand = [] := by
  unfold PollThread.inHand
  split
  · next here =>
    rw [here] at h
    exact absurd trivial h
  · rfl

/-- Every packet that came is at one place, and those processed and not heard came before the
callback was set. -/
structure Kept (s : PollThread) : Prop where
  count : ∀ x, s.arrived.count x =
    s.processed.count x + s.inHand.count x + s.held.count x + s.lost.count x
  heard : s.heard <:+ s.processed
  silent : s.recvVoiceCallBackFunc = false → s.heard = []

theorem kept_fresh : Kept .fresh := ⟨fun _ => rfl, List.suffix_rfl, fun _ => rfl⟩

/-- Nothing moves but the thread. -/
theorem Kept.goto (h : Kept s) (hhand : s.inHand = []) (next : Option Nat) :
    Kept (s.goto next) := by
  have hcount := h.count
  rw [hhand] at hcount
  cases next <;> exact ⟨hcount, h.heard, h.silent⟩

theorem kept_step (h : Kept s) (hs : step lib s a = some s') : Kept s' := by
  have hcount := h.count
  unfold PollThread.held at hcount
  cases step_stepsTo hs with
  | beginDataAccess here | exit here | again here =>
    simp only [PollThread.inHand, here] at hcount
    exact ⟨hcount, h.heard, h.silent⟩
  | first here => exact h.goto (by simp [PollThread.inHand, here]) _
  | next here => exact h.goto (by simp [PollThread.inHand, here]) _
  | @extract i srcdat rest pack here source next =>
    -- the packet goes from its list into the thread's hand
    obtain ⟨hpackets, -, -, hssrc⟩ := getNextPacket_eq_some next
    obtain ⟨hlt, -⟩ := List.getElem?_eq_some_iff.mp source
    refine ⟨fun x => ?_, h.heard, h.silent⟩
    have hset := count_set source rest packets x
    have hbefore := hcount x
    simp only [PollThread.inHand, here, List.count_nil] at hbefore
    simp only [PollThread.inHand, PollThread.held, List.getElem?_set_self hlt, Option.toList_some,
      List.map_cons, List.map_nil, hssrc]
    rw [hpackets, List.count_cons] at hset
    rw [List.count_cons, List.count_nil]
    omega
  | @process i srcdat pack here source =>
    refine ⟨fun x => ?_, ?_, fun hnull => ?_⟩
    · have hbefore := hcount x
      simp only [PollThread.inHand, here, source, Option.toList_some, List.map_cons,
        List.map_nil] at hbefore
      simp only [PollThread.inHand, PollThread.held, PollThread.processRTPPacket,
        List.count_append, List.count_nil]
      omega
    · simp only [PollThread.processRTPPacket]
      split
      · obtain ⟨missed, hmissed⟩ := h.heard
        exact ⟨missed, by rw [← hmissed, List.append_assoc]⟩
      · next hnull =>
        rw [h.silent (by simpa using hnull)]
        exact List.nil_suffix
    · have hnull : s.recvVoiceCallBackFunc = false := hnull
      simp [PollThread.processRTPPacket, hnull, h.silent hnull]
  | setCallBackFunc => exact ⟨h.count, h.heard, (fun hnull => by cases hnull)⟩
  | setThreadExitFlag => exact ⟨h.count, h.heard, h.silent⟩
  | join hfree =>
    refine ⟨fun x => ?_, h.heard, h.silent⟩
    have hbefore := hcount x
    rw [inHand_of_free hfree] at hbefore
    rw [inHand_of_free (by exact hfree)]
    simpa [PollThread.held, packets] using hbefore
  | @validate i srcdat hfree source =>
    refine ⟨fun x => ?_, h.heard, h.silent⟩
    have hset := count_set source { srcdat with validated := true } packets x
    have hbefore := hcount x
    rw [inHand_of_free hfree] at hbefore
    rw [inHand_of_free (by exact hfree)]
    simp only [PollThread.held, packets] at hset hbefore ⊢
    omega
  | @arrive i n pack srcdat hfree source =>
    refine ⟨fun x => ?_, h.heard, h.silent⟩
    have hset := count_set source { srcdat with
      packetlist := srcdat.packetlist.insertIdx (srcdat.packetlist.length - n) pack } packets x
    have hperm := (List.perm_insertIdx pack srcdat.packetlist
      (Nat.sub_le srcdat.packetlist.length n)).map (srcdat.ssrc, ·)
    have hnew := hperm.count_eq x
    rw [List.map_cons, List.count_cons] at hnew
    have hbefore := hcount x
    rw [inHand_of_free hfree] at hbefore
    rw [inHand_of_free (by exact hfree)]
    simp only [PollThread.held, packets, List.count_append, List.count_cons,
      List.count_nil] at hset hbefore ⊢
    omega
  | remove hfree source =>
    refine ⟨fun x => ?_, h.heard, h.silent⟩
    have herase := count_eraseIdx source packets x
    have hbefore := hcount x
    rw [inHand_of_free hfree] at hbefore
    rw [inHand_of_free (by exact hfree)]
    simp only [PollThread.held, List.count_append] at hbefore ⊢
    omega

theorem Kept.perm (h : Kept s) :
    s.arrived.Perm (s.processed ++ s.inHand ++ s.held ++ s.lost) := by
  refine List.perm_iff_count.mpr fun x => ?_
  simpa only [List.count_append] using h.count x

/-- Once the callback is set it is given what is processed. -/
theorem heard_step {processed heard : List (UInt32 × List UInt8)}
    (h : s.recvVoiceCallBackFunc = true ∧ ∃ new, s.processed = processed ++ new ∧
      s.heard = heard ++ new) (hs : step lib s a = some s') :
    s'.recvVoiceCallBackFunc = true ∧ ∃ new, s'.processed = processed ++ new ∧
      s'.heard = heard ++ new := by
  obtain ⟨hset, new, hprocessed, hheard⟩ := h
  cases step_stepsTo hs with
  | first =>
    cases lib.gotoFirstSourceWithData s.sources <;> exact ⟨hset, new, hprocessed, hheard⟩
  | @next i =>
    cases lib.gotoNextSourceWithData s.sources i <;> exact ⟨hset, new, hprocessed, hheard⟩
  | @process i srcdat pack =>
    refine ⟨hset, new ++ [(srcdat.ssrc, pack)], ?_, ?_⟩
    · simp [PollThread.processRTPPacket, hprocessed]
    · simp [PollThread.processRTPPacket, hset, hheard]
  | setCallBackFunc => exact ⟨rfl, new, hprocessed, hheard⟩
  | beginDataAccess | extract | exit | again | setThreadExitFlag | join | validate | arrive
  | remove => exact ⟨hset, new, hprocessed, hheard⟩

/-! ### One access -/

/-- What the thread has still to process in this access. -/
def PollThread.remaining (s : PollThread) : List (UInt32 × List UInt8) :=
  match s.place with
  | .first => s.sources.flatMap pending
  | .packets i | .processing i _ => s.inHand ++ (s.sources.drop i).flatMap pending
  | _ => []

/-- The sources the thread is past have nothing left. -/
def PollThread.Swept (s : PollThread) : Prop :=
  match s.place with
  | .packets i | .processing i _ =>
    i < s.sources.length ∧ (s.sources.take i).flatMap pending = []
  | .polling => s.sources.flatMap pending = []
  | _ => True

/-- The steps left in this access, at most. -/
def PollThread.work (s : PollThread) : Nat :=
  match s.place with
  | .first => 2 * (s.sources.flatMap pending).length + s.sources.length + 2
  | .packets i => 2 * (s.sources.flatMap pending).length + (s.sources.length - i) + 1
  | .processing i _ => 2 * (s.sources.flatMap pending).length + (s.sources.length - i) + 2
  | _ => 0

/-- What holds in the access that began at `s₀`. -/
structure Accessing (s₀ s : PollThread) : Prop where
  here : s.place.Locked ∨ s.place = .polling
  handed : s.processed ++ s.remaining = s₀.processed ++ s₀.remaining
  drained : s.sources.map drained = s₀.sources.map drained
  swept : s.Swept

theorem remaining_packets {i : Nat} (here : s.place = .packets i) :
    s.remaining = (s.sources.drop i).flatMap pending := by
  simp [PollThread.remaining, PollThread.inHand, here]

theorem goto_same (s : PollThread) (next : Option Nat) :
    (s.goto next).processed = s.processed ∧ (s.goto next).sources = s.sources := by
  cases next <;> exact ⟨rfl, rfl⟩

/-- The next source with data is gone to, behind sources that have none. -/
theorem goto_next {n : Nat} {next : Option Nat} (hnext : FirstFrom hasData s.sources n next)
    (hbehind : (s.sources.take n).flatMap pending = []) :
    ((s.goto next).place.Locked ∨ (s.goto next).place = .polling) ∧
    (s.goto next).remaining = (s.sources.drop n).flatMap pending ∧ (s.goto next).Swept ∧
    (s.goto next).work ≤ 2 * (s.sources.flatMap pending).length + (s.sources.length - n) + 1 := by
  cases next with
  | none =>
    have hnone := hnext.none pending_of_not_hasData
    have hall := congrArg (List.flatMap pending) (List.take_append_drop n s.sources)
    rw [List.flatMap_append, hbehind, hnone] at hall
    exact ⟨.inr rfl, hnone.symm, hall.symm, Nat.zero_le _⟩
  | some j =>
    obtain ⟨hle, hlt, hdrop, htake⟩ := hnext.some pending_of_not_hasData
    refine ⟨.inl trivial, hdrop.symm, ⟨hlt, htake.trans hbehind⟩, ?_⟩
    simp only [PollThread.goto, PollThread.work]
    omega

/-- The thread goes to the next source, when there is nothing left for it behind. -/
theorem Accessing.goto {n : Nat} {next : Option Nat} (h : Accessing s₀ s)
    (hnext : FirstFrom hasData s.sources n next)
    (hbehind : (s.sources.take n).flatMap pending = [])
    (hahead : s.remaining = (s.sources.drop n).flatMap pending) :
    Accessing s₀ (s.goto next) := by
  obtain ⟨hprocessed, hsources⟩ := goto_same s next
  obtain ⟨hplace, hremaining, hswept, -⟩ := goto_next hnext hbehind
  refine ⟨hplace, ?_, ?_, hswept⟩
  · rw [hprocessed, hremaining, ← hahead]
    exact h.handed
  · rw [hsources]
    exact h.drained

theorem accessing_step (hlib : lib.Documented) (h : Accessing s₀ s) (hlocked : s.place.Locked)
    (hs : step lib s a = some s') : Accessing s₀ s' ∧
      s'.work + (if decide (a = .goOn) then 1 else 0) ≤ s.work := by
  have hhanded := h.handed
  have hswept := h.swept
  cases step_stepsTo hs with
  | beginDataAccess here | exit here | again here =>
    rw [here] at hlocked
    exact hlocked.elim
  | join hfree | validate hfree | arrive hfree | remove hfree => exact absurd hlocked hfree
  | setCallBackFunc | setThreadExitFlag =>
    exact ⟨⟨h.here, hhanded, h.drained, hswept⟩, Nat.le_refl _⟩
  | first here =>
    have hahead : s.remaining = (s.sources.drop 0).flatMap pending := by
      rw [PollThread.remaining, here, List.drop_zero]
    have hnext := hlib.first s.sources
    obtain ⟨-, -, -, hwork⟩ := goto_next hnext rfl
    refine ⟨h.goto hnext rfl hahead, ?_⟩
    simp only [PollThread.work, here, decide_true, if_true] at hwork ⊢
    omega
  | @next i srcdat here source hnone =>
    have hpending := getNextPacket_eq_none hnone
    rw [PollThread.Swept, here] at hswept
    obtain ⟨hlt, hbehind⟩ := hswept
    -- the source that is left has nothing more
    have hpast : (s.sources.take (i + 1)).flatMap pending = [] := by
      rw [take_flatMap source, hbehind, hpending, List.append_nil]
    have hahead : s.remaining = (s.sources.drop (i + 1)).flatMap pending := by
      rw [remaining_packets here, drop_flatMap source, hpending, List.nil_append]
    have hnext := hlib.next s.sources i
    obtain ⟨-, -, -, hwork⟩ := goto_next hnext hpast
    refine ⟨h.goto hnext hpast hahead, ?_⟩
    simp only [PollThread.work, here, decide_true, if_true] at hwork ⊢
    omega
  | @extract i srcdat rest pack here source next =>
    obtain ⟨-, hpending, hdrained, hssrc⟩ := getNextPacket_eq_some next
    rw [PollThread.Swept, here] at hswept
    obtain ⟨hlt, hbehind⟩ := hswept
    rw [remaining_packets here, drop_flatMap source, hpending] at hhanded
    refine ⟨⟨.inl trivial, ?_, ?_, ?_⟩, ?_⟩
    · rw [← hhanded]
      simp only [PollThread.remaining, PollThread.inHand, List.getElem?_set_self hlt,
        Option.toList_some, List.map_cons, List.map_nil, hssrc]
      rw [drop_flatMap_set source]
      rfl
    · exact (map_set source hdrained).trans h.drained
    · refine ⟨by simpa using hlt, ?_⟩
      simpa [List.take_set_of_le] using hbehind
    · simp only [PollThread.work, here, flatMap_set source, flatMap_split source pending, hpending,
        List.length_append, List.length_cons, List.length_set, decide_true, if_true]
      omega
  | @process i srcdat pack here source =>
    rw [PollThread.Swept, here] at hswept
    simp only [PollThread.remaining, here, PollThread.inHand, source, Option.toList_some,
      List.map_cons, List.map_nil] at hhanded
    refine ⟨⟨.inl trivial, ?_, h.drained, hswept⟩, ?_⟩
    · simpa [PollThread.remaining, PollThread.inHand, PollThread.processRTPPacket] using hhanded
    · simp only [PollThread.work, here, PollThread.processRTPPacket, decide_true, if_true]
      omega

/-- The thread never waits inside an access. -/
theorem Accessing.goesOn (h : Accessing s₀ s) (hlocked : s.place.Locked) :
    ∃ s', step lib s .goOn = some s' := by
  have hswept := h.swept
  refine Option.isSome_iff_exists.mp ?_
  cases here : s.place with
  | outside | polling | left =>
    rw [here] at hlocked
    exact hlocked.elim
  | first => simp [step, PollThread.goOn, here]
  | packets i =>
    rw [PollThread.Swept, here] at hswept
    have hsource := List.getElem?_eq_getElem hswept.1
    simp only [step, PollThread.goOn, here, hsource, Option.bind_eq_bind, Option.bind_some]
    split <;> rfl
  | processing i pack =>
    rw [PollThread.Swept, here] at hswept
    have hsource := List.getElem?_eq_getElem hswept.1
    simp only [step, PollThread.goOn, here, hsource, Option.bind_eq_bind, Option.bind_some]
    rfl

/-- At its end every source that is validated is empty. -/
theorem Accessing.ends (h : Accessing s₀ s) (hend : s.place = .polling) :
    s.processed = s₀.processed ++ s₀.remaining ∧
      s.sources = s₀.sources.map RTPSourceData.drained := by
  have hhanded := h.handed
  have hswept := h.swept
  rw [PollThread.remaining, hend, List.append_nil] at hhanded
  rw [PollThread.Swept, hend] at hswept
  refine ⟨hhanded, ?_⟩
  rw [← h.drained]
  refine (List.map_id s.sources).symm.trans (List.map_congr_left fun srcdat hmem => ?_)
  exact (drained_of_pending (List.flatMap_eq_nil_iff.mp hswept srcdat hmem)).symm

/-- However packets come, sources come and go and the callback is set meanwhile: every packet that
was queued is processed once, or is in the thread's hand, or is still held, or was deleted by the
library; the callback is given nothing before it is set and all that are processed from then on.
Each access takes only so many steps, and hands on, source by source, all that was queued for
validated sources when it began. -/
theorem voice_handed_on (lib : RTPSession) (hlib : lib.Documented) (actions : List Action)
    (s : PollThread) (hrun : run (step lib) .fresh actions = some s) :
    s.arrived.Perm (s.processed ++ s.inHand ++ s.held ++ s.lost) ∧
    (s.recvVoiceCallBackFunc = false → s.heard = []) ∧
    ∀ more s', run (step lib) s more = some s' →
      (s.recvVoiceCallBackFunc = true →
        ∃ new, s'.processed = s.processed ++ new ∧ s'.heard = s.heard ++ new) ∧
      (s.place = .first → Throughout (step lib) (fun s₁ _ _ => s₁.place.Locked) s more →
        more.countP (fun a => a = .goOn) + s'.work ≤ s.work ∧
        (s'.place.Locked → ∃ s'', step lib s' .goOn = some s'') ∧
        (¬ s'.place.Locked → s'.processed = s.processed ++ s.sources.flatMap pending ∧
          s'.sources = s.sources.map drained)) := by
  have hkept : Kept s := run_invariant kept_fresh (fun _ _ _ _ h hs => kept_step h hs) hrun
  refine ⟨hkept.perm, hkept.silent, fun more s' hmore => ⟨fun hset => ?_, fun hfirst hlocked => ?_⟩⟩
  · have hbegin : s.recvVoiceCallBackFunc = true ∧
        ∃ new, s.processed = s.processed ++ new ∧ s.heard = s.heard ++ new :=
      ⟨hset, [], by simp, by simp⟩
    exact (run_invariant (I := fun t => t.recvVoiceCallBackFunc = true ∧
      ∃ new, t.processed = s.processed ++ new ∧ t.heard = s.heard ++ new) hbegin
      (fun _ _ _ _ hI hs => heard_step hI hs) hmore).2
  · have hbegin : Accessing s s := by
      refine ⟨.inl ?_, rfl, rfl, ?_⟩
      · rw [hfirst]
        trivial
      · rw [PollThread.Swept, hfirst]
        trivial
    have hremaining : s.remaining = s.sources.flatMap pending := by
      rw [PollThread.remaining, hfirst]
    obtain ⟨h, hle⟩ := run_countP (I := Accessing s) (fun a : Action => decide (a = .goOn))
      PollThread.work (fun _ _ _ hI hs hP => accessing_step hlib hI hP hs) hbegin hmore hlocked
    refine ⟨hle, h.goesOn, fun hfree => ?_⟩
    rw [← hremaining]
    exact h.ends (h.here.resolve_left hfree)

/-- What the library is documented to do. -/
def sweeping : RTPSession where
  gotoFirstSourceWithData sources := nextFrom hasData sources 0
  gotoNextSourceWithData sources i := nextFrom hasData sources (i + 1)

theorem sweeping_documented : sweeping.Documented where
  first sources := firstFrom_nextFrom hasData sources 0
  next sources i := firstFrom_nextFrom hasData sources (i + 1)

/-- Two sources, of which one has a packet that came before it was validated and one that came
late, and the other has a packet but is not validated. -/
private def arriving : List Action :=
  [.join 5, .arrive 0 0 [3, 4], .join 6, .arrive 1 0 [9], .arrive 0 1 [1, 2], .validate 0,
    .setCallBackFunc, .goOn]

private theorem arriving_run : ∃ s, run (step sweeping) .fresh arriving = some s ∧
    s.place = .first ∧ s.recvVoiceCallBackFunc = true ∧ s.processed = [] ∧
    s.sources = [⟨5, true, [[1, 2], [3, 4]]⟩, ⟨6, false, [[9]]⟩] := ⟨_, rfl, rfl, rfl, rfl, rfl⟩

theorem voice_handed_on_late : ∃ s s', run (step sweeping) .fresh arriving = some s ∧
    run (step sweeping) s (List.replicate 6 .goOn) = some s' ∧
    s'.processed = [(5, [1, 2]), (5, [3, 4])] ∧ s'.heard = s'.processed := by
  obtain ⟨s, hrun, hplace, hset, hprocessed, hsources⟩ := arriving_run
  obtain ⟨s', hmore, hend, hlocked⟩ : ∃ s',
      run (step sweeping) s (List.replicate 6 .goOn) = some s' ∧ s'.place = .polling ∧
      Throughout (step sweeping) (fun s₁ _ _ => s₁.place.Locked) s (List.replicate 6 .goOn) := by
    cases hrun
    refine ⟨_, rfl, rfl, ?_⟩
    iterate 6 refine (throughout_cons rfl).mpr ⟨trivial, ?_⟩
    exact throughout_nil _ _
  obtain ⟨-, -, hall⟩ := voice_handed_on sweeping sweeping_documented _ s hrun
  obtain ⟨hheard, haccess⟩ := hall _ s' hmore
  obtain ⟨-, -, hhanded⟩ := haccess hplace hlocked
  obtain ⟨hprocessed', -⟩ := hhanded (by simp [hend, Place.Locked])
  obtain ⟨new, hnew, hboth⟩ := hheard hset
  have hsilent : s.heard = [] := by
    cases hrun
    rfl
  rw [hprocessed, List.nil_append] at hnew
  rw [hsilent, List.nil_append] at hboth
  refine ⟨s, s', hrun, hmore, ?_, hboth.trans hnew.symm⟩
  rw [hprocessed', hprocessed, hsources]
  rfl

end RTPVoice.MyRTP
