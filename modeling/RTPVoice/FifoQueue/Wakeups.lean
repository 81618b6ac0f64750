import RTPVoice.FifoQueue.Permits

namespace RTPVoice.FifoQueue

open Framework Framework.Transition

variable {s s' : System} {a : Action} {actions : List Action}

/-- Each packet in `m_list` has a permit, or a thread on its way with or to one. -/
def Claimed (s : System) : Prop :=
  s.queue.mList.length = s.queue.queuesem + s.posting + s.holding + s.passed

/-- `ReleaseSemaphore` is not refused at the limit. -/
def Posted (s : System) (a : Action) (_ : System) : Prop :=
  a = .semPost → s.queue.queuesem < maxPermits

/-- A packet loses its claim only to a refused post, and gets none back. -/
theorem claimed_step (hb : Backed s) (hs : step s a = some s') :
    Claimed s' ↔ Claimed s ∧ Posted s a s' := by
  obtain ⟨hle, -⟩ := hb
  unfold Claimed Posted
  cases step_stepsTo hs with
  | store hstore =>
    obtain ⟨⟨sBuffer, hlist⟩, hsem⟩ := store_mList hstore
    simp only [hlist, hsem, List.length_append, List.length_singleton, reduceCtorEq,
      false_imp_iff, and_true]
    omega
  | semPost hposting =>
    simp only [semPost, maxPermits, forall_const]
    omega
  | semWait hpermits =>
    simp only [reduceCtorEq, false_imp_iff, and_true]
    omega
  | timeOut => simp
  | abandon hholding hempty =>
    simp only [hempty, List.length_nil] at hle
    omega
  | test hholding =>
    simp only [reduceCtorEq, false_imp_iff, and_true]
    omega
  | pop hpassed hpop =>
    obtain ⟨⟨sBuffer, hlist⟩, hsem, -⟩ := popFront_mList hpop
    rw [hlist, List.length_cons] at hle ⊢
    simp only [hsem, reduceCtorEq, false_imp_iff, and_true]
    omega

/-- However the threads interleave, every packet in the queue has its permit or its thread exactly
when no post met the limit; so until then a taker waits in vain only for a packet that is not
there. -/
theorem packets_claimed_iff (actions : List Action) (s : System)
    (hrun : run step .fresh actions = some s) :
    Claimed s ↔ Throughout step Posted .fresh actions :=
  kept_iff_throughout backed_fresh rfl (fun _ _ _ => backed_step) (fun _ _ _ => claimed_step) hrun

/-- There are no more permits than steps were taken. -/
theorem queuesem_le (hrun : run step s actions = some s') :
    s'.queue.queuesem ≤ s.queue.queuesem + actions.length := by
  induction actions generalizing s with
  | nil =>
    cases hrun
    exact Nat.le_refl _
  | cons a actions ih =>
    obtain ⟨s₁, hs, hrun⟩ := Option.bind_eq_some_iff.mp hrun
    have hle := ih hrun
    rw [List.length_cons]
    cases step_stepsTo hs with
    | store hstore =>
      have hsem := (store_mList hstore).2
      dsimp only at hle
      omega
    | pop _ hpop =>
      have hsem := (popFront_mList hpop).2.1
      dsimp only at hle
      omega
    | semPost =>
      simp only [semPost] at hle
      omega
    | timeOut => omega
    | semWait | abandon | test =>
      dsimp only at hle
      omega

/-- Two packets with their posts, and two takers. -/
theorem packets_claimed_iff_four : ∃ s, run step .fresh
      [.store [7], .store [8], .semPost, .semWait, .semPost, .semWait, .test, .pop] = some s ∧
    s.holding = 1 ∧ Claimed s := by
  obtain ⟨s, hrun, hholding, -⟩ := run_four_threads
  refine ⟨s, hrun, hholding, (packets_claimed_iff _ s hrun).mpr ?_⟩
  intro pre a post he s₁ s₂ h₁ _ _
  have hlen := congrArg List.length he
  have hle := queuesem_le h₁
  simp only [List.length_append, List.length_cons, List.length_nil, System.fresh, fresh,
    maxPermits] at *
  omega

end RTPVoice.FifoQueue
