import RTPVoice.MyProtocol.Recovery

namespace RTPVoice.MyProtocol

open Framework Framework.Transition

variable {s s' s₁ s₂ : Server} {n : Notice} {o : Nat} {p : SocketParams} {a : Action}
  {actions : List Action}

/-! ### What is deleted -/

theorem recover_deleted (h : Sound s) (hheld : s.held = some n) :
    (s.recover n).deleted = s.deleted ∨ (s.recover n).deleted = s.deleted ++ [n.sender] := by
  unfold Server.recover
  split
  · exact .inl rfl
  · next k o hfind =>
    obtain ⟨-, rfl⟩ := Prod.mk.inj (h.found_sender hheld hfind)
    exact .inr rfl

/-- Only the recovery thread deletes, and only the sender of the notice it holds. -/
theorem deleted_step (h : Sound s) (hs : step s a = some s') : s'.deleted = s.deleted ∨
    a = .recover ∧ ∃ n, s.held = some n ∧ s'.deleted = s.deleted ++ [n.sender] := by
  cases step_stepsTo hs with
  | accept p => exact .inl (sameClients_accept s p).deleted
  | acceptFail => exact .inl (sameClients_acceptFail s).deleted
  | construct p => exact .inl (sameClients_construct s p).deleted
  | insert | readerExit | dequeue => exact .inl rfl
  | recover n hheld =>
    exact (recover_deleted h hheld).imp_right fun hdel => ⟨rfl, n, hheld, hdel⟩

/-- A deletion is of an object whose reader thread has exited and sent the notice processed. -/
def DeletesSender (s₁ : Server) (a : Action) (s₂ : Server) : Prop :=
  ∀ o, s₂.deleted = s₁.deleted ++ [o] →
    a = .recover ∧ o ∈ s₁.exited ∧ ∃ n, s₁.held = some n ∧ n.sender = o

/-- An insertion finds no entry of an object that is not deleted. -/
def OverwritesDeleted (s₁ : Server) (a : Action) (_ : Server) : Prop :=
  ∀ o p, a = .insert o → s₁.objects[o]? = some p →
    ∀ e ∈ s₁.clientmap, e.1.equiv p = true → e.2 ∈ s₁.deleted

theorem deletesSender_step (h : Sound s₁) (hs : step s₁ a = some s₂) : DeletesSender s₁ a s₂ := by
  intro o hdel
  cases deleted_step h hs with
  | inl hsame => simp [hsame] at hdel
  | inr hnew =>
    obtain ⟨ha, n, hheld, hnew⟩ := hnew
    obtain rfl : n.sender = o := by simpa [hnew] using hdel
    have hpending : n ∈ s₁.pending := by simp [Server.pending, hheld]
    exact ⟨ha, (h.notice n hpending).2.1, n, hheld, rfl⟩

theorem overwritesDeleted_step (h : Sound s₁) (hs : step s₁ a = some s₂) :
    OverwritesDeleted s₁ a s₂ := by
  intro o p ha hp e he hequiv
  subst ha
  cases step_stepsTo hs with
  | insert _ _ ho => exact absurd (SocketParams.equiv_iff.mp hequiv) (h.insert_free ho hp e he)

/-- However the threads interleave, recovery deletes no live client and none twice, and no entry
of a client still there is overwritten. -/
theorem recovery_deletes_senders (actions : List Action) (s : Server)
    (hrun : run step .started actions = some s) :
    Throughout step DeletesSender .started actions ∧ s.deleted.Nodup ∧
      Throughout step OverwritesDeleted .started actions := by
  refine ⟨?_, (sound_run hrun).deleted_nodup, ?_⟩
  · refine throughout_of_invariant sound_started ?_ actions
    intro s₁ a s₂ h hs
    exact ⟨sound_step h hs, deletesSender_step h hs⟩
  · refine throughout_of_invariant sound_started ?_ actions
    intro s₁ a s₂ h hs
    exact ⟨sound_step h hs, overwritesDeleted_step h hs⟩

private def reusedRun : List Action :=
  [.accept ⟨100, 50000⟩, .construct ⟨100, 50000⟩, .insert 0, .readerExit 0, .dequeue, .recover,
    .accept ⟨100, 50000⟩, .construct ⟨100, 50000⟩, .insert 1, .readerExit 1, .dequeue, .recover]

/-- The same handle and port, accepted again after the first client is deleted. -/
theorem recovery_deletes_senders_reused : ∃ s, run step .started reusedRun = some s ∧
    s.deleted = [0, 1] ∧ s.deleted.Nodup ∧ Throughout step DeletesSender .started reusedRun := by
  obtain ⟨hdeletes, hnodup, -⟩ := recovery_deletes_senders reusedRun _ rfl
  exact ⟨_, rfl, rfl, hnodup, hdeletes⟩

/-! ### Dead clients -/

/-- The notice of every registered client whose reader thread has exited is still to be
processed. -/
def NoDeadEntry (s : Server) : Prop :=
  ∀ e ∈ s.clientmap, e.2 ∈ s.exited → ∃ n ∈ s.pending, n.sender = e.2

/-- An insertion comes before the client's notice is processed. -/
def Timely (s₁ : Server) (a : Action) (_ : Server) : Prop :=
  ∀ o, a = .insert o → o ∉ s₁.handled

theorem NoDeadEntry.same (hd : NoDeadEntry s) (h : SameClients s s') : NoDeadEntry s' := by
  rw [NoDeadEntry, h.clientmap, h.exited, h.pending]
  exact hd

theorem noDeadEntry_insert (h : Sound s) (hd : NoDeadEntry s) (ho : o ∈ s.inserting)
    (hp : s.objects[o]? = some p) : NoDeadEntry (s.insert o p) ↔ o ∉ s.handled := by
  have hmap : (s.insert o p).clientmap = s.clientmap ++ [(p, o)] := h.assign_eq ho hp
  constructor
  · intro hnew hhandled
    obtain ⟨n, hn, rfl⟩ := hnew (p, o) (by rw [hmap]; simp) (h.handled_exited o hhandled)
    exact (h.notice n hn).2.2 hhandled
  · intro hhandled
    rw [NoDeadEntry, hmap]
    refine forall_mem_snoc.mpr ⟨hd, ?_⟩
    intro hexited
    exact (h.exited_noticed o hexited).resolve_left hhandled

theorem noDeadEntry_notify (hd : NoDeadEntry s) : NoDeadEntry (s.notify o p) := by
  intro e he hexited
  cases List.mem_append.mp hexited with
  | inl hexited =>
    obtain ⟨n, hn, hs⟩ := hd e he hexited
    refine ⟨n, ?_, hs⟩
    rw [Server.pending, Server.notify, ← List.append_assoc]
    exact List.mem_append_left _ hn
  | inr hexited =>
    exact ⟨⟨p, o⟩, by simp [Server.pending, Server.notify], (List.mem_singleton.mp hexited).symm⟩

/-- Behind a notice processed no entry of its sender is left. -/
theorem recover_entry (h : Sound s) (hheld : s.held = some n) {e : SocketParams × Nat}
    (he : e ∈ (s.recover n).clientmap) : e ∈ s.clientmap ∧ e.2 ≠ n.sender := by
  unfold Server.recover at he
  split at he
  · next hfind =>
    refine ⟨he, fun hsender => ?_⟩
    have hget := (h.notice n (by simp [Server.pending, hheld])).1
    have hkey : e.1 = n.clientsocket :=
      Option.some.inj ((h.entry_alive e he).1.symm.trans (hsender ▸ hget))
    exact List.find?_eq_none.mp hfind e he (SocketParams.equiv_iff.mpr hkey)
  · next hfind => exact h.mem_eraseP hheld hfind he

theorem noDeadEntry_recover (h : Sound s) (hheld : s.held = some n) (hd : NoDeadEntry s) :
    NoDeadEntry (s.recover n) := by
  have hpending : (s.recover n).pending = s.clientqueue := by
    unfold Server.recover
    split <;> rfl
  have hexited : (s.recover n).exited = s.exited := by
    unfold Server.recover
    split <;> rfl
  intro e he hex
  obtain ⟨hmem, hne⟩ := recover_entry h hheld he
  obtain ⟨n', hn', hs⟩ := hd e hmem (hexited ▸ hex)
  rw [Server.pending, hheld, Option.toList_some, List.singleton_append] at hn'
  rcases List.mem_cons.mp hn' with rfl | hn'
  · exact absurd hs.symm hne
  · exact ⟨n', hpending ▸ hn', hs⟩

theorem noDeadEntry_step (h : Sound s₁) (hd : NoDeadEntry s₁) (hs : step s₁ a = some s₂) :
    NoDeadEntry s₂ ↔ Timely s₁ a s₂ := by
  -- only an insertion can leave a dead client registered
  have hkept (hne : ∀ o, a ≠ .insert o) (h₂ : NoDeadEntry s₂) : NoDeadEntry s₂ ↔ Timely s₁ a s₂ :=
    ⟨fun _ o ha => absurd ha (hne o), fun _ => h₂⟩
  cases step_stepsTo hs with
  | accept p => exact hkept (by simp) (hd.same (sameClients_accept s₁ p))
  | acceptFail => exact hkept (by simp) (hd.same (sameClients_acceptFail s₁))
  | construct p => exact hkept (by simp) (hd.same (sameClients_construct s₁ p))
  | insert o p ho hp =>
    rw [noDeadEntry_insert h hd ho hp]
    exact ⟨fun hn o' he => by cases he; exact hn, fun ht => ht o rfl⟩
  | readerExit o p => exact hkept (by simp) (noDeadEntry_notify hd)
  | dequeue n rest hheld hqueue =>
    refine hkept (by simp) (hd.same ⟨rfl, rfl, ?_, rfl⟩)
    simp [Server.pending, hheld, hqueue]
  | recover n hheld => exact hkept (by simp) (noDeadEntry_recover h hheld hd)

/-- No dead client stays registered, whatever the interleaving, precisely when every insertion
comes before the recovery thread has processed the client's notice. -/
theorem no_dead_entry_iff (actions : List Action) (s : Server)
    (hrun : run step .started actions = some s) :
    (∀ pre s', pre <+: actions → run step .started pre = some s' → NoDeadEntry s') ↔
      Throughout step Timely .started actions := by
  have hstarted : NoDeadEntry .started :=
    NoDeadEntry.same (by simp [NoDeadEntry, Server.fresh]) (sameClients_createListenThread .fresh)
  rw [← throughout_states hstarted]
  exact throughout_iff (I := fun s => Sound s ∧ NoDeadEntry s) ⟨sound_started, hstarted⟩
    (fun s₁ a s₂ _ hI hs hd => ⟨sound_step hI.1 hs, hd⟩)
    (fun s₁ a s₂ _ hI hs => noDeadEntry_step hI.1 hI.2 hs) hrun

/-- A client that is gone before its object is inserted. -/
theorem dead_client_registered : ∃ s, run step .started
      [.accept ⟨100, 50000⟩, .construct ⟨100, 50000⟩, .readerExit 0, .dequeue, .recover,
        .insert 0] = some s ∧
    s.clientmap = [(⟨100, 50000⟩, 0)] ∧ ¬ NoDeadEntry s := by
  refine ⟨_, rfl, rfl, fun h => ?_⟩
  obtain ⟨n, hn, -⟩ := h (⟨100, 50000⟩, 0) (by decide) (by decide)
  exact List.not_mem_nil (show n ∈ ([] : List Notice) from hn)

private def registeredRun : List Action :=
  [.accept ⟨100, 50000⟩, .construct ⟨100, 50000⟩, .insert 0, .readerExit 0]

/-- A client that is registered before its reader thread exits. -/
theorem no_dead_entry_iff_registered : ∃ s, run step .started registeredRun = some s ∧
    NoDeadEntry s ∧ s.exited = [0] := by
  refine ⟨_, rfl, ?_, rfl⟩
  refine (no_dead_entry_iff registeredRun _ rfl).mpr ?_ registeredRun _ List.prefix_rfl rfl
  intro pre a post he s₁ s₂ h₁ _ o ho
  subst ho
  rw [registeredRun] at he
  match pre with
  | [] | [_] => simp at he
  | [b, c] =>
    obtain ⟨rfl, rfl, -⟩ := by simpa using he
    obtain rfl := Option.some.inj h₁
    exact List.not_mem_nil
  | b :: c :: d :: pre => cases pre <;> simp at he

end RTPVoice.MyProtocol
