import Mathlib.Data.List.Basic
import Mathlib.Data.List.Induction
import Mathlib.Tactic.Common

namespace Framework.Transition

variable {σ α : Type} (step : σ → α → Option σ)

/-- The actions one after another; `none` when one of them cannot be taken. -/
def run : σ → List α → Option σ
  | s, [] => some s
  | s, a :: as => (step s a).bind fun s' => run s' as

variable {step}

@[simp] theorem run_nil (s : σ) : run step s [] = some s := rfl

@[simp] theorem run_cons (s : σ) (a : α) (as : List α) :
    run step s (a :: as) = (step s a).bind fun s' => run step s' as := rfl

theorem run_append (s : σ) (as bs : List α) :
    run step s (as ++ bs) = (run step s as).bind fun s' => run step s' bs := by
  induction as generalizing s with
  | nil => rfl
  | cons a as ih =>
    rw [List.cons_append, run_cons, run_cons, Option.bind_assoc]
    exact Option.bind_congr fun s' _ => ih s'

theorem run_snoc (s : σ) (as : List α) (a : α) :
    run step s (as ++ [a]) = (run step s as).bind fun s' => step s' a := by
  rw [run_append]
  exact Option.bind_congr fun s' _ => by simp

theorem run_pair {s s' : σ} {a b : α} (h : run step s [a, b] = some s') :
    ∃ s₁, step s a = some s₁ ∧ step s₁ b = some s' := by
  obtain ⟨s₁, h₁, h⟩ := Option.bind_eq_some_iff.mp h
  obtain ⟨s₂, h₂, h⟩ := Option.bind_eq_some_iff.mp h
  exact ⟨s₁, h₁, h₂.trans h⟩

/-- `P` holds of every step of the run. -/
def Throughout (step : σ → α → Option σ) (P : σ → α → σ → Prop) (s : σ) (as : List α) : Prop :=
  ∀ pre a post, as = pre ++ a :: post → ∀ s₁ s₂, run step s pre = some s₁ →
    step s₁ a = some s₂ → P s₁ a s₂

theorem throughout_nil (P : σ → α → σ → Prop) (s : σ) : Throughout step P s [] := by
  intro pre a post h
  simp at h

theorem throughout_snoc {P : σ → α → σ → Prop} {s s' : σ} {as : List α} {a : α}
    (h : run step s as = some s') : Throughout step P s (as ++ [a]) ↔
      Throughout step P s as ∧ ∀ s'', step s' a = some s'' → P s' a s'' := by
  constructor
  · intro ht
    refine ⟨fun pre b post he s₁ s₂ h₁ h₂ => ?_, fun s'' h'' => ?_⟩
    · exact ht pre b (post ++ [a]) (by rw [he]; simp) s₁ s₂ h₁ h₂
    · exact ht as a [] rfl s' s'' h h''
  · intro h' pre b post he s₁ s₂ h₁ h₂
    obtain ⟨ht, hlast⟩ := h'
    cases List.eq_nil_or_concat post with
    | inl hpost =>
      subst hpost
      obtain ⟨rfl, hab⟩ := List.append_inj' he rfl
      obtain ⟨rfl⟩ : a = b := by simpa using hab
      obtain rfl : s' = s₁ := Option.some.inj (h.symm.trans h₁)
      exact hlast s₂ h₂
    | inr hpost =>
      obtain ⟨post', c, rfl⟩ := hpost
      have he' : as ++ [a] = (pre ++ b :: post') ++ [c] := by simpa using he
      obtain ⟨rfl, -⟩ := List.append_inj' he' rfl
      exact ht pre b post' rfl s₁ s₂ h₁ h₂

/-- What holds at the start and behind every step holds of every state the run goes through. -/
theorem throughout_states {Q : σ → Prop} {s : σ} {as : List α} (hs : Q s) :
    Throughout step (fun _ _ s₂ => Q s₂) s as ↔
      ∀ pre s', pre <+: as → run step s pre = some s' → Q s' := by
  constructor
  · intro ht pre s' hpre hrun
    obtain ⟨post, rfl⟩ := hpre
    cases List.eq_nil_or_concat pre with
    | inl hnil =>
      subst hnil
      exact Option.some.inj hrun ▸ hs
    | inr hsnoc =>
      obtain ⟨pre, a, rfl⟩ := hsnoc
      rw [List.concat_eq_append, run_snoc] at hrun
      obtain ⟨s₁, h₁, h₂⟩ := Option.bind_eq_some_iff.mp hrun
      exact ht pre a post (by simp) s₁ s' h₁ h₂
  · intro h pre a post he s₁ s₂ h₁ h₂
    subst he
    refine h (pre ++ [a]) s₂ ⟨post, by simp⟩ ?_
    rw [run_snoc, h₁, Option.bind_some, h₂]

/-- An invariant kept by the steps of which `P` holds. -/
theorem throughout_invariant {I : σ → Prop} {P : σ → α → σ → Prop} {s : σ} {as : List α} {s' : σ}
    (hs : I s)
    (hstep : ∀ s₁ a s₂, a ∈ as → I s₁ → step s₁ a = some s₂ → P s₁ a s₂ → I s₂)
    (h : run step s as = some s') (ht : Throughout step P s as) : I s' := by
  induction as using List.reverseRecOn generalizing s' with
  | nil =>
    obtain rfl := Option.some.inj h
    exact hs
  | append_singleton as a ih =>
    rw [run_snoc] at h
    obtain ⟨s₁, h₁, h₂⟩ := Option.bind_eq_some_iff.mp h
    obtain ⟨ht₁, hlast⟩ := (throughout_snoc h₁).mp ht
    have hI : I s₁ := ih (fun s₁ b s₂ hb => hstep s₁ b s₂ (List.mem_append_left _ hb)) h₁ ht₁
    exact hstep s₁ a s' (by simp) hI h₂ (hlast s' h₂)

/-- What holds at the start and is kept by every step holds at the end of every run. -/
theorem run_invariant {I : σ → Prop} {s s' : σ} {as : List α} (hs : I s)
    (hstep : ∀ s₁ a s₂, a ∈ as → I s₁ → step s₁ a = some s₂ → I s₂)
    (h : run step s as = some s') : I s' :=
  throughout_invariant (P := fun _ _ _ => True) hs
    (fun s₁ a s₂ ha hI hstep' _ => hstep s₁ a s₂ ha hI hstep') h fun _ _ _ _ _ _ _ _ => trivial

/-- A step property that follows from an invariant holds throughout every run. -/
theorem throughout_of_invariant {I : σ → Prop} {P : σ → α → σ → Prop} {s : σ} (hs : I s)
    (hstep : ∀ s₁ a s₂, I s₁ → step s₁ a = some s₂ → I s₂ ∧ P s₁ a s₂) (as : List α) :
    Throughout step P s as := by
  intro pre a post _ s₁ s₂ h₁ h₂
  have hI : I s₁ := run_invariant hs (fun s₁ b s₂ _ hI h => (hstep s₁ b s₂ hI h).1) h₁
  exact (hstep s₁ a s₂ hI h₂).2

/-- Two step properties that say the same under an invariant the first of them keeps. -/
theorem throughout_iff {I : σ → Prop} {P Q : σ → α → σ → Prop} {s : σ} {as : List α} {s' : σ}
    (hs : I s) (hP : ∀ s₁ a s₂, a ∈ as → I s₁ → step s₁ a = some s₂ → P s₁ a s₂ → I s₂)
    (hPQ : ∀ s₁ a s₂, a ∈ as → I s₁ → step s₁ a = some s₂ → (P s₁ a s₂ ↔ Q s₁ a s₂))
    (h : run step s as = some s') : Throughout step P s as ↔ Throughout step Q s as := by
  induction as using List.reverseRecOn generalizing s' with
  | nil => exact ⟨fun _ => throughout_nil Q s, fun _ => throughout_nil P s⟩
  | append_singleton as a ih =>
    rw [run_snoc] at h
    obtain ⟨s₁, h₁, h₂⟩ := Option.bind_eq_some_iff.mp h
    have hP' : ∀ s₁ b s₂, b ∈ as → I s₁ → step s₁ b = some s₂ → P s₁ b s₂ → I s₂ :=
      fun s₁ b s₂ hb => hP s₁ b s₂ (List.mem_append_left _ hb)
    rw [throughout_snoc h₁, throughout_snoc h₁,
      ← ih hP' (fun s₁ b s₂ hb => hPQ s₁ b s₂ (List.mem_append_left _ hb)) h₁]
    refine and_congr_right fun ht => ?_
    have hI : I s₁ := throughout_invariant hs hP' h₁ ht
    exact forall_congr' fun s₂ => imp_congr_right fun h₂ => hPQ s₁ a s₂ (by simp) hI h₂

/-- What a step keeps exactly when `P` holds of it is kept by a run exactly when `P` holds
throughout. -/
theorem kept_iff_throughout {I Q : σ → Prop} {P : σ → α → σ → Prop} {s s' : σ} {as : List α}
    (hI : I s) (hQ : Q s) (hkeep : ∀ s₁ a s₂, I s₁ → step s₁ a = some s₂ → I s₂)
    (hstep : ∀ s₁ a s₂, I s₁ → step s₁ a = some s₂ → (Q s₂ ↔ Q s₁ ∧ P s₁ a s₂))
    (h : run step s as = some s') : Q s' ↔ Throughout step P s as := by
  induction as using List.reverseRecOn generalizing s' with
  | nil =>
    cases h
    exact iff_of_true hQ (throughout_nil P s)
  | append_singleton as a ih =>
    rw [run_snoc] at h
    obtain ⟨s₁, h₁, h₂⟩ := Option.bind_eq_some_iff.mp h
    have hI₁ : I s₁ := run_invariant hI (fun s₁ b s₂ _ => hkeep s₁ b s₂) h₁
    rw [throughout_snoc h₁, hstep s₁ a s' hI₁ h₂, ih h₁]
    exact and_congr_right fun _ =>
      ⟨fun hP s₂ h' => Option.some.inj (h₂.symm.trans h') ▸ hP, fun hP => hP s' h₂⟩

theorem throughout_cons {P : σ → α → σ → Prop} {s s' : σ} {a : α} {as : List α}
    (hs : step s a = some s') :
    Throughout step P s (a :: as) ↔ P s a s' ∧ Throughout step P s' as := by
  constructor
  · intro h
    refine ⟨h [] a as rfl s s' rfl hs, fun pre b post he s₁ s₂ h₁ h₂ => ?_⟩
    refine h (a :: pre) b post (by rw [he]; rfl) s₁ s₂ ?_ h₂
    rw [run_cons, hs, Option.bind_some, h₁]
  · intro h pre b post he s₁ s₂ h₁ h₂
    obtain ⟨ha, h⟩ := h
    cases pre with
    | nil =>
      cases he
      cases h₁
      obtain rfl := Option.some.inj (hs.symm.trans h₂)
      exact ha
    | cons c pre =>
      cases he
      rw [run_cons, hs, Option.bind_some] at h₁
      exact h pre b post rfl s₁ s₂ h₁ h₂

theorem throughout_append {P : σ → α → σ → Prop} {s s' : σ} {as bs : List α}
    (h : run step s as = some s') :
    Throughout step P s (as ++ bs) ↔ Throughout step P s as ∧ Throughout step P s' bs := by
  induction as generalizing s with
  | nil =>
    cases h
    exact (and_iff_right (throughout_nil P _)).symm
  | cons a as ih =>
    obtain ⟨s₁, h₁, h⟩ := Option.bind_eq_some_iff.mp h
    rw [List.cons_append, throughout_cons h₁, throughout_cons h₁, ih h, and_assoc]

/-- Among steps of which `P` holds, which keep `I` and never make `work` more, there are only so
many that make it less. -/
theorem run_countP {I : σ → Prop} {P : σ → α → σ → Prop} (p : α → Bool) (work : σ → Nat)
    (hstep : ∀ s a s', I s → step s a = some s' → P s a s' →
      I s' ∧ work s' + (if p a then 1 else 0) ≤ work s)
    {s s' : σ} {as : List α} (hs : I s) (h : run step s as = some s')
    (ht : Throughout step P s as) : I s' ∧ as.countP p + work s' ≤ work s := by
  induction as generalizing s with
  | nil =>
    cases h
    exact ⟨hs, Nat.le_of_eq (Nat.zero_add _)⟩
  | cons a as ih =>
    obtain ⟨s₁, h₁, h⟩ := Option.bind_eq_some_iff.mp h
    obtain ⟨ha, ht⟩ := (throughout_cons h₁).mp ht
    obtain ⟨hI, hle₁⟩ := hstep s a s₁ hs h₁ ha
    obtain ⟨hI', hle⟩ := ih hI h ht
    exact ⟨hI', by rw [List.countP_cons]; omega⟩

/-- Steps of which `P` holds, each of which keeps `I` and makes `work` less, come to an end. -/
theorem run_work {I : σ → Prop} {P : σ → α → σ → Prop} (work : σ → Nat)
    (hstep : ∀ s a s', I s → step s a = some s' → P s a s' → I s' ∧ work s' < work s)
    {s s' : σ} {as : List α} (hs : I s) (h : run step s as = some s')
    (ht : Throughout step P s as) : I s' ∧ as.length + work s' ≤ work s := by
  have hall := run_countP (fun _ => true) work hstep hs h ht
  rwa [List.countP_true] at hall

/-- Where such a step can be taken until `Q` holds, a run of them leads to `Q`. -/
theorem run_until {I Q : σ → Prop} {P : σ → α → σ → Prop} (work : σ → Nat)
    (hstep : ∀ s a s', I s → step s a = some s' → P s a s' → I s' ∧ work s' < work s)
    (hnext : ∀ s, I s → ¬ Q s → ∃ a s', step s a = some s' ∧ P s a s') {s : σ} (hs : I s) :
    ∃ as s', run step s as = some s' ∧ Throughout step P s as ∧ I s' ∧ Q s' := by
  induction hn : work s using Nat.strongRecOn generalizing s with
  | ind n ih =>
    by_cases hQ : Q s
    · exact ⟨[], s, rfl, throughout_nil P s, hs, hQ⟩
    · obtain ⟨a, s₁, h₁, hP⟩ := hnext s hs hQ
      obtain ⟨hI, hlt⟩ := hstep s a s₁ hs h₁ hP
      obtain ⟨as, s', hrun, hall, hI', hQ'⟩ := ih _ (hn ▸ hlt) hI rfl
      refine ⟨a :: as, s', ?_, (throughout_cons h₁).mpr ⟨hP, hall⟩, hI', hQ'⟩
      rw [run_cons, h₁, Option.bind_some, hrun]

section Outputs

variable {β : Type} (step) (out : σ → α → List β)

/-- What the steps of a run give out, one after another. -/
def outputs : σ → List α → List β
  | _, [] => []
  | s, a :: as => out s a ++
    match step s a with
    | some s' => outputs s' as
    | none => []

theorem outputs_snoc {s s' : σ} {as : List α} (a : α) (h : run step s as = some s') :
    outputs step out s (as ++ [a]) = outputs step out s as ++ out s' a := by
  induction as generalizing s with
  | nil =>
    cases h
    simp only [outputs, List.nil_append]
    split <;> rw [List.append_nil]
  | cons b as ih =>
    obtain ⟨s₁, h₁, h⟩ := Option.bind_eq_some_iff.mp h
    simp only [List.cons_append, outputs, h₁, ih h, List.append_assoc]

end Outputs

/-- If every step of one system is matched by a step of another, so is every run. -/
theorem run_simulation {τ β : Type} {step' : τ → β → Option τ} {f : β → α} {R : σ → τ → Prop}
    {bs : List β} (hstep : ∀ s t b t', b ∈ bs → R s t → step' t b = some t' →
      ∃ s', step s (f b) = some s' ∧ R s' t')
    {s : σ} {t t' : τ} (h : R s t) (hrun : run step' t bs = some t') :
    ∃ s', run step s (bs.map f) = some s' ∧ R s' t' := by
  induction bs generalizing s t with
  | nil =>
    cases hrun
    exact ⟨s, rfl, h⟩
  | cons b bs ih =>
    obtain ⟨t₁, h₁, hrun⟩ := Option.bind_eq_some_iff.mp hrun
    obtain ⟨s₁, hs₁, hR⟩ := hstep s t b t₁ (by simp) h h₁
    obtain ⟨s', hs', hR'⟩ := ih (fun s t b t' hb => hstep s t b t' (by simp [hb])) hR hrun
    refine ⟨s', ?_, hR'⟩
    rw [List.map_cons, run_cons, hs₁, Option.bind_some, hs']

end Framework.Transition
