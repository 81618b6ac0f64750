import RTPVoice.Framework.Transition
import Mathlib.Logic.Function.Basic

namespace Framework.Interleaving

open Transition

section Part

variable {σ τ α β : Type} {step : σ → α → Option σ} (part : σ → τ) (act : α → Option β)
  (step' : τ → β → Option τ)

/-- A step leaves a part of the state alone, or is one of the part's own of which `P` holds. -/
def Moves (P : τ → β → τ → Prop) (s : σ) (a : α) (s' : σ) : Prop :=
  match act a with
  | none => part s' = part s
  | some b => step' (part s) b = some (part s') ∧ P (part s) b (part s')

/-- The part runs as it would alone. -/
theorem run_part {P : τ → β → τ → Prop} {s s' : σ} {as : List α} (h : run step s as = some s')
    (ht : Throughout step (Moves part act step' P) s as) :
    run step' (part s) (as.filterMap act) = some (part s') ∧
      Throughout step' P (part s) (as.filterMap act) := by
  induction as generalizing s with
  | nil =>
    cases h
    exact ⟨rfl, throughout_nil P _⟩
  | cons a as ih =>
    obtain ⟨s₁, h₁, hrest⟩ := Option.bind_eq_some_iff.mp h
    obtain ⟨hmoves, hlater⟩ := (throughout_cons h₁).mp ht
    obtain ⟨hrun, hP⟩ := ih hrest hlater
    cases hact : act a with
    | none =>
      rw [Moves, hact] at hmoves
      rw [List.filterMap_cons_none hact, ← hmoves]
      exact ⟨hrun, hP⟩
    | some b =>
      rw [Moves, hact] at hmoves
      obtain ⟨hstep, hb⟩ := hmoves
      rw [List.filterMap_cons_some hact, run_cons, hstep, Option.bind_some]
      exact ⟨hrun, (throughout_cons hstep).mpr ⟨hb, hP⟩⟩

end Part

variable {ι σ α : Type} [DecidableEq ι] (step : ι → σ → α → Option σ)

/-- A step of one of a family of systems that share nothing. -/
def interleave (s : ι → σ) (a : ι × α) : Option (ι → σ) :=
  (step a.1 (s a.1) a.2).map (Function.update s a.1)

/-- The action of one of them, if it is that. -/
def ownAction (i : ι) (a : ι × α) : Option α := if a.1 = i then some a.2 else none

/-- The actions of one of them. -/
def own (i : ι) (as : List (ι × α)) : List α := as.filterMap (ownAction i)

variable {step} {s s' : ι → σ} {a : ι × α} {as : List (ι × α)}

theorem interleave_self {i : ι} {b : α} (h : interleave step s (i, b) = some s') :
    step i (s i) b = some (s' i) := by
  obtain ⟨t, ht, rfl⟩ := Option.map_eq_some_iff.mp h
  simpa using ht

/-- The other systems stay as they are. -/
theorem interleave_ne {i : ι} (hi : a.1 ≠ i) (h : interleave step s a = some s') : s' i = s i := by
  obtain ⟨t, -, rfl⟩ := Option.map_eq_some_iff.mp h
  exact Function.update_of_ne (Ne.symm hi) t s

theorem interleave_moves {P : σ → α → σ → Prop} (i : ι) (h : interleave step s a = some s')
    (hP : a.1 = i → P (s i) a.2 (s' i)) : Moves (· i) (ownAction i) (step i) P s a s' := by
  by_cases hi : a.1 = i
  · obtain ⟨j, b⟩ := a
    obtain rfl : j = i := hi
    simpa [Moves, ownAction] using ⟨interleave_self h, hP rfl⟩
  · simpa [Moves, ownAction, hi] using interleave_ne hi h

/-- Each system runs as it would alone. -/
theorem run_own (h : run (interleave step) s as = some s') (i : ι) :
    run (step i) (s i) (own i as) = some (s' i) :=
  (run_part (· i) (ownAction i) (step i) h fun _ _ _ _ _ _ _ h₂ =>
    interleave_moves (P := fun _ _ _ => True) i h₂ fun _ => trivial).1

/-- What holds of the steps of one system holds throughout its run. -/
theorem throughout_own {P : σ → α → σ → Prop} (i : ι)
    (h : run (interleave step) s as = some s')
    (ht : Throughout (interleave step) (fun s₁ a s₂ => a.1 = i → P (s₁ i) a.2 (s₂ i)) s as) :
    Throughout (step i) P (s i) (own i as) := by
  refine (run_part (· i) (ownAction i) (step i) h fun pre a post he s₁ s₂ h₁ h₂ => ?_).2
  exact interleave_moves i h₂ (ht pre a post he s₁ s₂ h₁ h₂)

section Alone

variable (step)

/-- One system takes a step while the others rest. -/
theorem interleave_update {i : ι} {t t' : σ} {b : α} (h : step i t b = some t') :
    interleave step (Function.update s i t) (i, b) = some (Function.update s i t') := by
  simp [interleave, h]

/-- A run of one system while the others rest. -/
theorem run_alone {i : ι} {t t' : σ} {bs : List α} (h : run (step i) t bs = some t') :
    run (interleave step) (Function.update s i t) (bs.map (Prod.mk i)) =
      some (Function.update s i t') := by
  induction bs generalizing t with
  | nil =>
    cases h
    rfl
  | cons b bs ih =>
    obtain ⟨t₁, h₁, hrest⟩ := Option.bind_eq_some_iff.mp h
    rw [List.map_cons, run_cons, interleave_update step h₁, Option.bind_some, ih hrest]

theorem throughout_alone {P : σ → α → σ → Prop} {i : ι} {t t' : σ} {bs : List α}
    (h : run (step i) t bs = some t') (ht : Throughout (step i) P t bs) :
    Throughout (interleave step) (fun s₁ a s₂ => a.1 = i ∧ P (s₁ i) a.2 (s₂ i))
      (Function.update s i t) (bs.map (Prod.mk i)) := by
  induction bs generalizing t with
  | nil => exact throughout_nil _ _
  | cons b bs ih =>
    obtain ⟨t₁, h₁, hrest⟩ := Option.bind_eq_some_iff.mp h
    obtain ⟨hP, hlater⟩ := (throughout_cons h₁).mp ht
    refine (throughout_cons (interleave_update step h₁)).mpr ⟨⟨rfl, ?_⟩, ih hrest hlater⟩
    simpa using hP

end Alone

end Framework.Interleaving
