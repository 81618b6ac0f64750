import Mathlib.Data.List.Basic
import Mathlib.Order.WellFounded
import Mathlib.Tactic.Common

namespace Framework.Loop

/-- Where control goes at the end of one pass: back to the label, or out of the loop. -/
inductive Exit (σ ρ : Type) where
  | jump (s : σ)
  | leave (r : ρ)
  deriving DecidableEq

/-- One pass through the body: the events it emits, in order, and its exit. -/
structure Pass (σ ρ ε : Type) where
  events : List ε
  exit : Exit σ ρ
  deriving DecidableEq

/-- What a run bounded by a number of passes gives; `fault` is undefined behaviour. -/
inductive Outcome (ρ ε : Type) where
  | returned (r : ρ) (events : List ε)
  | fault
  | looping
  deriving DecidableEq

variable {σ ρ ε : Type}

namespace Outcome

/-- Put the events of an earlier pass in front. -/
def after (es : List ε) : Outcome ρ ε → Outcome ρ ε
  | returned r es' => returned r (es ++ es')
  | fault => fault
  | looping => looping

theorem after_eq_returned {es fs : List ε} {o : Outcome ρ ε} {r : ρ} :
    o.after es = returned r fs ↔ ∃ es', o = returned r es' ∧ fs = es ++ es' := by
  cases o with
  | returned r' es' =>
    simp only [after, returned.injEq]
    constructor
    · intro h
      obtain ⟨rfl, rfl⟩ := h
      exact ⟨es', ⟨rfl, rfl⟩, rfl⟩
    · intro h
      obtain ⟨es'', ⟨rfl, rfl⟩, rfl⟩ := h
      exact ⟨rfl, rfl⟩
  | fault => simp [after]
  | looping => simp [after]

end Outcome

variable (body : σ → Option (Pass σ ρ ε))

/-- At most `fuel` passes through the body. -/
def run : Nat → σ → Outcome ρ ε
  | 0, _ => .looping
  | fuel + 1, s =>
    match body s with
    | none => .fault
    | some ⟨es, .leave r⟩ => .returned r es
    | some ⟨es, .jump s'⟩ => (run fuel s').after es

/-- The loop entered at `s` is left with `r` after emitting `es`. -/
inductive Returns : σ → ρ → List ε → Prop where
  | leave {s r es} (h : body s = some ⟨es, .leave r⟩) : Returns s r es
  | jump {s s' r es es'} (h : body s = some ⟨es, .jump s'⟩) (ht : Returns s' r es') :
      Returns s r (es ++ es')

variable {body}

theorem run_of_returns {s : σ} {r : ρ} {es : List ε} (h : Returns body s r es) :
    ∃ fuel, run body fuel s = .returned r es := by
  induction h with
  | leave h => exact ⟨1, by simp [run, h]⟩
  | jump h _ ih =>
    obtain ⟨fuel, hf⟩ := ih
    exact ⟨fuel + 1, by simp [run, h, hf, Outcome.after]⟩

theorem returns_of_run {fuel : Nat} {s : σ} {r : ρ} {es : List ε}
    (h : run body fuel s = .returned r es) : Returns body s r es := by
  induction fuel generalizing s es with
  | zero => simp [run] at h
  | succ fuel ih =>
    unfold run at h
    split at h
    · simp at h
    · next es' r' hb =>
      obtain ⟨rfl, rfl⟩ : r' = r ∧ es' = es := by simpa using h
      exact .leave hb
    · next es' s' hb =>
      obtain ⟨es'', hr, rfl⟩ := Outcome.after_eq_returned.mp h
      exact .jump hb (ih hr)

/-- The bounded runs and the unbounded one agree. -/
theorem returns_iff_run {s : σ} {r : ρ} {es : List ε} :
    Returns body s r es ↔ ∃ fuel, run body fuel s = .returned r es :=
  ⟨run_of_returns, fun ⟨_, h⟩ => returns_of_run h⟩

/-- More fuel does not change a result. -/
theorem run_mono {fuel fuel' : Nat} {s : σ} {r : ρ} {es : List ε} (hle : fuel ≤ fuel')
    (h : run body fuel s = .returned r es) : run body fuel' s = .returned r es := by
  induction fuel generalizing fuel' s es with
  | zero => simp [run] at h
  | succ fuel ih =>
    obtain ⟨k, rfl⟩ : ∃ k, fuel' = k + 1 := ⟨fuel' - 1, by omega⟩
    unfold run at h ⊢
    split at h
    · simp at h
    · next hb => simpa [hb] using h
    · next es' s' hb =>
      obtain ⟨es'', hr, rfl⟩ := Outcome.after_eq_returned.mp h
      have hr' := ih (Nat.le_of_succ_le_succ hle) hr
      simp [hr', Outcome.after]

theorem Returns.unique {s : σ} {r r' : ρ} {es es' : List ε} (h : Returns body s r es)
    (h' : Returns body s r' es') : r = r' ∧ es = es' := by
  obtain ⟨n, hn⟩ := run_of_returns h
  obtain ⟨n', hn'⟩ := run_of_returns h'
  have e := run_mono (Nat.le_max_left n n') hn
  have e' := run_mono (Nat.le_max_right n n') hn'
  rw [e] at e'
  simpa using e'

/-- What the first pass of a returning run was. -/
theorem Returns.first {s : σ} {r : ρ} {es : List ε} (h : Returns body s r es) :
    body s = some ⟨es, .leave r⟩ ∨
    ∃ es₁ es₂ s', body s = some ⟨es₁, .jump s'⟩ ∧ Returns body s' r es₂ ∧ es = es₁ ++ es₂ := by
  cases h with
  | leave h => exact .inl h
  | @jump _ s' _ es₁ es₂ h ht => exact .inr ⟨es₁, es₂, s', h, ht, rfl⟩

/-- What holds of all events of every pass holds of those of a returning run. -/
theorem Returns.events {P : ε → Prop} {s : σ} {r : ρ} {es : List ε} (h : Returns body s r es)
    (hbody : ∀ t p, body t = some p → ∀ e ∈ p.events, P e) : ∀ e ∈ es, P e := by
  induction h with
  | leave hb => exact hbody _ _ hb
  | jump hb _ ih => exact List.forall_mem_append.mpr ⟨hbody _ _ hb, ih⟩

/-- The states the loop is at, each time it comes to the label. -/
inductive Reaches (body : σ → Option (Pass σ ρ ε)) : σ → σ → Prop where
  | refl (s) : Reaches body s s
  | step {s s' t es} (h : body s = some ⟨es, .jump s'⟩) (ht : Reaches body s' t) : Reaches body s t

/-- A run that comes to a state from which the loop is left is left there. -/
theorem Reaches.returns {s t : σ} {r : ρ} {es : List ε} (h : Reaches body s t)
    (ht : Returns body t r es) : ∃ es', Returns body s r (es' ++ es) := by
  induction h with
  | refl => exact ⟨[], ht⟩
  | @step s s' t es₁ hb _ ih =>
    obtain ⟨es', hr⟩ := ih ht
    exact ⟨es₁ ++ es', by simpa using Returns.jump hb hr⟩

theorem Reaches.trans {s t u : σ} (h : Reaches body s t) (h' : Reaches body t u) :
    Reaches body s u := by
  induction h with
  | refl => exact h'
  | step hb _ ih => exact .step hb (ih h')

theorem reaches_jump_iff {s s' t : σ} {es : List ε} (h : body s = some ⟨es, .jump s'⟩) :
    Reaches body s t ↔ t = s ∨ Reaches body s' t := by
  constructor
  · intro ht
    cases ht with
    | refl => exact .inl rfl
    | step h' ht =>
      rw [h] at h'
      cases h'
      exact .inr ht
  · intro ht
    cases ht with
    | inl ht => exact ht ▸ .refl t
    | inr ht => exact .step h ht

theorem reaches_leave_iff {s t : σ} {r : ρ} {es : List ε} (h : body s = some ⟨es, .leave r⟩) :
    Reaches body s t ↔ t = s := by
  constructor
  · intro ht
    cases ht with
    | refl => rfl
    | step h' _ =>
      rw [h] at h'
      cases h'
  · exact fun ht => ht ▸ .refl t

/-- A run that is left goes wrong in no state on its way. -/
theorem Returns.ne_none {s t : σ} {r : ρ} {es : List ε} (h : Returns body s r es)
    (ht : Reaches body s t) : body t ≠ none := by
  induction h with
  | leave hb =>
    rw [(reaches_leave_iff hb).mp ht, hb]
    exact Option.some_ne_none _
  | jump hb _ ih =>
    cases (reaches_jump_iff hb).mp ht with
    | inl ht =>
      rw [ht, hb]
      exact Option.some_ne_none _
    | inr ht => exact ih ht

/-- What jumps keep, from the states reached, holds of all of them. -/
theorem Reaches.invariant {I : σ → Prop} {s t : σ} (h : Reaches body s t) (hs : I s)
    (hjump : ∀ u u' es, Reaches body s u → I u → body u = some ⟨es, .jump u'⟩ → I u') : I t := by
  induction h with
  | refl => exact hs
  | @step s s' t es hb _ ih =>
    refine ih (hjump s s' es (.refl s) hs hb) fun u u' es' hu => ?_
    exact hjump u u' es' (.step hb hu)

/-! ### Loops that end -/

/-- After finitely many passes the loop is left or goes wrong. -/
def Halts (body : σ → Option (Pass σ ρ ε)) (s : σ) : Prop := ∃ fuel, run body fuel s ≠ .looping

theorem Returns.halts {s : σ} {r : ρ} {es : List ε} (h : Returns body s r es) : Halts body s := by
  obtain ⟨fuel, hf⟩ := run_of_returns h
  exact ⟨fuel, by simp [hf]⟩

theorem halts_of_none {s : σ} (h : body s = none) : Halts body s := ⟨1, by simp [run, h]⟩

theorem halts_of_leave {s : σ} {es : List ε} {r : ρ} (h : body s = some ⟨es, .leave r⟩) :
    Halts body s :=
  ⟨1, by simp [run, h]⟩

theorem Outcome.after_eq_looping {es : List ε} {o : Outcome ρ ε} :
    o.after es = .looping ↔ o = .looping := by
  cases o <;> simp [after]

theorem halts_jump_iff {s s' : σ} {es : List ε} (h : body s = some ⟨es, .jump s'⟩) :
    Halts body s ↔ Halts body s' := by
  constructor
  · intro hs
    obtain ⟨fuel, hf⟩ := hs
    cases fuel with
    | zero => exact absurd rfl hf
    | succ fuel => exact ⟨fuel, by simpa [run, h, Outcome.after_eq_looping] using hf⟩
  · intro hs
    obtain ⟨fuel, hf⟩ := hs
    exact ⟨fuel + 1, by simpa [run, h, Outcome.after_eq_looping] using hf⟩

/-- Passes that lead nowhere else do not change whether the loop ends. -/
theorem Reaches.halts_iff {s t : σ} (h : Reaches body s t) : Halts body s ↔ Halts body t := by
  induction h with
  | refl => rfl
  | step hb _ ih => exact (halts_jump_iff hb).trans ih

/-- A pass back to the state it began in repeats for ever. -/
theorem not_halts_of_cycle {s : σ} {es : List ε} (h : body s = some ⟨es, .jump s⟩) :
    ¬ Halts body s := by
  intro hs
  obtain ⟨fuel, hf⟩ := hs
  have hloop (n : Nat) : run body n s = .looping := by
    induction n with
    | zero => rfl
    | succ n ih => simp only [run, h, ih, Outcome.after]
  exact hf (hloop fuel)

/-- A loop whose jumps all make a measure smaller ends. -/
theorem halts_of_measure {α : Type} [Preorder α] [WellFoundedLT α] (μ : σ → α) {s : σ}
    (h : ∀ t t' es, Reaches body s t → body t = some ⟨es, .jump t'⟩ → μ t' < μ t) :
    Halts body s := by
  induction hm : μ s using WellFoundedLT.induction generalizing s with
  | ind m ih =>
    cases hb : body s with
    | none => exact halts_of_none hb
    | some p =>
      obtain ⟨es, e⟩ := p
      cases e with
      | leave r => exact halts_of_leave hb
      | jump s' =>
        have hlt := h s s' es (.refl s) hb
        refine (halts_jump_iff hb).mpr (ih (μ s') (hm ▸ hlt) (fun t t' es' ht => ?_) rfl)
        exact h t t' es' (.step hb ht)

/-- A loop that ends and never goes wrong is left. -/
theorem Halts.returns {s : σ} (h : Halts body s)
    (hok : ∀ t, Reaches body s t → body t ≠ none) : ∃ r es, Returns body s r es := by
  obtain ⟨fuel, hf⟩ := h
  induction fuel generalizing s with
  | zero => exact absurd rfl hf
  | succ fuel ih =>
    cases hb : body s with
    | none => exact absurd hb (hok s (.refl s))
    | some p =>
      obtain ⟨es, e⟩ := p
      cases e with
      | leave r => exact ⟨r, es, .leave hb⟩
      | jump s' =>
        obtain ⟨r, es', hr⟩ := ih (fun t ht => hok t (.step hb ht))
          (by simpa [run, hb, Outcome.after_eq_looping] using hf)
        exact ⟨r, es ++ es', .jump hb hr⟩

/-- A loop is left precisely when it ends and goes wrong nowhere. -/
theorem returns_iff_halts {s : σ} : (∃ r es, Returns body s r es) ↔
    Halts body s ∧ ∀ t, Reaches body s t → body t ≠ none := by
  constructor
  · intro h
    obtain ⟨r, es, h⟩ := h
    exact ⟨h.halts, fun t ht => h.ne_none ht⟩
  · exact fun h => h.1.returns h.2

end Framework.Loop
