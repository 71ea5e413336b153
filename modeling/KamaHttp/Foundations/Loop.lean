import Mathlib.Data.Nat.Notation

/-!
# Loops

A `while` loop is given by what one iteration does to the loop's state (`Step`): go round again
with a new state, or leave the loop with a result. `Returns` says that the loop leaves with a given
result, `Diverges` that it never leaves, and `run` performs a bounded number of iterations.

* `returns_of_run`: what a bounded number of iterations finds is the result of the loop.
* `run_eq_some_iff`: under a measure that decreases from one iteration to the next, as many
  iterations as the measure says are enough to find the result.
* `Returns.of_invariant`, `Visits.of_invariant`: what every iteration preserves is there when the
  loop leaves, and whenever an iteration begins.
* `Returns.simulate`: two loops whose iterations are related leave with related results.
-/

namespace KamaHttp.Loop

/-- What one iteration does: go round again in state `s`, or leave with result `r`. -/
inductive Step (σ ρ : Type*)
  | next (s : σ)
  | stop (r : ρ)
  deriving DecidableEq

variable {σ ρ σ' ρ' : Type*}

/-- The loop started in a state leaves with a result. -/
inductive Returns (iter : σ → Step σ ρ) : σ → ρ → Prop
  | stop {s : σ} {r : ρ} (h : iter s = .stop r) : Returns iter s r
  | next {s s' : σ} {r : ρ} (h : iter s = .next s') (h' : Returns iter s' r) : Returns iter s r

/-- The loop started in `s` never leaves. -/
def Diverges (iter : σ → Step σ ρ) (s : σ) : Prop := ∀ r, ¬ Returns iter s r

/-- The result of the loop, when it leaves within `n` iterations. -/
def run (iter : σ → Step σ ρ) : ℕ → σ → Option ρ
  | 0, _ => none
  | n + 1, s =>
    match iter s with
    | .next s' => run iter n s'
    | .stop r => some r

variable {iter : σ → Step σ ρ} {s s' : σ} {r r' : ρ}

/-- An iteration that goes round again leaves the result of the loop unchanged. -/
theorem returns_iff_of_next (h : iter s = .next s') : Returns iter s r ↔ Returns iter s' r := by
  refine ⟨fun hr => ?_, .next h⟩
  cases hr with
  | stop h₁ => rw [h] at h₁; cases h₁
  | next h₁ hr => rw [h] at h₁; cases h₁; exact hr

theorem returns_iff_of_stop (h : iter s = .stop r) : Returns iter s r' ↔ r' = r := by
  refine ⟨fun hr => ?_, fun hr => .stop (hr ▸ h)⟩
  cases hr with
  | stop h₁ => rw [h] at h₁; cases h₁; rfl
  | next h₁ _ => rw [h] at h₁; cases h₁

theorem Returns.deterministic (h : Returns iter s r) (h' : Returns iter s r') : r = r' := by
  induction h with
  | stop hs => exact ((returns_iff_of_stop hs).1 h').symm
  | next hs _ ih => exact ih ((returns_iff_of_next hs).1 h')

/-- A loop that goes round in the same state never leaves. -/
theorem diverges_of_next_self (h : iter s = .next s) : Diverges iter s := by
  intro r hr
  induction hr with
  | stop hs => rw [h] at hs; cases hs
  | next hs _ ih => rw [h] at hs; cases hs; exact ih h

/-- **An invariant of the iterations is there when the loop leaves.** -/
theorem Returns.of_invariant (I : σ → Prop) {Q : ρ → Prop} (h : Returns iter s r) (hs : I s)
    (hnext : ∀ s s', I s → iter s = .next s' → I s')
    (hstop : ∀ s r, I s → iter s = .stop r → Q r) : Q r := by
  induction h with
  | stop hi => exact hstop _ _ hs hi
  | next hi _ ih => exact ih (hnext _ _ hs hi)

/-- The states in which the loop begins an iteration. -/
inductive Visits (iter : σ → Step σ ρ) (s : σ) : σ → Prop
  | start : Visits iter s s
  | next {t t' : σ} (h : Visits iter s t) (hn : iter t = .next t') : Visits iter s t'

/-- **An invariant of the iterations is there whenever one begins.** -/
theorem Visits.of_invariant (I : σ → Prop) (h : Visits iter s s') (hs : I s)
    (hnext : ∀ t t', I t → iter t = .next t' → I t') : I s' := by
  induction h with
  | start => exact hs
  | next _ hn ih => exact hnext _ _ ih hn

/-! ## Bounded runs -/

theorem returns_of_run {n : ℕ} (h : run iter n s = some r) : Returns iter s r := by
  induction n generalizing s with
  | zero => cases h
  | succ n ih =>
    cases hi : iter s with
    | next s' =>
      simp only [run, hi] at h
      exact .next hi (ih h)
    | stop r' =>
      simp only [run, hi, Option.some.injEq] at h
      exact .stop (h ▸ hi)

theorem run_eq_none_of_diverges (h : Diverges iter s) (n : ℕ) : run iter n s = none := by
  cases hr : run iter n s with
  | none => rfl
  | some r => exact absurd (returns_of_run hr) (h r)

section Measure

variable (Inv : σ → Prop) (μ : σ → ℕ)
  (hdec : ∀ s s', Inv s → iter s = .next s' → Inv s' ∧ μ s' < μ s)

include hdec

theorem exists_run_eq_some {n : ℕ} (hs : Inv s) (hn : μ s < n) : ∃ r, run iter n s = some r := by
  induction n generalizing s with
  | zero => omega
  | succ n ih =>
    cases hi : iter s with
    | next s' =>
      obtain ⟨hs', hlt⟩ := hdec s s' hs hi
      simpa only [run, hi] using ih hs' (by omega)
    | stop r => exact ⟨r, by simp only [run, hi]⟩

/-- With more iterations than the measure allows, the bounded run finds the result of the loop. -/
theorem run_eq_some_iff {n : ℕ} (hs : Inv s) (hn : μ s < n) :
    run iter n s = some r ↔ Returns iter s r := by
  refine ⟨returns_of_run, fun h => ?_⟩
  obtain ⟨r', hr'⟩ := exists_run_eq_some Inv μ hdec hs hn
  rw [hr', h.deterministic (returns_of_run hr')]

end Measure

/-! ## Simulation -/

/-- Two iterations with related outcomes. -/
inductive Step.Rel (R : σ → σ' → Prop) (Q : ρ → ρ' → Prop) : Step σ ρ → Step σ' ρ' → Prop
  | next {s : σ} {s' : σ'} (h : R s s') : Step.Rel R Q (.next s) (.next s')
  | stop {r : ρ} {r' : ρ'} (h : Q r r') : Step.Rel R Q (.stop r) (.stop r')

/-- **Two loops whose iterations are related leave with related results.** -/
theorem Returns.simulate {iter' : σ' → Step σ' ρ'} {R : σ → σ' → Prop} {Q : ρ → ρ' → Prop}
    (hstep : ∀ s s', R s s' → Step.Rel R Q (iter s) (iter' s')) {t : σ'}
    (h : Returns iter s r) (hst : R s t) : ∃ r', Returns iter' t r' ∧ Q r r' := by
  induction h generalizing t with
  | stop hs =>
    have hrel := hstep _ t hst
    rw [hs] at hrel
    generalize ht : iter' t = x at hrel
    cases hrel with
    | stop hQ => exact ⟨_, .stop ht, hQ⟩
  | next hs _ ih =>
    have hrel := hstep _ t hst
    rw [hs] at hrel
    generalize ht : iter' t = x at hrel
    cases hrel with
    | next hR =>
      obtain ⟨r', hr', hQ⟩ := ih hR
      exact ⟨r', .next ht hr', hQ⟩

end KamaHttp.Loop
