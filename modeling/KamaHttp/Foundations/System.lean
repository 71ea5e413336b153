import Mathlib.Data.Nat.Notation

/-!
# Transition systems and their runs

A system has initial states and steps, each labelled by the event that causes it. `Reaches S G` are
the states of the runs in which every event meets the condition `G` where it happens; `Always` is
the condition that every event meets.

* `Reaches.invariant`: what holds initially and is preserved by the steps of such runs holds in
  every state they reach.
* `Reaches.mono`, `Reaches.mono_of_invariant`: a stronger condition reaches fewer states.
* `Reaches.trans`: what is reached from a state reached is reached.
* `Reaches.of_runs`: a list of events that can happen one after the other leads to a state reached.
-/

namespace KamaHttp

/-- A labelled transition system. -/
structure System (σ ε : Type*) where
  init : σ → Prop
  step : σ → ε → σ → Prop

/-- The condition that every event meets. -/
def Always {σ ε : Type*} : σ → ε → Prop := fun _ _ => True

/-- The states of the runs whose events all meet `G`. -/
inductive Reaches {σ ε : Type*} (S : System σ ε) (G : σ → ε → Prop) : σ → Prop
  | init {s : σ} (h : S.init s) : Reaches S G s
  | step {s s' : σ} {e : ε} (h : Reaches S G s) (hg : G s e) (hs : S.step s e s') : Reaches S G s'

namespace Reaches

variable {σ ε : Type*} {S : System σ ε} {G G' : σ → ε → Prop} {s : σ}

/-- **What holds initially and is preserved by every step holds in every state reached.** -/
theorem invariant {I : σ → Prop} (hinit : ∀ s, S.init s → I s)
    (hstep : ∀ s e s', I s → G s e → S.step s e s' → I s') (h : Reaches S G s) : I s := by
  induction h with
  | init h => exact hinit _ h
  | step _ hg hs ih => exact hstep _ _ _ ih hg hs

theorem mono (hG : ∀ s e, G s e → G' s e) (h : Reaches S G s) : Reaches S G' s := by
  induction h with
  | init h => exact .init h
  | step _ hg hs ih => exact .step ih (hG _ _ hg) hs

/-- A condition that follows from another one as long as an invariant holds. -/
theorem mono_of_invariant {I : σ → Prop} (hinit : ∀ s, S.init s → I s)
    (hstep : ∀ s e s', I s → G s e → S.step s e s' → I s') (hG : ∀ s e, I s → G s e → G' s e)
    (h : Reaches S G s) : Reaches S G' s := by
  induction h with
  | init h => exact .init h
  | step h hg hs ih => exact .step ih (hG _ _ (h.invariant hinit hstep) hg) hs

end Reaches

/-- The same steps, from a given state. -/
def System.startAt {σ ε : Type*} (S : System σ ε) (s : σ) : System σ ε := { S with init := (· = s) }

namespace Reaches

variable {σ ε : Type*} {S : System σ ε} {G G' : σ → ε → Prop} {s s' : σ}

theorem refl (S : System σ ε) (G : σ → ε → Prop) (s : σ) : Reaches (S.startAt s) G s := .init rfl

theorem trans (h : Reaches S G s) (h' : Reaches (S.startAt s) G s') : Reaches S G s' := by
  induction h' with
  | init h' => exact h' ▸ h
  | step _ hg hs ih => exact .step ih hg hs

end Reaches

/-! ## Systems that can be run -/

section Runs

variable {σ ε : Type*} (enabled : σ → ε → Prop) (next : σ → ε → σ)

/-- The events can happen one after the other, if `enabled` says which can happen and `next` what
they lead to. -/
def Runs : σ → List ε → Prop
  | _, [] => True
  | s, e :: es => enabled s e ∧ Runs (next s e) es

instance decidableRuns [∀ s, DecidablePred (enabled s)] :
    ∀ (s : σ) (es : List ε), Decidable (Runs enabled next s es)
  | _, [] => .isTrue trivial
  | s, e :: es =>
    have := decidableRuns (next s e) es
    inferInstanceAs (Decidable (enabled s e ∧ Runs enabled next (next s e) es))

variable {enabled next} {S : System σ ε} {G : σ → ε → Prop} {s : σ} {es : List ε}

theorem Reaches.of_runs (hstep : ∀ s e, enabled s e → G s e ∧ S.step s e (next s e))
    (h : Reaches S G s) (hes : Runs enabled next s es) : Reaches S G (es.foldl next s) := by
  induction es generalizing s with
  | nil => exact h
  | cons e es ih =>
    obtain ⟨he, hes⟩ := hes
    obtain ⟨hg, hs⟩ := hstep s e he
    exact ih (.step h hg hs) hes

/-- The same for events that lead to a state or cannot happen, and meet a condition. -/
theorem Reaches.of_runs_option {next : σ → ε → Option σ}
    (hstep : ∀ s e s', next s e = some s' → S.step s e s') (h : Reaches S G s)
    (hes : Runs (fun s e => G s e ∧ (next s e).isSome) (fun s e => (next s e).getD s) s es) :
    Reaches S G (es.foldl (fun s e => (next s e).getD s) s) := by
  refine h.of_runs (fun s e he => ⟨he.1, hstep s e _ ?_⟩) hes
  obtain ⟨s', hs'⟩ := Option.isSome_iff_exists.1 he.2
  rw [hs', Option.getD_some]

end Runs

/-- The same for events that lead to a state or cannot happen. -/
theorem Reaches.of_foldlM {σ ε : Type*} {next : σ → ε → Option σ} {S : System σ ε}
    {G : σ → ε → Prop} {s s' : σ} {es : List ε}
    (hstep : ∀ s e s', next s e = some s' → G s e ∧ S.step s e s') (h : Reaches S G s)
    (hes : es.foldlM next s = some s') : Reaches S G s' := by
  induction es generalizing s with
  | nil => exact Option.some.inj hes ▸ h
  | cons e es ih =>
    rw [List.foldlM_cons, Option.bind_eq_bind, Option.bind_eq_some_iff] at hes
    obtain ⟨s₁, he, hes⟩ := hes
    obtain ⟨hg, hs⟩ := hstep s e s₁ he
    exact ih (.step h hg hs) hes

end KamaHttp
