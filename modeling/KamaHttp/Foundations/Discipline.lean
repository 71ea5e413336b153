import Mathlib.Data.Set.Lattice
import Mathlib.Order.CompletePartialOrder
import KamaHttp.Foundations.Interaction

/-!
# Programs among others

Programs that share an environment keep to a discipline: an invariant of the environment, and what
each can rely on the others for. Some things can be taken from the environment, once: what is fresh
may become stale in a call, and is never fresh again. So what one program takes, no other one takes.

* `keeps_call_rely`: what a program keeps to does not depend on what the others do.
* `Holds.step`: what is kept by a step of the programs.
* `holds_of_reaches`: in every run, results meet their conditions, and no two tasks claim the same.
-/

namespace KamaHttp

open Interaction

/-- What programs that share an environment keep to. -/
structure Discipline (σ κ : Type*) where
  Inv : σ → Prop
  Rely : σ → σ → Prop
  /-- What can be taken. -/
  fresh : σ → Set κ
  refl : ∀ s, Rely s s
  trans : ∀ {s s' s''}, Rely s s' → Rely s' s'' → Rely s s''
  fresh_anti : ∀ {s s'}, Rely s s' → fresh s' ⊆ fresh s

namespace Discipline

variable {C : Type} {R : C → Type} {α β σ κ O T Q : Type*} (d : Discipline σ κ)
  (perform : (c : C) → σ → O → Option (R c × σ))

/-- The book of a program among others: what it has taken, and the environment as its last call has
left it. A call is right if it keeps to the discipline, whatever the others have done before; it
takes what was fresh and is not any more. -/
def book : Book C R (Set κ × σ) where
  right c g := ∀ s outcome r s', d.Inv s → d.Rely g.2 s → perform c s outcome = some (r, s') →
    d.Inv s' ∧ d.Rely s s'
  next c r g g' := ∃ s outcome, d.Inv s ∧ d.Rely g.2 s ∧ perform c s outcome = some (r, g'.2) ∧
    g'.1 = g.1 ∪ (d.fresh s \ d.fresh g'.2)

variable {d perform} {post : Set κ × σ → α → Prop} {own : Set κ} {env env' : σ}

/-- **What the others do** changes nothing about a program that is to call. -/
theorem keeps_call_rely {c : C} {next : R c → Interaction C R α}
    (h : (Interaction.call c next).Keeps (d.book perform) post (own, env))
    (hrely : d.Rely env env') :
    (Interaction.call c next).Keeps (d.book perform) post (own, env') := by
  refine ⟨fun s outcome r s' hinv hs => h.1 s outcome r s' hinv (d.trans hrely hs), ?_⟩
  rintro r g' ⟨s, outcome, hinv, hs, hperform, hown⟩
  exact h.2 r g' ⟨s, outcome, hinv, d.trans hrely hs, hperform, hown⟩

/-! ## Programs step by step -/

section Runs

variable [DecidableEq T] (d perform) (post : Q → Set κ × σ → α → Prop) (claims : Q → α → Set κ)

/-- What the threads own, and what the tasks that have ended claim: nothing of it is fresh, and no
two have the same. -/
structure Owns (own : T → Set κ) (s : Sharing C R α σ T Q) : Prop where
  inv : d.Inv s.env
  taken : ∀ t, Disjoint (own t) (d.fresh s.env)
  apart : ∀ t t', t ≠ t' → Disjoint (own t) (own t')
  ended : ∀ e ∈ s.ended, (∃ own, post e.1 (own, e.2.2) e.2.1) ∧ d.Rely e.2.2 s.env
  stale : ∀ e ∈ s.ended, Disjoint (claims e.1 e.2.1) (d.fresh s.env)
  claimed : ∀ e ∈ s.ended, ∀ t, Disjoint (claims e.1 e.2.1) (own t)
  claims : s.ended.Pairwise fun e e' => Disjoint (claims e.1 e.2.1) (claims e'.1 e'.2.1)

/-- A thread without a task owns nothing, and one with a task keeps to the book, whatever the others
do before its next call. -/
def KeepsTo (own : T → Set κ) (s : Sharing C R α σ T Q) (t : T) : Prop :=
  match s.thread t with
  | none => own t = ∅
  | some (q, p) => ∀ env, d.Rely s.env env → p.Keeps (d.book perform) (post q) (own t, env)

/-- What holds in every state of a run. -/
def Holds (s : Sharing C R α σ T Q) : Prop :=
  ∃ own, d.Owns post claims own s ∧ ∀ t, d.KeepsTo perform post own s t

variable {d perform post claims} {own : T → Set κ} {s s' : Sharing C R α σ T Q} {t : T} {q : Q}
  {p : Interaction C R α} {env : σ}

omit [DecidableEq T] in
/-- The environment goes on as the discipline has it. -/
theorem Owns.rely (h : d.Owns post claims own s) (hinv : d.Inv env) (hrely : d.Rely s.env env) :
    d.Owns post claims own { s with env := env } where
  inv := hinv
  taken t := (h.taken t).mono_right (d.fresh_anti hrely)
  apart := h.apart
  ended e he := ⟨(h.ended e he).1, d.trans (h.ended e he).2 hrely⟩
  stale e he := (h.stale e he).mono_right (d.fresh_anti hrely)
  claimed := h.claimed
  claims := h.claims

/-- A thread takes what has become stale: it was fresh, so no other one has it. -/
theorem Owns.take (h : d.Owns post claims own s) (hinv : d.Inv env) (hrely : d.Rely s.env env)
    (t : T) : d.Owns post claims
      (Function.update own t (own t ∪ (d.fresh s.env \ d.fresh env))) { s with env := env } := by
  have hr := h.rely hinv hrely
  have hnew : ∀ t', t' ≠ t →
      Disjoint (own t ∪ (d.fresh s.env \ d.fresh env)) (own t') := fun t' hne =>
    (h.apart t t' hne.symm).sup_left ((h.taken t').symm.mono_left Set.sdiff_subset)
  refine ⟨hinv, fun t' => ?_, fun t₁ t₂ hne => ?_, hr.ended, hr.stale, fun e he t' => ?_, hr.claims⟩
  · rw [Function.update_apply]
    split
    · exact (hr.taken t).sup_left disjoint_sdiff_self_left
    · exact hr.taken t'
  · rw [Function.update_apply, Function.update_apply]
    split_ifs with h₁ h₂ h₂
    · exact absurd (h₁.trans h₂.symm) hne
    · exact hnew t₂ h₂
    · exact (hnew t₁ h₁).symm
    · exact h.apart t₁ t₂ hne
  · rw [Function.update_apply]
    split
    · exact (h.claimed e he t).sup_right ((h.stale e he).mono_right Set.sdiff_subset)
    · exact h.claimed e he t'

omit [DecidableEq T] in
theorem KeepsTo.move (h : d.KeepsTo perform post own s t) (hrely : d.Rely s.env env) :
    d.KeepsTo perform post own { s with env := env } t := by
  unfold KeepsTo at h ⊢
  dsimp only
  split at h
  · exact h
  · exact fun env' henv => h env' (d.trans hrely henv)

omit [DecidableEq T] in
theorem KeepsTo.congr {own' : T → Set κ} (h : d.KeepsTo perform post own s t)
    (hthread : s'.thread t = s.thread t) (hown : own' t = own t) (henv : s'.env = s.env) :
    d.KeepsTo perform post own' s' t := by
  unfold KeepsTo at h ⊢
  rw [hthread, hown, henv]
  exact h

/-- **A thread goes on with a program**, or its task has ended and claims what the thread owns. -/
theorem Owns.land (h : d.Owns post claims own s)
    (hothers : ∀ t', t' ≠ t → d.KeepsTo perform post own s t')
    (hclaims : ∀ g a, post q g a → claims q a ⊆ g.1)
    (hp : p.Keeps (d.book perform) (post q) (own t, s.env)) :
    d.Holds perform post claims (s.land t q p) := by
  cases p with
  | done a =>
    have hsub : claims q a ⊆ own t := hclaims _ a hp
    have hle : ∀ t', Function.update own t ∅ t' ⊆ own t' := fun t' => by
      rw [Function.update_apply]
      split
      · exact Set.empty_subset _
      · exact subset_rfl
    refine ⟨Function.update own t ∅, ⟨h.inv, fun t' => (h.taken t').mono_left (hle t'),
      fun t₁ t₂ hne => (h.apart t₁ t₂ hne).mono (hle t₁) (hle t₂), ?_, ?_, ?_, ?_⟩, fun t' => ?_⟩
    · exact List.forall_mem_cons.2 ⟨⟨⟨own t, hp⟩, d.refl _⟩, h.ended⟩
    · exact List.forall_mem_cons.2 ⟨(h.taken t).mono_left hsub, h.stale⟩
    · refine List.forall_mem_cons.2 ⟨fun t' => ?_, fun e he t' =>
        (h.claimed e he t').mono_right (hle t')⟩
      rw [Function.update_apply]
      split
      · exact Set.disjoint_empty _
      · rename_i hne
        exact (h.apart t t' (Ne.symm hne)).mono_left hsub
    · exact List.pairwise_cons.2 ⟨fun e he => ((h.claimed e he t).mono_right hsub).symm, h.claims⟩
    · by_cases ht : t' = t
      · subst ht
        simp [KeepsTo, Sharing.land]
      · exact (hothers t' ht).congr (Function.update_of_ne ht ..) (Function.update_of_ne ht ..) rfl
  | call c k =>
    refine ⟨own, ⟨h.inv, h.taken, h.apart, h.ended, h.stale, h.claimed, h.claims⟩, fun t' => ?_⟩
    by_cases ht : t' = t
    · subst ht
      simp only [KeepsTo, Sharing.land, Function.update_self]
      exact fun env hrely => keeps_call_rely hp hrely
    · exact (hothers t' ht).congr (Function.update_of_ne ht ..) rfl rfl

variable {program : Q → Interaction C R α} {Starts : σ → Prop} {Outside : σ → σ → Prop}
  {e : SharingEvent σ O T Q}

/-- **What is kept by a step of the programs.** -/
theorem Holds.step (h : d.Holds perform post claims s)
    (hclaims : ∀ q g a, post q g a → claims q a ⊆ g.1)
    (hprogram : ∀ t q, e = .start t q → ∀ env, d.Inv env →
      (program q).Keeps (d.book perform) (post q) (∅, env))
    (houtside : ∀ env env', d.Inv env → Outside env env' → d.Inv env' ∧ d.Rely env env')
    (hstep : (Sharing.system program perform Starts Outside T).step s e s') :
    d.Holds perform post claims s' := by
  obtain ⟨own, howns, hkeeps⟩ := h
  obtain ⟨hnext, hout⟩ := hstep
  cases e with
  | start t q =>
    obtain ⟨hnone, heq⟩ := Option.ite_none_right_eq_some.1 hnext
    obtain rfl := Option.some.inj heq
    have hempty : own t = ∅ := by
      have ht := hkeeps t
      rw [KeepsTo, Option.isNone_iff_eq_none.1 hnone] at ht
      exact ht
    refine howns.land (fun t' _ => hkeeps t') (hclaims q) ?_
    rw [hempty]
    exact hprogram t q rfl s.env howns.inv
  | call t outcome =>
    dsimp only [Sharing.next] at hnext
    split at hnext
    · rename_i q c k ht
      obtain ⟨⟨r, env⟩, hr, rfl⟩ := Option.map_eq_some_iff.1 hnext
      have hcall := hkeeps t
      rw [KeepsTo, ht] at hcall
      obtain ⟨hright, hgoes⟩ := hcall s.env (d.refl _)
      obtain ⟨hinv, hrely⟩ := hright s.env outcome r env howns.inv (d.refl _) hr
      refine (howns.take hinv hrely t).land (fun t' hne => ?_) (hclaims q) ?_
      · exact ((hkeeps t').move hrely).congr rfl (Function.update_of_ne hne ..) rfl
      · rw [Function.update_self]
        exact hgoes r _ ⟨s.env, outcome, howns.inv, d.refl _, hr, rfl⟩
    · cases hnext
  | outside env =>
    obtain rfl := Option.some.inj hnext
    obtain ⟨hinv, hrely⟩ := houtside s.env env howns.inv (hout env rfl)
    exact ⟨own, howns.rely hinv hrely, fun t => (hkeeps t).move hrely⟩

variable (post claims) in
/-- **In every run of programs that keep to the discipline**: the results meet their conditions, in
environments that are relied on ever since, and no two tasks claim the same. -/
theorem holds_of_reaches {G : Sharing C R α σ T Q → SharingEvent σ O T Q → Prop}
    (h : Reaches (Sharing.system program perform Starts Outside T) G s)
    (hstarts : ∀ env, Starts env → d.Inv env) (hclaims : ∀ q g a, post q g a → claims q a ⊆ g.1)
    (hprogram : ∀ s t q, G s (.start t q) → ∀ env, d.Inv env →
      (program q).Keeps (d.book perform) (post q) (∅, env))
    (houtside : ∀ env env', d.Inv env → Outside env env' → d.Inv env' ∧ d.Rely env env') :
    (∀ e ∈ s.ended, (∃ own, post e.1 (own, e.2.2) e.2.1) ∧ d.Rely e.2.2 s.env) ∧
      s.ended.Pairwise fun e e' => Disjoint (claims e.1 e.2.1) (claims e'.1 e'.2.1) := by
  have hholds : d.Holds perform post claims s := by
    refine h.invariant ?_ fun s e s' hs hG hstep => hs.step hclaims ?_ houtside hstep
    · rintro s ⟨hstart, hthread, hended⟩
      refine ⟨fun _ => ∅, ⟨hstarts _ hstart, fun t => Set.empty_disjoint _,
        fun t t' _ => Set.empty_disjoint _, ?_, ?_, ?_, ?_⟩, fun t => ?_⟩
      · simp [hended]
      · simp [hended]
      · simp [hended]
      · simp [hended]
      · rw [KeepsTo, hthread]
    · rintro t q rfl
      exact hprogram s t q hG
  obtain ⟨own, howns, -⟩ := hholds
  exact ⟨howns.ended, howns.claims⟩

end Runs

end Discipline

end KamaHttp
