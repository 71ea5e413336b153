import Mathlib.Logic.Function.Basic
import KamaHttp.Foundations.System

/-!
# Programs that call their environment

A program is a result, or a call and what it does with the answer to it. It can be run alone on an
environment that answers every call, and any number of programs can be run on one environment, call
by call in any order.

* `run_bind`: a program behind another one.
* `Keeps.bind`: what is kept of a program in a book of its calls.
* `step_cases`: what a step of the programs does to their environment, and what has ended then.
-/

namespace KamaHttp

/-- A program: a result, or a call and what it does with the answer. -/
inductive Interaction (C : Type) (R : C → Type) (α : Type*)
  | done (a : α)
  | call (c : C) (next : R c → Interaction C R α)

namespace Interaction

variable {C : Type} {R : C → Type} {α β σ : Type*}

/-- A program behind another one. -/
def bind : Interaction C R α → (α → Interaction C R β) → Interaction C R β
  | .done a, f => f a
  | .call c next, f => .call c fun r => bind (next r) f

/-- The program alone, on an environment that answers every call. -/
def run (answer : (c : C) → σ → R c × σ) : Interaction C R α → σ → α × σ
  | .done a, s => (a, s)
  | .call c next, s => run answer (next (answer c s).1) (answer c s).2

/-- **A program behind another one.** -/
theorem run_bind (answer : (c : C) → σ → R c × σ) (p : Interaction C R α)
    (f : α → Interaction C R β) (s : σ) :
    (p.bind f).run answer s = (f (p.run answer s).1).run answer (p.run answer s).2 := by
  induction p generalizing s with
  | done a => rfl
  | call c next ih => exact ih _ _

/-! ## Programs whose calls are calls of another kind -/

section Embed

variable {C' : Type} {R' : C' → Type} {υ : Type*} (f : C → C') (back : (c : C) → R' (f c) → R c)

/-- A program, with its calls as calls of another kind. -/
def embed : Interaction C R α → Interaction C' R' α
  | .done a => .done a
  | .call c next => .call (f c) fun r => embed (next (back c r))

/-- The program alone, on an environment of which its calls change a part. -/
theorem run_embed {answer : (c : C) → σ → R c × σ}
    {answer' : (c : C') → σ × υ → R' c × (σ × υ)}
    (h : ∀ c s x, (back c (answer' (f c) (s, x)).1, (answer' (f c) (s, x)).2) =
      ((answer c s).1, ((answer c s).2, x))) (p : Interaction C R α) (s : σ) (x : υ) :
    (p.embed f back).run answer' (s, x) = ((p.run answer s).1, ((p.run answer s).2, x)) := by
  induction p generalizing s with
  | done a => rfl
  | call c next ih =>
    obtain ⟨hreturned, hstate⟩ := Prod.mk.inj (h c s x)
    rw [embed, run, hstate, hreturned]
    exact ih _ _

end Embed

/-! ## What a program keeps to -/

/-- A book that is kept of the calls of a program: which calls are right, and what the book may have
behind a call and the answer to it. -/
structure Book (C : Type) (R : C → Type) (τ : Type*) where
  right : C → τ → Prop
  next : (c : C) → R c → τ → τ → Prop

variable {τ : Type*}

/-- By the book, the calls of a program are right, and its result meets `post`. -/
def Keeps (book : Book C R τ) (post : τ → α → Prop) : τ → Interaction C R α → Prop
  | g, .done a => post g a
  | g, .call c next => book.right c g ∧ ∀ r g', book.next c r g g' → Keeps book post g' (next r)

variable {book : Book C R τ} {post : τ → α → Prop} {post' : τ → β → Prop} {g : τ}

/-- **A program behind another one** keeps to what it does behind every result of it. -/
theorem Keeps.bind {p : Interaction C R α} {f : α → Interaction C R β} (hp : p.Keeps book post g)
    (hf : ∀ g a, post g a → (f a).Keeps book post' g) : (p.bind f).Keeps book post' g := by
  induction p generalizing g with
  | done a => exact hf g a hp
  | call c next ih => exact ⟨hp.1, fun r g' hg => ih r (hp.2 r g' hg)⟩

/-- The book of a program whose calls are calls of another kind. -/
def Book.pull {C' : Type} {R' : C' → Type} (book : Book C' R' τ) (f : C → C')
    (back : (c : C) → R' (f c) → R c) : Book C R τ where
  right c g := book.right (f c) g
  next c r g g' := ∃ r', back c r' = r ∧ book.next (f c) r' g g'

theorem Keeps.embed {C' : Type} {R' : C' → Type} {book : Book C' R' τ} {f : C → C'}
    {back : (c : C) → R' (f c) → R c} {p : Interaction C R α}
    (h : p.Keeps (book.pull f back) post g) : (p.embed f back).Keeps book post g := by
  induction p generalizing g with
  | done a => exact h
  | call c next ih => exact ⟨h.1, fun r g' hg => ih _ (h.2 _ g' ⟨r, rfl, hg⟩)⟩

/-- A call with the answer to it. -/
abbrev Answered (C : Type) (R : C → Type) := Σ c : C, R c

/-- The book that has the last call, with the answer to it. -/
def Book.lastCall (calls : C → Prop) : Book C R (Option (Answered C R)) where
  right c _ := calls c
  next c r _ last := last = some ⟨c, r⟩

end Interaction

/-! ## Programs that share an environment -/

/-- Programs, each for a task, on one environment; with what has ended, the last first, each with
its result and the environment at that time. -/
structure Sharing (C : Type) (R : C → Type) (α σ T Q : Type*) where
  env : σ
  thread : T → Option (Q × Interaction C R α)
  ended : List (Q × α × σ)

/-- A thread begins with a task, a call of a thread is answered in some way, or the environment
changes. -/
inductive SharingEvent (σ O T Q : Type*)
  | start (t : T) (q : Q)
  | call (t : T) (outcome : O)
  | outside (env : σ)

namespace Sharing

variable {C : Type} {R : C → Type} {α σ O T Q : Type*} [DecidableEq T]

/-- The thread goes on with a program, or has ended. -/
def land (s : Sharing C R α σ T Q) (t : T) (q : Q) :
    Interaction C R α → Sharing C R α σ T Q
  | .done a =>
    { s with thread := Function.update s.thread t none, ended := (q, a, s.env) :: s.ended }
  | p => { s with thread := Function.update s.thread t (some (q, p)) }

/-- What a step of a thread leads to, given the programs for the tasks and what the outcomes of
calls are. -/
def next (program : Q → Interaction C R α) (perform : (c : C) → σ → O → Option (R c × σ))
    (s : Sharing C R α σ T Q) : SharingEvent σ O T Q → Option (Sharing C R α σ T Q)
  | .start t q => if (s.thread t).isNone then some (s.land t q (program q)) else none
  | .call t outcome =>
    match s.thread t with
    | some (q, .call c k) =>
      (perform c s.env outcome).map fun r => { s with env := r.2 }.land t q (k r.1)
    | _ => none
  | .outside env => some { s with env := env }

/-- The programs, step by step in any order. Between their steps the environment may change. -/
def system (program : Q → Interaction C R α) (perform : (c : C) → σ → O → Option (R c × σ))
    (Starts : σ → Prop) (Outside : σ → σ → Prop) (T : Type*) [DecidableEq T] :
    System (Sharing C R α σ T Q) (SharingEvent σ O T Q) where
  init s := Starts s.env ∧ s.thread = (fun _ => none) ∧ s.ended = []
  step s e s' := next program perform s e = some s' ∧ ∀ env, e = .outside env → Outside s.env env

variable {program : Q → Interaction C R α} {perform : (c : C) → σ → O → Option (R c × σ)}
  {Starts : σ → Prop} {Outside : σ → σ → Prop} {calls : C → Prop}
  {post : Q → Option (Interaction.Answered C R) → α → Prop} {s s' : Sharing C R α σ T Q} {t : T}
  {q : Q} {p : Interaction C R α} {last : Option (Interaction.Answered C R)}

/-- Events that can happen one after the other lead to a state reached. -/
theorem reaches_of_foldlM {es : List (SharingEvent σ O T Q)}
    (h : Reaches (system program perform Starts Outside T) Always s)
    (hout : ∀ env, .outside env ∉ es) (hes : es.foldlM (next program perform) s = some s') :
    Reaches (system program perform Starts Outside T) Always s' := by
  induction es generalizing s with
  | nil => exact Option.some.inj hes ▸ h
  | cons e es ih =>
    rw [List.foldlM_cons, Option.bind_eq_bind, Option.bind_eq_some_iff] at hes
    obtain ⟨s₁, he, hes⟩ := hes
    refine ih (.step (e := e) h trivial ⟨he, ?_⟩) (fun env hmem => ?_) hes
    · rintro env rfl
      exact absurd List.mem_cons_self (hout env)
    · exact hout env (List.mem_cons_of_mem _ hmem)

/-- The programs that are run keep to what they should. -/
def Kept (calls : C → Prop) (post : Q → Option (Interaction.Answered C R) → α → Prop)
    (s : Sharing C R α σ T Q) : Prop :=
  ∀ t q p, s.thread t = some (q, p) → ∃ last, p.Keeps (.lastCall calls) (post q) last

/-- What ends in a step, if something does. -/
def Ends (s s' : Sharing C R α σ T Q) (meets : Q → α → Prop) : Prop :=
  s'.ended = s.ended ∨ ∃ q a, s'.ended = (q, a, s'.env) :: s.ended ∧ meets q a

theorem land_spec (hs : s.Kept calls post) (hp : p.Keeps (.lastCall calls) (post q) last) :
    (s.land t q p).Kept calls post ∧ (s.land t q p).env = s.env ∧
      Ends s (s.land t q p) fun q a => post q last a := by
  cases p with
  | done a =>
    refine ⟨fun t' q' p' h => ?_, rfl, .inr ⟨q, a, rfl, hp⟩⟩
    simp only [land, Function.update_apply] at h
    split at h
    · cases h
    · exact hs t' q' p' h
  | call c k =>
    refine ⟨fun t' q' p' h => ?_, rfl, .inl rfl⟩
    simp only [land, Function.update_apply] at h
    split at h
    · cases h
      exact ⟨last, hp⟩
    · exact hs t' q' p' h

/-- **What a step of the programs does**: a program starts, or a call is performed and answered, or
the environment changes; what ends then meets its condition. -/
theorem step_cases {e : SharingEvent σ O T Q}
    (hprogram : ∀ q, (program q).Keeps (.lastCall calls) (post q) none) (hs : s.Kept calls post)
    (h : (system program perform Starts Outside T).step s e s') : s'.Kept calls post ∧
      ((s'.env = s.env ∧ Ends s s' fun q a => post q none a) ∨
        (∃ c r outcome, calls c ∧ perform c s.env outcome = some (r, s'.env) ∧
          Ends s s' fun q a => post q (some ⟨c, r⟩) a) ∨
        (Outside s.env s'.env ∧ s'.ended = s.ended)) := by
  obtain ⟨hnext, hout⟩ := h
  cases e with
  | start t q =>
    obtain ⟨-, heq⟩ := Option.ite_none_right_eq_some.1 hnext
    obtain ⟨hkept, henv, hends⟩ := land_spec (t := t) hs (hprogram q)
    rw [← Option.some.inj heq]
    exact ⟨hkept, .inl ⟨henv, hends⟩⟩
  | call t outcome =>
    dsimp only [next] at hnext
    split at hnext
    · rename_i q c k ht
      obtain ⟨r, hr, heq⟩ := Option.map_eq_some_iff.1 hnext
      obtain ⟨last, hcalls, hkeeps⟩ := hs t q _ ht
      obtain ⟨hkept, henv, hends⟩ := land_spec (s := { s with env := r.2 }) (t := t) hs
        (hkeeps r.1 _ rfl)
      rw [← heq]
      refine ⟨hkept, .inr (.inl ⟨c, r.1, outcome, hcalls, ?_, hends⟩)⟩
      rw [hr, henv]
    · cases hnext
  | outside env =>
    rw [← Option.some.inj hnext]
    exact ⟨hs, .inr (.inr ⟨hout env rfl, rfl⟩)⟩

end Sharing

end KamaHttp
