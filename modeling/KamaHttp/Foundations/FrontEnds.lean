import Mathlib.Data.List.Basic
import Mathlib.Logic.Function.Basic
import Mathlib.Data.Nat.Notation

/-!
# Front ends

A front end takes events, and passes calls on to whatever is behind it. It may be stuck on an event.

* `feed_append`: events one after the other.
* `feed_keyed`: of a front end for each key, each one does what it does alone on its own events.
-/

namespace KamaHttp

/-- What an event leads to, with the calls that are passed on. -/
abbrev FrontEnd (ε φ ι : Type*) := φ → ε → Option (φ × List ι)

/-- What belongs to a key. -/
def onKey {κ α : Type*} [DecidableEq κ] (k : κ) (xs : List (κ × α)) : List α :=
  (xs.filter fun x => x.1 = k).map Prod.snd

section On

variable {κ α β : Type*} [DecidableEq κ] {k k' : κ} {x : α} {xs ys : List (κ × α)}

@[simp] theorem onKey_nil (k : κ) : onKey k ([] : List (κ × α)) = [] := rfl

@[simp] theorem onKey_cons_self : onKey k ((k, x) :: xs) = x :: onKey k xs := by simp [onKey]

theorem onKey_cons_of_ne (h : k' ≠ k) : onKey k ((k', x) :: xs) = onKey k xs := by simp [onKey, h]

theorem onKey_append (k : κ) (xs ys : List (κ × α)) :
    onKey k (xs ++ ys) = onKey k xs ++ onKey k ys := by
  simp [onKey]

@[simp] theorem onKey_map_self (k : κ) (xs : List α) : onKey k (xs.map fun x => (k, x)) = xs := by
  induction xs with
  | nil => rfl
  | cons x xs ih => rw [List.map_cons, onKey_cons_self, ih]

theorem onKey_map_of_ne (h : k' ≠ k) (xs : List α) : onKey k (xs.map fun x => (k', x)) = [] := by
  induction xs with
  | nil => rfl
  | cons x xs ih => rw [List.map_cons, onKey_cons_of_ne h, ih]

end On

namespace FrontEnd

variable {ε φ ι κ : Type*} {f : FrontEnd ε φ ι} {s s' : φ} {events events' : List ε}
  {calls : List ι}

/-- The events one after the other, with all calls that are passed on. -/
def feed (f : FrontEnd ε φ ι) : List ε → φ → Option (φ × List ι)
  | [], s => some (s, [])
  | e :: events, s =>
    (f s e).bind fun r => (feed f events r.1).map fun r' => (r'.1, r.2 ++ r'.2)

theorem feed_cons_eq_some {e : ε} : f.feed (e :: events) s = some (s', calls) ↔
    ∃ s₁ first rest, f s e = some (s₁, first) ∧ f.feed events s₁ = some (s', rest) ∧
      calls = first ++ rest := by
  simp only [feed, Option.bind_eq_some_iff, Option.map_eq_some_iff, Prod.mk.injEq]
  constructor
  · rintro ⟨⟨s₁, first⟩, he, ⟨s₂, rest⟩, hevents, rfl, rfl⟩
    exact ⟨s₁, first, rest, he, hevents, rfl⟩
  · rintro ⟨s₁, first, rest, he, hevents, rfl⟩
    exact ⟨(s₁, first), he, (s', rest), hevents, rfl, rfl⟩

/-- **Events one after the other.** -/
theorem feed_append {first rest : List ι} {s₁ : φ} (h : f.feed events s = some (s₁, first))
    (h' : f.feed events' s₁ = some (s', rest)) :
    f.feed (events ++ events') s = some (s', first ++ rest) := by
  induction events generalizing s first with
  | nil =>
    cases h
    exact h'
  | cons e events ih =>
    obtain ⟨s₂, calls₁, calls₂, he, hevents, rfl⟩ := feed_cons_eq_some.1 h
    exact feed_cons_eq_some.2 ⟨s₂, calls₁, calls₂ ++ rest, he, ih hevents, by simp⟩

theorem feed_concat {e : ε} {first rest : List ι} {s₁ : φ}
    (h : f.feed events s = some (s₁, first)) (he : f s₁ e = some (s', rest)) :
    f.feed (events ++ [e]) s = some (s', first ++ rest) :=
  feed_append h (feed_cons_eq_some.2 ⟨s', rest, [], he, rfl, by simp⟩)

/-! ## A front end for each key -/

variable [DecidableEq κ]

/-- A front end for each key. -/
def keyed (f : FrontEnd ε φ ι) : FrontEnd (κ × ε) (κ → φ) (κ × ι) := fun s e =>
  (f (s e.1) e.2).map fun r => (Function.update s e.1 r.1, r.2.map fun i => (e.1, i))

theorem keyed_eq_some {s s' : κ → φ} {k : κ} {e : ε} {calls : List (κ × ι)}
    (h : f.keyed s (k, e) = some (s', calls)) :
    f (s k) e = some (s' k, onKey k calls) ∧
      ∀ k', k' ≠ k → s' k' = s k' ∧ onKey k' calls = [] := by
  obtain ⟨⟨s₁, first⟩, he, heq⟩ := Option.map_eq_some_iff.1 h
  cases heq
  refine ⟨by simpa using he, fun k' hk' => ?_⟩
  exact ⟨Function.update_of_ne hk' _ _, onKey_map_of_ne hk'.symm first⟩

/-- **Each front end does what it does alone**, on its own events. -/
theorem feed_keyed {s s' : κ → φ} {events : List (κ × ε)} {calls : List (κ × ι)}
    (h : f.keyed.feed events s = some (s', calls)) (k : κ) :
    f.feed (onKey k events) (s k) = some (s' k, onKey k calls) := by
  induction events generalizing s calls with
  | nil =>
    cases h
    rfl
  | cons e events ih =>
    obtain ⟨k₁, e⟩ := e
    obtain ⟨s₁, first, rest, he, hevents, rfl⟩ := feed_cons_eq_some.1 h
    obtain ⟨hself, hother⟩ := keyed_eq_some he
    rw [onKey_append]
    by_cases hk : k₁ = k
    · subst hk
      rw [onKey_cons_self]
      exact feed_cons_eq_some.2 ⟨s₁ k₁, onKey k₁ first, onKey k₁ rest, hself, ih hevents, rfl⟩
    · obtain ⟨hs, hnil⟩ := hother k (Ne.symm hk)
      rw [onKey_cons_of_ne hk, hnil, List.nil_append, ← hs]
      exact ih hevents

end FrontEnd

end KamaHttp
