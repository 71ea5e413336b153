import Mathlib.Data.Int.Notation
import Mathlib.Data.Nat.Notation
import Mathlib.Logic.Function.Basic

/-!
# Maps whose entries have a time to live

A map with a clock in seconds. An entry is written for a number of seconds and is there until they
have elapsed; a time to live that is not positive has no end.

* `get_set`, `get_del`: what is there behind an operation.
* `get_tick`: what is there later was there before.
-/

namespace KamaHttp

structure TtlMap (κ ν : Type*) where
  now : ℕ
  /-- The values that were written, with the time at which they expire. -/
  entry : κ → Option (ν × Option ℕ)

namespace TtlMap

variable {κ ν : Type*}

def empty (now : ℕ) : TtlMap κ ν := ⟨now, fun _ => none⟩

/-- The time has not come. -/
def pending (now : ℕ) (expiry : Option ℕ) : Bool := expiry.all fun t => now < t

/-- When an entry expires that is written at `now`. -/
def expiry (now : ℕ) (ttl : ℤ) : Option ℕ := if 0 < ttl then some (now + ttl.toNat) else none

def get (m : TtlMap κ ν) (k : κ) : Option ν :=
  ((m.entry k).filter fun p => pending m.now p.2).map Prod.fst

def tick (m : TtlMap κ ν) (seconds : ℕ) : TtlMap κ ν := { m with now := m.now + seconds }

variable {m : TtlMap κ ν} {k k' : κ} {v : ν}

@[simp] theorem get_empty (now : ℕ) (k : κ) : (empty now : TtlMap κ ν).get k = none := rfl

theorem pending_some {now t : ℕ} : pending now (some t) ↔ now < t := decide_eq_true_iff

/-- An entry that is just written has not expired. -/
theorem pending_expiry (now : ℕ) (ttl : ℤ) : pending now (expiry now ttl) := by
  unfold expiry
  split
  · rw [pending_some]
    omega
  · rfl

theorem get_eq_some_iff :
    m.get k = some v ↔ ∃ e, m.entry k = some (v, e) ∧ pending m.now e := by
  rw [get, Option.map_eq_some_iff]
  constructor
  · rintro ⟨⟨v, e⟩, h, rfl⟩
    rw [Option.filter_eq_some_iff] at h
    exact ⟨e, h⟩
  · rintro ⟨e, h⟩
    exact ⟨(v, e), Option.filter_eq_some_iff.2 h, rfl⟩

/-- **What is there later was there before.** -/
theorem get_tick {seconds : ℕ} (h : (m.tick seconds).get k = some v) : m.get k = some v := by
  rw [get_eq_some_iff] at h ⊢
  obtain ⟨e, he, hp⟩ := h
  refine ⟨e, he, ?_⟩
  cases e with
  | none => rfl
  | some t =>
    rw [pending_some] at hp ⊢
    exact Nat.lt_of_le_of_lt (Nat.le_add_right m.now seconds) hp

variable [DecidableEq κ]

def set (m : TtlMap κ ν) (k : κ) (v : ν) (ttl : ℤ) : TtlMap κ ν :=
  { m with entry := Function.update m.entry k (some (v, expiry m.now ttl)) }

/-- Write the entry if the key has none, and say whether it was written. -/
def setNX (m : TtlMap κ ν) (k : κ) (v : ν) (ttl : ℤ) : Bool × TtlMap κ ν :=
  if (m.get k).isSome then (false, m) else (true, m.set k v ttl)

def del (m : TtlMap κ ν) (k : κ) : TtlMap κ ν :=
  { m with entry := Function.update m.entry k none }

/-- Write the entry without touching its time to live; a new one has no end. -/
def put (m : TtlMap κ ν) (k : κ) (v : ν) : TtlMap κ ν :=
  let left := ((m.entry k).filter fun p => pending m.now p.2).bind Prod.snd
  { m with entry := Function.update m.entry k (some (v, left)) }

/-- Give the entry a new time to live, if there is one; it is gone if that is not positive. -/
def expire (m : TtlMap κ ν) (k : κ) (ttl : ℤ) : TtlMap κ ν :=
  match m.get k with
  | none => m
  | some v => if 0 < ttl then m.set k v ttl else m.del k

theorem entry_set (m : TtlMap κ ν) (k : κ) (v : ν) (ttl : ℤ) (k' : κ) :
    (m.set k v ttl).entry k' = if k' = k then some (v, expiry m.now ttl) else m.entry k' :=
  Function.update_apply ..

theorem entry_del (m : TtlMap κ ν) (k k' : κ) :
    (m.del k).entry k' = if k' = k then none else m.entry k' :=
  Function.update_apply ..

@[simp] theorem get_set (m : TtlMap κ ν) (k : κ) (v : ν) (ttl : ℤ) (k' : κ) :
    (m.set k v ttl).get k' = if k' = k then some v else m.get k' := by
  by_cases h : k' = k
  · subst h
    simp [get, set, pending_expiry]
  · simp [get, set, h]

@[simp] theorem get_del (m : TtlMap κ ν) (k k' : κ) :
    (m.del k).get k' = if k' = k then none else m.get k' := by
  by_cases h : k' = k
  · subst h
    simp [get, del]
  · simp [get, del, h]

@[simp] theorem get_put (m : TtlMap κ ν) (k : κ) (v : ν) (k' : κ) :
    (m.put k v).get k' = if k' = k then some v else m.get k' := by
  by_cases h : k' = k
  · subst h
    have hpending : pending m.now
        (((m.entry k').filter fun p => pending m.now p.2).bind Prod.snd) := by
      cases hf : (m.entry k').filter fun p => pending m.now p.2 with
      | none => rfl
      | some p =>
        have hp := (Option.filter_eq_some_iff.1 hf).2
        rwa [Option.bind_some]
    simp [get, put, hpending]
  · simp [get, put, h]

/-- A new time to live leaves the entries as they are, or takes one away. -/
theorem get_expire (m : TtlMap κ ν) (k : κ) (ttl : ℤ) (k' : κ) :
    (m.expire k ttl).get k' = m.get k' ∨ (m.expire k ttl).get k' = none := by
  unfold expire
  cases hk : m.get k with
  | none => exact .inl rfl
  | some v =>
    dsimp only
    by_cases h : k' = k
    · subst h
      split
      · exact .inl (by simp [hk])
      · exact .inr (by simp)
    · split <;> exact .inl (by simp [h])

end TtlMap

end KamaHttp
