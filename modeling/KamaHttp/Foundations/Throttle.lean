import Mathlib.Data.Nat.Notation
import Mathlib.Order.Monotone.Basic

/-!
# One job at a time

Jobs become ready over time: `ready k` of them by the end of the `k`-th round. A worker that takes
one ready job a round has taken `taken ready k` after `k` rounds.

* `taken_le`: it never gets ahead of `ready j` by more than the rounds that follow.
* `taken_eq_iff`: it has taken everything that is ready exactly when, from every round on, no more
  jobs become ready than rounds are left.
-/

namespace KamaHttp

/-- What a worker that takes one ready job a round has taken after `k` rounds. -/
def taken (ready : ℕ → ℕ) : ℕ → ℕ
  | 0 => 0
  | k + 1 => min (taken ready k + 1) (ready (k + 1))

variable {ready : ℕ → ℕ}

theorem taken_le_ready (k : ℕ) : taken ready k ≤ ready k := by
  cases k with
  | zero => exact Nat.zero_le _
  | succ k => exact Nat.min_le_right _ _

theorem taken_le {j k : ℕ} (hjk : j ≤ k) : taken ready k ≤ ready j + (k - j) := by
  induction k, hjk using Nat.le_induction with
  | base => simpa using taken_le_ready j
  | succ k hjk ih =>
    have h : taken ready (k + 1) ≤ taken ready k + 1 := Nat.min_le_left _ _
    omega

/-- The last round in which the worker took the last ready job bounds what it has taken. -/
theorem exists_taken_eq (h₀ : ready 0 = 0) (k : ℕ) :
    ∃ j ≤ k, taken ready k = ready j + (k - j) := by
  induction k with
  | zero => exact ⟨0, le_rfl, by simp [taken, h₀]⟩
  | succ k ih =>
    obtain ⟨j, hj, he⟩ := ih
    by_cases h : taken ready k + 1 ≤ ready (k + 1)
    · refine ⟨j, by omega, ?_⟩
      rw [taken, Nat.min_eq_left h]
      omega
    · refine ⟨k + 1, le_rfl, ?_⟩
      rw [taken, Nat.min_eq_right (by omega)]
      omega

/-- **The worker has taken all jobs exactly when from no round on more of them become ready than
rounds are left.** -/
theorem taken_eq_iff (h₀ : ready 0 = 0) (k : ℕ) :
    taken ready k = ready k ↔ ∀ j ≤ k, ready k - ready j ≤ k - j := by
  constructor
  · intro h j hj
    have h' : taken ready k ≤ ready j + (k - j) := taken_le hj
    omega
  · intro h
    obtain ⟨j, hj, he⟩ := exists_taken_eq h₀ k
    have h₁ := h j hj
    have h₂ : taken ready k ≤ ready k := taken_le_ready k
    omega

end KamaHttp
