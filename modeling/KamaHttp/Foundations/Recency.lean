import Mathlib.Data.List.Basic
import Mathlib.Data.List.Nodup
import Mathlib.Data.List.Infix
import Mathlib.Data.List.Induction
import Mathlib.Algebra.BigOperators.Group.List.Basic
import Mathlib.Algebra.Order.Ring.Nat

/-!
# Recency lists

The abstract state of a bounded store that evicts what was least recently used: entries under
distinct keys, the most recently used first. `touch` moves an entry to the front, `put` writes one
there, `shed` gives up entries from the back until the weight of the rest fits a bound.

* `lookup_touch`, `lookup_put`, `lookup_remove`, `lookup_filter`: what is found after an operation.
* `lookup_of_shed`, `lookup_shed_put`: shedding changes no entry it keeps, and keeps the entry at
  the front if that one fits.
* `shed_concat`: shedding may give up one entry after the other.
* `shed_eq_longest`: what is kept is the longest beginning of the list that fits.
-/

namespace KamaHttp.Recency

variable {κ ν : Type*}

/-- No key has two entries. -/
def Distinct (l : List (κ × ν)) : Prop := (l.map Prod.fst).Nodup

/-- The weight of all entries. -/
def weight (w : ν → ℕ) (l : List (κ × ν)) : ℕ := (l.map fun p => w p.2).sum

/-- The longest part of the list, from the front, whose weight fits the bound. -/
def shed (w : ν → ℕ) : ℕ → List (κ × ν) → List (κ × ν)
  | _, [] => []
  | cap, p :: l => if w p.2 ≤ cap then p :: shed w (cap - w p.2) l else []

/-- The longest of the beginnings of the list whose weight fits the bound. -/
def longest (w : ν → ℕ) (cap : ℕ) (l : List (κ × ν)) : List (κ × ν) :=
  (l.inits.filter fun p => weight w p ≤ cap).getLastD []

section Shed

variable {w : ν → ℕ} {cap : ℕ} {l : List (κ × ν)}

theorem shed_isPrefix (w : ν → ℕ) (cap : ℕ) (l : List (κ × ν)) : shed w cap l <+: l := by
  induction l generalizing cap with
  | nil => exact List.prefix_rfl
  | cons p l ih =>
    unfold shed
    split
    · exact (List.prefix_cons_inj p).2 (ih _)
    · exact List.nil_prefix

theorem weight_shed_le (w : ν → ℕ) (cap : ℕ) (l : List (κ × ν)) :
    weight w (shed w cap l) ≤ cap := by
  induction l generalizing cap with
  | nil => exact Nat.zero_le _
  | cons p l ih =>
    unfold shed
    split
    · have := ih (cap - w p.2)
      simp only [weight, List.map_cons, List.sum_cons] at this ⊢
      omega
    · exact Nat.zero_le _

theorem shed_of_weight_le (h : weight w l ≤ cap) : shed w cap l = l := by
  induction l generalizing cap with
  | nil => rfl
  | cons p l ih =>
    simp only [weight, List.map_cons, List.sum_cons] at h
    rw [shed, if_pos (by omega), ih (by simp only [weight]; omega)]

/-- **Shedding gives up the last entry first**, when the whole does not fit. -/
theorem shed_concat {p : κ × ν} (h : cap < weight w (l ++ [p])) :
    shed w cap (l ++ [p]) = shed w cap l := by
  induction l generalizing cap with
  | nil =>
    simp only [weight, List.nil_append, List.map_cons, List.map_nil, List.sum_cons,
      List.sum_nil] at h
    have hp : ¬ w p.2 ≤ cap := by omega
    simp [shed, hp]
  | cons x l ih =>
    simp only [weight, List.cons_append, List.map_cons, List.sum_cons] at h
    rw [List.cons_append, shed, shed]
    by_cases hx : w x.2 ≤ cap
    · rw [if_pos hx, if_pos hx, ih (by simp only [weight]; omega)]
    · rw [if_neg hx, if_neg hx]

/-- **Shedding keeps the longest beginning of the list that fits.** -/
theorem shed_eq_longest (w : ν → ℕ) (cap : ℕ) (l : List (κ × ν)) :
    shed w cap l = longest w cap l := by
  induction l generalizing cap with
  | nil => simp [shed, longest, weight]
  | cons p l ih =>
    have hcons : ∀ q : List (κ × ν), weight w (p :: q) = w p.2 + weight w q := fun q => by
      simp [weight]
    have hnil : weight w ([] : List (κ × ν)) ≤ cap := Nat.zero_le _
    rw [shed, longest, List.inits_cons, List.filter_cons_of_pos (by simpa using hnil),
      List.filter_map]
    by_cases hp : w p.2 ≤ cap
    · have hrest : ((fun q => decide (weight w q ≤ cap)) ∘ fun q => p :: q) =
          fun q : List (κ × ν) => decide (weight w q ≤ cap - w p.2) := by
        funext q
        simp only [Function.comp_apply, hcons, decide_eq_decide]
        omega
      rw [if_pos hp, ih, longest, hrest]
      have hmem : [] ∈ l.inits.filter fun q => weight w q ≤ cap - w p.2 := by
        simp [weight]
      generalize l.inits.filter (fun q => weight w q ≤ cap - w p.2) = qs at hmem
      cases qs using List.reverseRecOn with
      | nil => cases hmem
      | append_singleton qs q =>
        rw [List.getLastD_concat, List.map_append, List.map_singleton, ← List.cons_append,
          List.getLastD_concat]
    · have hrest : ((fun q => decide (weight w q ≤ cap)) ∘ fun q => p :: q) =
          fun _ : List (κ × ν) => false := by
        funext q
        simp only [Function.comp_apply, hcons, decide_eq_false_iff_not]
        omega
      rw [if_neg hp, hrest]
      simp

end Shed

variable [DecidableEq κ]

/-- The entry under a key. -/
def lookup (l : List (κ × ν)) (k : κ) : Option ν := (l.find? fun p => p.1 = k).map Prod.snd

def remove (l : List (κ × ν)) (k : κ) : List (κ × ν) := l.filter fun p => p.1 ≠ k

/-- Move the entry under `k` to the front. -/
def touch (l : List (κ × ν)) (k : κ) : List (κ × ν) :=
  match lookup l k with
  | some v => (k, v) :: remove l k
  | none => l

/-- Write an entry at the front. -/
def put (l : List (κ × ν)) (k : κ) (v : ν) : List (κ × ν) := (k, v) :: remove l k

variable {w : ν → ℕ} {cap : ℕ} {l l' : List (κ × ν)} {k k' : κ} {v v' : ν}

theorem lookup_cons (p : κ × ν) (l : List (κ × ν)) (k : κ) :
    lookup (p :: l) k = if p.1 = k then some p.2 else lookup l k := by
  by_cases h : p.1 = k <;> simp [lookup, h]

theorem lookup_filter (q : κ → Bool) (l : List (κ × ν)) (k : κ) :
    lookup (l.filter fun p => q p.1) k = if q k then lookup l k else none := by
  induction l with
  | nil => simp [lookup]
  | cons p l ih => grind [lookup_cons]

theorem lookup_remove (l : List (κ × ν)) (k k' : κ) :
    lookup (remove l k) k' = if k' = k then none else lookup l k' := by
  have h := lookup_filter (fun x => decide (x ≠ k)) l k'
  rw [remove, h]
  by_cases hk : k' = k <;> simp [hk]

theorem lookup_put (l : List (κ × ν)) (k : κ) (v : ν) (k' : κ) :
    lookup (put l k v) k' = if k' = k then some v else lookup l k' := by
  rw [put, lookup_cons, lookup_remove]
  grind

theorem lookup_touch (l : List (κ × ν)) (k k' : κ) : lookup (touch l k) k' = lookup l k' := by
  unfold touch
  split
  · rename_i v h
    rw [lookup_cons, lookup_remove]
    grind
  · rfl

theorem lookup_of_prefix (hl : l' <+: l) (h : lookup l' k = some v) : lookup l k = some v := by
  obtain ⟨t, rfl⟩ := hl
  induction l' with
  | nil => cases h
  | cons p l' ih => grind [lookup_cons]

/-! ## Distinct keys -/

/-- Of distinct entries, removing one takes its weight away. -/
theorem weight_remove (hd : Distinct l) (h : lookup l k = some v) :
    weight w (remove l k) + w v = weight w l := by
  induction l with
  | nil => cases h
  | cons p l ih =>
    obtain ⟨hp, hd⟩ := List.nodup_cons.1 hd
    rw [lookup_cons] at h
    by_cases hk : p.1 = k
    · have hrem : remove l k = l := by
        refine List.filter_eq_self.2 fun x hx => ?_
        simpa using fun he : x.1 = k => hp (hk ▸ he ▸ List.mem_map_of_mem hx)
      have hv : p.2 = v := by simpa [hk] using h
      have hcons : remove (p :: l) k = remove l k := by simp [remove, hk]
      rw [hcons, hrem, ← hv]
      simp only [weight, List.map_cons, List.sum_cons]
      omega
    · have hcons : remove (p :: l) k = p :: remove l k := by simp [remove, hk]
      have := ih hd (by simpa [hk] using h)
      rw [hcons]
      simp only [weight, List.map_cons, List.sum_cons] at this ⊢
      omega

theorem remove_concat {p : κ × ν} (h : Distinct (l ++ [p])) : remove (l ++ [p]) p.1 = l := by
  have hp : ∀ x ∈ l, x.1 ≠ p.1 := by
    intro x hx he
    rw [Distinct, List.map_append, List.nodup_append'] at h
    exact h.2.2 (List.mem_map_of_mem hx) (by simp [he])
  rw [remove, List.filter_append, List.filter_eq_self.2 (by simpa using hp)]
  simp

theorem remove_of_lookup_none (h : lookup l k = none) : remove l k = l := by
  refine List.filter_eq_self.2 fun p hp => ?_
  simp only [lookup, Option.map_eq_none_iff, List.find?_eq_none, decide_eq_true_eq] at h
  simpa using h p hp

/-! ## What is left after shedding -/

theorem lookup_of_shed (h : lookup (shed w cap l) k = some v) : lookup l k = some v :=
  lookup_of_prefix (shed_isPrefix w cap l) h

/-- The entry at the front is kept if it fits. -/
theorem lookup_shed_put (h : w v ≤ cap) : lookup (shed w cap (put l k v)) k = some v := by
  rw [put, shed, if_pos h, lookup_cons, if_pos rfl]

end KamaHttp.Recency
