import Mathlib.Data.List.Infix
import Mathlib.Data.List.Basic
import Mathlib.Data.List.TakeWhile

/-!
# The first occurrence of a pattern in a list

`breakOn p l` cuts `l` at the first occurrence of the pattern `p`: the part before it and the part
after it, or nothing when `p` does not occur. Searches for a character, for a line end or for a
substring are all instances of it.

* `breakOn_eq_none_iff`, `eq_append_of_breakOn`: the cut is at an occurrence, and there is none
  when the search fails.
* `breakOn_append`: the first occurrence in a list is the first occurrence in every extension.
* `breakOn_append_cons`: a pattern does not reach across an element that it does not have.
* `breakOn_singleton_iff`, `breakOn_pair`: the cuts at one element and at two different ones.
* `breakOn_concat`: a pattern that ends with an element which is nowhere else in it.
-/

namespace KamaHttp.Search

variable {α : Type*} [DecidableEq α]

/-- Cut a list at the first occurrence of the pattern `p`. -/
def breakOn (p : List α) : List α → Option (List α × List α)
  | [] => if p.isPrefixOf [] then some ([], []) else none
  | a :: l =>
    if p.isPrefixOf (a :: l) then some ([], (a :: l).drop p.length)
    else (breakOn p l).map fun uv => (a :: uv.1, uv.2)

variable {p l u v : List α}

theorem breakOn_cons (p : List α) (a : α) (l : List α) :
    breakOn p (a :: l) = if p <+: a :: l then some ([], (a :: l).drop p.length)
      else (breakOn p l).map fun uv => (a :: uv.1, uv.2) := by
  simp only [breakOn, List.isPrefixOf_iff_prefix]

theorem breakOn_here (h : p <+: l) : breakOn p l = some ([], l.drop p.length) := by
  cases l with
  | nil => simp [breakOn, List.prefix_nil.1 h]
  | cons a l => rw [breakOn_cons, if_pos h]

/-- The cut is at an occurrence of the pattern. -/
theorem eq_append_of_breakOn (h : breakOn p l = some (u, v)) : l = u ++ (p ++ v) := by
  induction l generalizing u with
  | nil =>
    simp only [breakOn, List.isPrefixOf_iff_prefix, List.prefix_nil] at h
    split at h
    · rename_i hp
      obtain ⟨rfl, rfl⟩ := Prod.mk.inj (Option.some.inj h)
      simp [hp]
    · cases h
  | cons a l ih =>
    rw [breakOn_cons] at h
    split at h
    · rename_i hp
      obtain ⟨t, ht⟩ := hp
      obtain ⟨rfl, rfl⟩ := Prod.mk.inj (Option.some.inj h)
      simp [← ht]
    · obtain ⟨⟨u', v'⟩, huv, he⟩ := Option.map_eq_some_iff.1 h
      obtain ⟨rfl, rfl⟩ := Prod.mk.inj he
      rw [ih huv, List.cons_append]

theorem breakOn_eq_none_iff : breakOn p l = none ↔ ¬ p <:+: l := by
  induction l with
  | nil => simp [breakOn]
  | cons a l ih =>
    rw [breakOn_cons, List.infix_cons_iff]
    split <;> simp_all

theorem breakOn_isSome_iff : (breakOn p l).isSome ↔ p <:+: l := by
  rw [Option.isSome_iff_ne_none, ne_eq, breakOn_eq_none_iff, not_not]

/-- **The first occurrence in a list is the first occurrence in every extension of it.** -/
theorem breakOn_append (h : breakOn p l = some (u, v)) (t : List α) :
    breakOn p (l ++ t) = some (u, v ++ t) := by
  induction l generalizing u with
  | nil =>
    have hl := eq_append_of_breakOn h
    simp only [List.nil_eq, List.append_eq_nil_iff] at hl
    obtain ⟨rfl, rfl, rfl⟩ := hl
    rw [breakOn_here (List.nil_prefix)]
    simp
  | cons a l ih =>
    rw [List.cons_append, breakOn_cons] at *
    split at h
    · rename_i hp
      obtain ⟨rfl, rfl⟩ := Prod.mk.inj (Option.some.inj h)
      have hp' : p <+: a :: (l ++ t) := hp.trans (List.prefix_append (a :: l) t)
      rw [if_pos hp', ← List.cons_append, List.drop_append_of_le_length hp.length_le]
    · rename_i hp
      obtain ⟨⟨u', v'⟩, huv, he⟩ := Option.map_eq_some_iff.1 h
      obtain ⟨rfl, rfl⟩ := Prod.mk.inj he
      -- the occurrence found further on leaves room for `p`, so `p` does not begin here either
      have hlen : p.length ≤ (a :: l).length := by
        rw [eq_append_of_breakOn huv]
        simp only [List.length_cons, List.length_append]
        omega
      have hp' : ¬ p <+: a :: (l ++ t) := fun hp' =>
        hp (List.prefix_of_prefix_length_le hp' (List.prefix_append (a :: l) t) hlen)
      rw [if_neg hp', ih huv]
      rfl

/-- The pattern does not occur before the cut. -/
theorem breakOn_fst_eq_none (hp : p ≠ []) (h : breakOn p l = some (u, v)) :
    breakOn p u = none := by
  rcases hu : breakOn p u with _ | ⟨u', v'⟩
  · rfl
  · have h' := breakOn_append hu (p ++ v)
    rw [← eq_append_of_breakOn h, h] at h'
    obtain ⟨rfl, hv⟩ := Prod.mk.inj (Option.some.inj h')
    have hlen := congrArg List.length hv
    have := List.length_pos_iff.2 hp
    simp only [List.length_append] at hlen
    omega

omit [DecidableEq α] in
theorem prefix_of_prefix_append_cons {d : α} (hd : d ∉ p) (h : p <+: u ++ d :: v) : p <+: u := by
  rcases Nat.lt_or_ge u.length p.length with hlt | hle
  · have hud : u ++ [d] <+: u ++ d :: v := ⟨v, by simp⟩
    have hmem : u ++ [d] <+: p :=
      List.prefix_of_prefix_length_le hud h (by simpa using Nat.succ_le_of_lt hlt)
    exact absurd (hmem.subset (by simp)) hd
  · exact List.prefix_of_prefix_length_le h (List.prefix_append u _) hle

/-- A pattern does not reach across an element that it does not have: behind a part where it does
not occur, it is looked for in the rest. -/
theorem breakOn_append_cons {d : α} (hd : d ∉ p) (hu : breakOn p u = none) (v : List α) :
    breakOn p (u ++ d :: v) = (breakOn p v).map fun x => (u ++ d :: x.1, x.2) := by
  induction u with
  | nil =>
    have hp : ¬ p <+: d :: v := by
      cases p with
      | nil => cases hu
      | cons a p => exact fun h => hd ((List.cons_prefix_cons.1 h).1 ▸ List.mem_cons_self)
    rw [List.nil_append, breakOn_cons, if_neg hp]
    rfl
  | cons a u ih =>
    rw [breakOn_cons] at hu
    split at hu
    · cases hu
    rename_i hp
    have hp' : ¬ p <+: a :: (u ++ d :: v) := fun h =>
      hp (prefix_of_prefix_append_cons (u := a :: u) hd h)
    rw [List.cons_append, breakOn_cons, if_neg hp', ih (Option.map_eq_none_iff.1 hu),
      Option.map_map]
    rfl

/-- What stands past the first occurrence of the pattern. -/
def past (p l : List α) : Option (List α) := (breakOn p l).map Prod.snd

/-! ## One element -/

theorem breakOn_singleton_none {c : α} : breakOn [c] l = none ↔ c ∉ l := by
  rw [breakOn_eq_none_iff, List.singleton_infix_iff]

theorem breakOn_singleton {c : α} (hu : c ∉ u) (v : List α) :
    breakOn [c] (u ++ c :: v) = some (u, v) := by
  induction u with
  | nil => simp [breakOn]
  | cons a u ih =>
    have hne : c ≠ a := fun h => hu (by simp [h])
    rw [List.cons_append, breakOn_cons, if_neg (by simp [hne]), ih fun h => hu (by simp [h])]
    rfl

theorem past_singleton {c : α} (hu : c ∉ u) (v : List α) : past [c] (u ++ c :: v) = some v := by
  rw [past, breakOn_singleton hu]
  rfl

theorem past_singleton_none {c : α} (hl : c ∉ l) : past [c] l = none := by
  rw [past, breakOn_singleton_none.2 hl]
  rfl

/-- The cut at an element: what stands before and after its first occurrence. -/
theorem breakOn_singleton_iff {c : α} :
    breakOn [c] l = some (u, v) ↔ l = u ++ c :: v ∧ c ∉ u := by
  constructor
  · intro h
    refine ⟨by simpa using eq_append_of_breakOn h, ?_⟩
    exact breakOn_singleton_none.1 (breakOn_fst_eq_none (by simp) h)
  · rintro ⟨rfl, hu⟩
    exact breakOn_singleton hu v

/-- What stands before the first occurrence of an element: all of the list if there is none. -/
theorem takeWhile_ne_eq (c : α) (l : List α) :
    l.takeWhile (· ≠ c) = ((breakOn [c] l).map Prod.fst).getD l := by
  rcases h : breakOn [c] l with _ | ⟨u, v⟩
  · refine List.takeWhile_eq_self_iff.2 fun a ha => decide_eq_true fun hac => ?_
    exact breakOn_singleton_none.1 h (hac ▸ ha)
  · obtain ⟨rfl, hu⟩ := breakOn_singleton_iff.1 h
    have hall : ∀ a ∈ u, decide (a ≠ c) = true := fun a ha =>
      decide_eq_true fun hac => hu (hac ▸ ha)
    rw [List.takeWhile_append_of_pos hall]
    simp

/-- What stands behind the first occurrence of an element: nothing if there is none. -/
theorem tail_dropWhile_ne_eq (c : α) (l : List α) :
    (l.dropWhile (· ≠ c)).tail = ((breakOn [c] l).map Prod.snd).getD [] := by
  rcases h : breakOn [c] l with _ | ⟨u, v⟩
  · have hall : ∀ a ∈ l, decide (a ≠ c) = true := fun a ha =>
      decide_eq_true fun hac => breakOn_singleton_none.1 h (hac ▸ ha)
    rw [List.dropWhile_eq_nil_iff.2 hall]
    rfl
  · obtain ⟨rfl, hu⟩ := breakOn_singleton_iff.1 h
    have hall : ∀ a ∈ u, decide (a ≠ c) = true := fun a ha =>
      decide_eq_true fun hac => hu (hac ▸ ha)
    rw [List.dropWhile_append_of_pos hall]
    simp

/-! ## Patterns that end with an element -/

/-- Where a pattern ends with an element that is nowhere else in it, it occurs up to the first such
element exactly if what stands before that ends with the rest of the pattern. -/
theorem breakOn_concat {k : List α} {c : α} (hk : c ∉ k) (hu : c ∉ u) (v : List α) :
    (k <:+ u → (breakOn (k ++ [c]) (u ++ c :: v)).map Prod.snd = some v) ∧
      (¬ k <:+ u → breakOn (k ++ [c]) (u ++ c :: v) =
        (breakOn (k ++ [c]) v).map fun x => (u ++ c :: x.1, x.2)) := by
  induction u with
  | nil =>
    rw [List.nil_append, List.suffix_nil]
    refine ⟨fun h => by simp [h, breakOn], fun h => ?_⟩
    obtain ⟨a, k, rfl⟩ := List.exists_cons_of_ne_nil h
    have hac : a ≠ c := fun he => hk (he ▸ List.mem_cons_self)
    rw [breakOn_cons, if_neg (by simp [hac])]
    rfl
  | cons a u ih =>
    obtain ⟨hend, hrest⟩ := ih fun h => hu (List.mem_cons_of_mem a h)
    have hhere : k ++ [c] <+: a :: (u ++ c :: v) ↔ k = a :: u := by
      constructor
      · rintro ⟨t, ht⟩
        rw [List.append_assoc, List.singleton_append, ← List.cons_append] at ht
        have hcut := breakOn_singleton hk t
        rw [ht, breakOn_singleton hu] at hcut
        exact (Prod.mk.inj (Option.some.inj hcut)).1.symm
      · rintro rfl
        exact ⟨v, by simp⟩
    rw [List.cons_append, breakOn_cons, List.suffix_cons_iff]
    by_cases hka : k = a :: u
    · rw [if_pos (hhere.2 hka)]
      simp [hka]
    · rw [if_neg (mt hhere.1 hka)]
      simp only [hka, false_or, Option.map_map]
      refine ⟨fun h => ?_, fun h => ?_⟩
      · rw [← hend h]
        rfl
      · rw [hrest h, Option.map_map]
        rfl

/-! ## Two different elements -/

theorem breakOn_pair {a b : α} (hab : a ≠ b) (hu : breakOn [a, b] u = none) (v : List α) :
    breakOn [a, b] (u ++ a :: b :: v) = some (u, v) := by
  induction u with
  | nil => simp [breakOn]
  | cons x u ih =>
    rw [breakOn_cons] at hu
    split at hu
    · cases hu
    · rename_i hp
      have hp' : ¬ [a, b] <+: x :: (u ++ a :: b :: v) := by
        cases u with
        | nil => simp [Ne.symm hab]
        | cons y u => simpa using hp
      rw [List.cons_append, breakOn_cons, if_neg hp', ih (by simpa using hu)]
      rfl

end KamaHttp.Search
