import Mathlib.Data.List.Nodup
import Mathlib.Data.List.Perm.Basic
import Mathlib.Data.Set.Insert
import Mathlib.Data.Nat.Notation

/-!
# Things in custody

Things are kept in places, each of which has a list of them. `Kept` says that a thing is in exactly
one place, and there once; `Keeps` says it of all things of a set, and that there are no others.

* `Kept.eq_of_mem`: a thing that is kept is in no two places.
* `Keeps.passes`: things are still kept when one of them passes from one place to another.
* `Keeps.add`: so they are when new ones are put into a place.
-/

namespace KamaHttp.Custody

variable {ι α : Type*} [DecidableEq α]

/-- The thing is in exactly one place, and there once. -/
def Kept (f : ι → List α) (x : α) : Prop := ∃ i, (f i).count x = 1 ∧ ∀ j, j ≠ i → x ∉ f j

/-- The things of a set are kept, and no others. -/
structure Keeps (f : ι → List α) (things : Set α) : Prop where
  kept : ∀ x ∈ things, Kept f x
  mem : ∀ i, ∀ x ∈ f i, x ∈ things

/-- A thing passes from one place to another. -/
structure Passes (f g : ι → List α) (i j : ι) (x : α) : Prop where
  ne : i ≠ j
  source : (f i).Perm (x :: g i)
  target : (g j).Perm (x :: f j)
  frame : ∀ k, k ≠ i → k ≠ j → g k = f k

variable {f g : ι → List α} {i j : ι} {x y : α} {things : Set α} {new : List α}

theorem Kept.eq_of_mem (h : Kept f x) (hi : x ∈ f i) (hj : x ∈ f j) : i = j := by
  obtain ⟨k, -, hk⟩ := h
  have hik : i = k := by_contra fun hne => hk i hne hi
  have hjk : j = k := by_contra fun hne => hk j hne hj
  rw [hik, hjk]

theorem Kept.count_of_mem (h : Kept f x) (hi : x ∈ f i) : (f i).count x = 1 := by
  obtain ⟨k, hcount, hk⟩ := h
  have hik : i = k := by_contra fun hne => hk i hne hi
  rw [hik, hcount]

/-- What is kept depends on the numbers of times that a thing is in the places. -/
theorem Kept.congr (h : Kept f x) (hcount : ∀ k, (g k).count x = (f k).count x) : Kept g x := by
  obtain ⟨i, hi, hother⟩ := h
  refine ⟨i, (hcount i).trans hi, fun j hj hmem => ?_⟩
  rw [← List.count_pos_iff, hcount j, List.count_pos_iff] at hmem
  exact hother j hj hmem

theorem Kept.exists_mem (h : Kept f x) : ∃ i, x ∈ f i := by
  obtain ⟨i, hcount, -⟩ := h
  exact ⟨i, List.count_pos_iff.1 (hcount ▸ Nat.one_pos)⟩

theorem Keeps.nodup (h : Keeps f things) (i : ι) : (f i).Nodup :=
  List.nodup_iff_count_eq_one.2 fun x hx => (h.kept x (h.mem i x hx)).count_of_mem hx

/-! ## From one place to another -/

theorem Passes.count_of_ne (h : Passes f g i j x) (hy : y ≠ x) (k : ι) :
    (g k).count y = (f k).count y := by
  by_cases hki : k = i
  · rw [hki, h.source.count_eq, List.count_cons_of_ne (Ne.symm hy)]
  by_cases hkj : k = j
  · rw [hkj, h.target.count_eq, List.count_cons_of_ne (Ne.symm hy)]
  rw [h.frame k hki hkj]

omit [DecidableEq α] in
theorem Passes.mem_source (h : Passes f g i j x) : x ∈ f i := h.source.mem_iff.2 List.mem_cons_self

theorem Passes.kept (h : Passes f g i j x) (hy : Kept f y) : Kept g y := by
  by_cases hyx : y = x
  · subst hyx
    have hcount := hy.count_of_mem h.mem_source
    rw [h.source.count_eq, List.count_cons_self, Nat.add_eq_right, List.count_eq_zero] at hcount
    have hj : y ∉ f j := fun hmem => h.ne (hy.eq_of_mem h.mem_source hmem)
    refine ⟨j, ?_, fun k hkj => ?_⟩
    · rw [h.target.count_eq, List.count_cons_self, List.count_eq_zero.2 hj]
    · by_cases hki : k = i
      · rwa [hki]
      · rw [h.frame k hki hkj]
        exact fun hmem => hki (hy.eq_of_mem hmem h.mem_source)
  · exact hy.congr (h.count_of_ne hyx)

theorem Passes.mem (h : Passes f g i j x) {k : ι} (hy : y ∈ g k) : ∃ k, y ∈ f k := by
  by_cases hyx : y = x
  · exact ⟨i, hyx ▸ h.mem_source⟩
  · refine ⟨k, ?_⟩
    rwa [← List.count_pos_iff, ← h.count_of_ne hyx, List.count_pos_iff]

/-- **Things are kept** when one of them passes from one place to another. -/
theorem Keeps.passes (h : Keeps f things) (hpass : Passes f g i j x) : Keeps g things where
  kept y hy := hpass.kept (h.kept y hy)
  mem k y hy := by
    obtain ⟨k, hk⟩ := hpass.mem hy
    exact h.mem k y hk

/-! ## New things -/

/-- **Things are kept** when new ones are put into a place. -/
theorem Keeps.add (h : Keeps f things) (hnew : new.Nodup) (hout : ∀ x ∈ new, x ∉ things)
    (hi : g i = f i ++ new) (hframe : ∀ k, k ≠ i → g k = f k) :
    Keeps g (things ∪ {x | x ∈ new}) where
  kept y hy := by
    by_cases hmem : y ∈ new
    · have hf : ∀ k, y ∉ f k := fun k hk => hout y hmem (h.mem k y hk)
      refine ⟨i, ?_, fun k hk => (hframe k hk).symm ▸ hf k⟩
      rw [hi, List.count_append, List.count_eq_zero.2 (hf i), Nat.zero_add,
        List.nodup_iff_count_eq_one.1 hnew y hmem]
    · refine (h.kept y (hy.resolve_right hmem)).congr fun k => ?_
      by_cases hk : k = i
      · rw [hk, hi, List.count_append, List.count_eq_zero.2 hmem, Nat.add_zero]
      · rw [hframe k hk]
  mem k y hy := by
    by_cases hk : k = i
    · rw [hk, hi, List.mem_append] at hy
      exact hy.imp (h.mem i y) id
    · rw [hframe k hk] at hy
      exact .inl (h.mem k y hy)

end KamaHttp.Custody
