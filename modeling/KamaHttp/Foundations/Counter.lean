import Mathlib.Algebra.Order.BigOperators.Group.Finset
import Mathlib.Data.Int.Interval

/-!
# Counters that may be lost

A counter hands out the numbers one, two, three and so on. It may be lost at any time, and begins
again then. `Issued o l`: the numbers `l` have been handed out, and the counter stands at `o`, if it
is there.

* `Issued.count_succ_le`: no number has been handed out more often than the one before it.
* `Issued.countP_le`: from a counter that began once, no more numbers up to `r` than `r`.
* `Issued.le_countP`: a counter that came to `r` has handed out as many, and one more for each time
  it began again.
-/

namespace KamaHttp

/-- The numbers that a counter has handed out, and where it stands. -/
inductive Issued : Option ℤ → Multiset ℤ → Prop
  | start : Issued none 0
  | first {o l} (h : Issued o l) : Issued (some 1) (1 ::ₘ l)
  | next {n l} (h : Issued (some n) l) : Issued (some (n + 1)) ((n + 1) ::ₘ l)
  | lost {o l} (h : Issued o l) : Issued none l

namespace Issued

variable {o : Option ℤ} {l : Multiset ℤ} {n v r : ℤ}

theorem one_le (h : Issued o l) : (∀ v ∈ l, 1 ≤ v) ∧ ∀ n, o = some n → 1 ≤ n := by
  induction h with
  | start => exact ⟨fun v hv => absurd hv (Multiset.notMem_zero v), fun n hn => by cases hn⟩
  | first _ ih =>
    refine ⟨fun v hv => ?_, fun n hn => (Option.some.inj hn).le⟩
    rcases Multiset.mem_cons.1 hv with rfl | hv
    · exact le_rfl
    · exact ih.1 v hv
  | @next n _ _ ih =>
    have hn := ih.2 n rfl
    refine ⟨fun v hv => ?_, fun m hm => by cases hm; omega⟩
    rcases Multiset.mem_cons.1 hv with rfl | hv
    · omega
    · exact ih.1 v hv
  | lost _ ih => exact ⟨ih.1, fun n hn => by cases hn⟩

/-- **No number has been handed out more often than the one before it**, and the one after that at
which the counter stands less often. -/
theorem count_succ_le (h : Issued o l) :
    (∀ v, 1 ≤ v → l.count (v + 1) ≤ l.count v) ∧
      ∀ n, o = some n → l.count (n + 1) < l.count n := by
  induction h with
  | start => exact ⟨fun v _ => by simp, fun n hn => by cases hn⟩
  | @first o l _ ih =>
    refine ⟨fun v hv => ?_, fun n hn => ?_⟩
    · have := ih.1 v hv
      rw [Multiset.count_cons, Multiset.count_cons]
      split <;> split <;> omega
    · obtain rfl := Option.some.inj hn
      have := ih.1 1 le_rfl
      rw [Multiset.count_cons_of_ne (by omega), Multiset.count_cons_self]
      omega
  | @next n l h ih =>
    have hn := h.one_le.2 n rfl
    have hstand := ih.2 n rfl
    refine ⟨fun v hv => ?_, fun m hm => ?_⟩
    · have := ih.1 v hv
      rw [Multiset.count_cons, Multiset.count_cons]
      by_cases hvn : v = n
      · subst hvn
        rw [if_pos rfl, if_neg (by omega)]
        omega
      · split <;> split <;> omega
    · obtain rfl := Option.some.inj hm
      have := ih.1 (n + 1) (by omega)
      rw [Multiset.count_cons_of_ne (by omega), Multiset.count_cons_self]
      omega
  | lost _ ih => exact ⟨ih.1, fun n hn => by cases hn⟩

/-- Numbers have been handed out no more often than smaller ones. -/
theorem count_le_count (h : Issued o l) (hv : 1 ≤ v) (hvr : v ≤ r) : l.count r ≤ l.count v := by
  induction r, hvr using Int.leInduction with
  | base => exact le_rfl
  | succ r hr ih => exact (h.count_succ_le.1 r (hv.trans hr)).trans ih

/-- A counter that has handed out a number has handed out the first one. -/
theorem one_mem (h : Issued o l) (hv : v ∈ l) : 1 ∈ l := by
  have hcount := Multiset.one_le_count_iff_mem.2 hv
  exact Multiset.one_le_count_iff_mem.1 (hcount.trans (h.count_le_count le_rfl (h.one_le.1 v hv)))

/-- The numbers up to `r`, number by number. -/
theorem countP_eq_sum (h : Issued o l) {s : Finset ℤ} (hs : ∀ v, v ∈ s ↔ 1 ≤ v ∧ v ≤ r) :
    l.countP (· ≤ r) = ∑ v ∈ s, l.count v := by
  have hmem : ∀ v ∈ l.filter (· ≤ r), v ∈ s := fun v hv => by
    rw [Multiset.mem_filter] at hv
    exact (hs v).2 ⟨h.one_le.1 v hv.1, hv.2⟩
  rw [Multiset.countP_eq_card_filter, ← Multiset.sum_count_eq_card hmem]
  refine Finset.sum_congr rfl fun v hv => ?_
  exact Multiset.count_filter_of_pos ((hs v).1 hv).2

/-- **From a counter that began once**, no more numbers up to `r` than `r`. -/
theorem countP_le (h : Issued o l) (honce : l.count 1 ≤ 1) (hr : 0 ≤ r) :
    (l.countP (· ≤ r) : ℤ) ≤ r := by
  have hone : ∀ v ∈ Finset.Icc 1 r, l.count v ≤ 1 := fun v hv =>
    (h.count_le_count le_rfl (Finset.mem_Icc.1 hv).1).trans honce
  have hsum := Finset.sum_le_card_nsmul _ _ _ hone
  rw [← h.countP_eq_sum fun _ => Finset.mem_Icc, Int.card_Icc, Nat.nsmul_eq_mul] at hsum
  omega

/-- **A counter that came to `r`** has handed out as many numbers up to `r`, and one more for each
time it began again. -/
theorem le_countP (h : Issued o l) {m : ℤ} (hm : m ∈ l) (hr : 1 ≤ r) (hrm : r ≤ m) :
    r + (l.count 1 - 1) ≤ (l.countP (· ≤ r) : ℤ) := by
  have hpos : ∀ v ∈ Finset.Icc 1 r, 1 ≤ l.count v := fun v hv => by
    obtain ⟨hv, hvr⟩ := Finset.mem_Icc.1 hv
    exact (Multiset.one_le_count_iff_mem.2 hm).trans (h.count_le_count hv (hvr.trans hrm))
  have hmem : (1 : ℤ) ∈ Finset.Icc 1 r := Finset.mem_Icc.2 ⟨le_rfl, hr⟩
  have hrest := Finset.card_nsmul_le_sum ((Finset.Icc 1 r).erase 1) l.count 1
    fun v hv => hpos v (Finset.mem_of_mem_erase hv)
  rw [Finset.card_erase_of_mem hmem, Int.card_Icc, Nat.nsmul_eq_mul] at hrest
  have hsum := Finset.add_sum_erase _ l.count hmem
  rw [← h.countP_eq_sum fun _ => Finset.mem_Icc] at hsum
  omega

end Issued

end KamaHttp
