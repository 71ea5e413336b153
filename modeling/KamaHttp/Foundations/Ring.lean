import Mathlib.Data.List.Nodup
import Mathlib.Order.Lattice

/-!
# The next point on a ring

Points on a ring, each with a value, listed in their order. Going around from a place one comes to
the points that do not lie before it, and then to the others from the first one on; `next` is the
point one comes to first.

* `next_eq_some_iff`: the next point is the one that no other point comes before.
* `next_of_overlay`: points that are laid over others are the next ones, or change nothing.
-/

namespace KamaHttp.Ring

variable {α β : Type*} [LinearOrder α]

/-- The first point that does not lie before `x`. -/
def lowerBound (x : α) (points : List (α × β)) : Option (α × β) :=
  points.find? fun p => x ≤ p.1

/-- The first point, going around from `x`. -/
def next (x : α) (points : List (α × β)) : Option (α × β) :=
  (lowerBound x points).or points.head?

/-- Going around from `x`, one does not come to `b` before `a`. -/
structure NoLater (x a b : α) : Prop where
  ahead : x ≤ b → x ≤ a ∧ a ≤ b
  around : b < x → x ≤ a ∨ a ≤ b

theorem NoLater.antisymm {x a b : α} (hab : NoLater x a b) (hba : NoLater x b a) : a = b := by
  rcases le_or_gt x b with hb | hb
  · obtain ⟨ha, hle⟩ := hab.ahead hb
    exact le_antisymm hle (hba.ahead ha).2
  · rcases hab.around hb with ha | hle
    · exact absurd (hba.ahead ha).1 (not_le.2 hb)
    · rcases hba.around (hle.trans_lt hb) with hx | hge
      · exact absurd hx (not_le.2 hb)
      · exact le_antisymm hle hge

/-- The points are listed in their order. -/
def Sorted (points : List (α × β)) : Prop := points.Pairwise fun p q => p.1 < q.1

variable {x : α} {points points' : List (α × β)} {p q : α × β}

/-- There is one value for each point. -/
theorem Sorted.eq_of_fst (hs : Sorted points) (hp : p ∈ points) (hq : q ∈ points)
    (h : p.1 = q.1) : p = q := by
  have hnodup : (points.map Prod.fst).Nodup := List.pairwise_map.2 (hs.imp fun hlt => hlt.ne)
  exact List.inj_on_of_nodup_map hnodup hp hq h

/-- No point comes before the next one. -/
theorem noLater_of_next (hs : Sorted points) (h : next x points = some p) :
    p ∈ points ∧ ∀ q ∈ points, NoLater x p.1 q.1 := by
  rcases hb : lowerBound x points with _ | r
  · -- all points lie before `x`, and the next one is the first of all
    have hbefore : ∀ q ∈ points, q.1 < x := fun q hq => by
      simpa using List.find?_eq_none.1 hb q hq
    rw [next, hb, Option.none_or] at h
    obtain ⟨rest, rfl⟩ := List.head?_eq_some_iff.1 h
    refine ⟨List.mem_cons_self, fun q hq => ⟨fun hx => ?_, fun _ => .inr ?_⟩⟩
    · exact absurd hx (not_le.2 (hbefore q hq))
    · rcases List.mem_cons.1 hq with rfl | hq
      · exact le_rfl
      · exact ((List.pairwise_cons.1 hs).1 q hq).le
  · rw [next, hb, Option.some_or] at h
    obtain rfl := Option.some.inj h
    obtain ⟨hr, front, back, rfl, hfront⟩ := List.find?_eq_some_iff_append.1 hb
    have hxr : x ≤ r.1 := of_decide_eq_true hr
    refine ⟨by simp, fun q hq => ⟨fun hx => ⟨hxr, ?_⟩, fun _ => .inl hxr⟩⟩
    rcases List.mem_append.1 hq with hq | hq
    · have hlt : q.1 < x := by simpa using hfront q hq
      exact absurd hx (not_le.2 hlt)
    · rcases List.mem_cons.1 hq with rfl | hq
      · exact le_rfl
      · have hback := (List.pairwise_append.1 hs).2.1
        exact ((List.pairwise_cons.1 hback).1 q hq).le

theorem next_eq_none_iff : next x points = none ↔ points = [] := by
  rw [next, Option.or_eq_none_iff, List.head?_eq_none_iff]
  refine ⟨fun h => h.2, fun h => ⟨?_, h⟩⟩
  rw [h]
  rfl

/-- **The next point is the one that no other point comes before.** -/
theorem next_eq_some_iff (hs : Sorted points) :
    next x points = some p ↔ p ∈ points ∧ ∀ q ∈ points, NoLater x p.1 q.1 := by
  refine ⟨noLater_of_next hs, fun ⟨hp, hfirst⟩ => ?_⟩
  rcases hn : next x points with _ | q
  · rw [next_eq_none_iff.1 hn] at hp
    cases hp
  · obtain ⟨hq, hfirst'⟩ := noLater_of_next hs hn
    have hpoint : q.1 = p.1 := (hfirst' p hp).antisymm (hfirst q hq)
    rw [hs.eq_of_fst hq hp hpoint]

/-- **Points that are laid over others**: one of them is the next point, or the next point is what
it was. -/
theorem next_of_overlay (hs : Sorted points) (hs' : Sorted points') {b : β}
    (hnew : ∀ q ∈ points', q.2 = b ∨ q ∈ points)
    (hold : ∀ q ∈ points, ∃ q' ∈ points', q'.1 = q.1) (x : α) :
    (next x points').map Prod.snd = some b ∨ next x points' = next x points := by
  rcases h : next x points' with _ | p
  · have hnil : points = [] := List.eq_nil_iff_forall_not_mem.2 fun q hq => by
      obtain ⟨q', hq', -⟩ := hold q hq
      rw [next_eq_none_iff.1 h] at hq'
      cases hq'
    exact .inr (next_eq_none_iff.2 hnil).symm
  · obtain ⟨hp, hfirst⟩ := noLater_of_next hs' h
    refine (hnew p hp).imp (fun hb => congrArg some hb) fun hmem => ?_
    refine ((next_eq_some_iff hs).2 ⟨hmem, fun q hq => ?_⟩).symm
    obtain ⟨q', hq', hpoint⟩ := hold q hq
    exact hpoint ▸ hfirst q' hq'

end KamaHttp.Ring
