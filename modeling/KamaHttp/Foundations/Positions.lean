import KamaHttp.Foundations.Search

/-!
# Positions in a list

A loop over positions looks for an element from a position on (`find`) and takes out the elements
from a position on (`substr`), which fails where the position is beyond the end. It goes through the
list as the loop does that cuts off one part after the other (`breakOn`).

* `find_of_breakOn`, `find_eq_none_iff`: the position that is found is where the rest is cut.
* `substr_of_breakOn`, `drop_of_breakOn`: what stands before that position, and behind it.
-/

namespace KamaHttp.Search

variable {α : Type*} [DecidableEq α]

/-- The first position from `i` on where `d` stands. -/
def find (d : α) (l : List α) (i : ℕ) : Option ℕ := ((l.drop i).idxOf? d).map (i + ·)

omit [DecidableEq α] in
/-- The elements from position `i` on, at most `n` of them if a number is given. -/
def substr (l : List α) (i : ℕ) (n : Option ℕ) : Option (List α) :=
  if i ≤ l.length then some ((l.drop i).take (n.getD l.length)) else none

variable {d : α} {l u v : List α} {i : ℕ}

omit [DecidableEq α] in
theorem substr_to_end (hi : i ≤ l.length) : substr l i none = some (l.drop i) := by
  rw [substr, if_pos hi, Option.getD_none, List.take_of_length_le]
  rw [List.length_drop]
  exact Nat.sub_le _ _

theorem find_eq_none_iff : find d l i = none ↔ breakOn [d] (l.drop i) = none := by
  rw [find, Option.map_eq_none_iff, List.idxOf?_eq_none_iff, breakOn_singleton_none]

theorem find_of_breakOn (h : breakOn [d] (l.drop i) = some (u, v)) :
    find d l i = some (i + u.length) := by
  obtain ⟨hl, hu⟩ := breakOn_singleton_iff.1 h
  have hidx : (l.drop i).idxOf? d = some u.length := by
    rw [hl]
    refine List.idxOf?_eq_some_iff.2 ⟨by simp, by simp, fun j hj => ?_⟩
    rw [List.getElem_append_left hj]
    exact fun he => hu (he ▸ List.getElem_mem hj)
  rw [find, hidx, Option.map_some]

/-- A part that is cut off lies within the list. -/
theorem length_of_breakOn (h : breakOn [d] (l.drop i) = some (u, v)) :
    i + u.length < l.length := by
  have hlen := congrArg List.length (breakOn_singleton_iff.1 h).1
  rw [List.length_drop, List.length_append, List.length_cons] at hlen
  omega

theorem substr_of_breakOn (h : breakOn [d] (l.drop i) = some (u, v)) :
    substr l i (some u.length) = some u := by
  have hi : i ≤ l.length := by
    have := length_of_breakOn h
    omega
  rw [substr, if_pos hi, (breakOn_singleton_iff.1 h).1, Option.getD_some, List.take_left]

theorem drop_of_breakOn (h : breakOn [d] (l.drop i) = some (u, v)) :
    l.drop (i + u.length + 1) = v := by
  rw [Nat.add_assoc, ← List.drop_drop, (breakOn_singleton_iff.1 h).1, ← List.drop_drop,
    List.drop_left, List.drop_one, List.tail_cons]

end KamaHttp.Search
