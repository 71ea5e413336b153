import Mathlib.Data.Nat.Notation

/-!
# Sets of indices in words

A vector of 64-bit words holds a set of indices below its number of bits: index `i` is bit
`i & 63` of word `i >> 6`.

* `contains_insert`: inserting an index adds this index and no other.
-/

namespace KamaHttp

/-- A set of indices below `64 * n`, one bit for each. -/
abbrev BitSet (n : ℕ) := Vector (BitVec 64) n

namespace BitSet

variable {n : ℕ}

/-- The word of an index. -/
def word (i : Fin (64 * n)) : Fin n :=
  ⟨i.val >>> 6, by
    have := i.isLt
    rw [Nat.shiftRight_eq_div_pow]
    omega⟩

/-- The bit of an index in its word. -/
def bit (i : Fin (64 * n)) : ℕ := i.val &&& 63

def empty (n : ℕ) : BitSet n := Vector.replicate n 0

def insert (s : BitSet n) (i : Fin (64 * n)) : BitSet n :=
  s.set (word i) (s.get (word i) ||| 1#64 <<< bit i) (word i).isLt

def contains (s : BitSet n) (i : Fin (64 * n)) : Bool :=
  (s.get (word i) >>> bit i) &&& 1#64 != 0

theorem bit_lt (i : Fin (64 * n)) : bit i < 64 :=
  Nat.lt_of_le_of_lt Nat.and_le_right (by decide)

/-- An index is its word and its bit. -/
theorem eq_iff_word_bit {i j : Fin (64 * n)} : i = j ↔ word i = word j ∧ bit i = bit j := by
  have hmod : ∀ k : ℕ, k &&& 63 = k % 64 := fun k => Nat.and_two_pow_sub_one_eq_mod k 6
  simp only [Fin.ext_iff, word, bit, Nat.shiftRight_eq_div_pow, hmod]
  omega

theorem and_one_ne_zero (w : BitVec 64) : (w &&& 1#64 != 0) = w.getLsbD 0 := by
  rw [BitVec.and_one_eq_setWidth_ofBool_getLsbD]
  cases w.getLsbD 0 <;> rfl

theorem contains_eq_getLsbD (s : BitSet n) (i : Fin (64 * n)) :
    s.contains i = (s.get (word i)).getLsbD (bit i) := by
  rw [contains, and_one_ne_zero, BitVec.getLsbD_ushiftRight, Nat.add_zero]

@[simp] theorem contains_empty (i : Fin (64 * n)) : (empty n).contains i = false := by
  simp [contains_eq_getLsbD, empty, Vector.get]

/-- **Inserting an index adds this index and no other.** -/
theorem contains_insert (s : BitSet n) (i j : Fin (64 * n)) :
    (s.insert i).contains j = (decide (i = j) || s.contains j) := by
  rw [contains_eq_getLsbD, contains_eq_getLsbD]
  by_cases hw : word i = word j
  · have hget : (s.insert i).get (word j) = s.get (word j) ||| 1#64 <<< bit i := by
      rw [← hw, insert]
      exact Vector.getElem_set_self _
    have hbit : (1#64 <<< bit i).getLsbD (bit j) = decide (bit i = bit j) := by
      have hj := bit_lt j
      simp only [BitVec.getLsbD_shiftLeft, BitVec.getLsbD_one]
      grind
    rw [hget, BitVec.getLsbD_or, hbit, Bool.or_comm]
    simp [eq_iff_word_bit, hw]
  · have hget : (s.insert i).get (word j) = s.get (word j) :=
      Vector.getElem_set_ne _ _ fun h => hw (Fin.ext h)
    have hij : i ≠ j := fun h => hw (congrArg word h)
    simp [hget, hij]

end BitSet

end KamaHttp
