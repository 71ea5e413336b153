import KamaHttp.Foundations.BitSet
import KamaHttp.Foundations.Bytes

/-!
# The Bloom filter

The filter in front of the store (`Bloom.h`): three hashes of a string, each the index of a bit.

* `mightContain_add_self`: a string that was added might be contained.
* `mightContain_add_of_mightContain`: adding a string takes none away.
* `mightContain_new`: a new filter contains nothing.
-/

namespace KamaHttp

/-- `Bloom`, with the number `m` of its bits; there is at least one, as an index is taken modulo
`m`. -/
structure Bloom where
  m : ℕ
  pos : 0 < m
  bits : BitSet ((m + 63) / 64)

namespace Bloom

/-- `Bloom(bits)`, with every bit zero. -/
def new (bits : ℕ) (h : 0 < bits) : Bloom := ⟨bits, h, .empty _⟩

/-- `h`: FNV-1a with a seed, on 64 bits. -/
def h (s : Bytes) (seed : BitVec 64) : BitVec 64 :=
  let hash := s.foldl (fun hash c => (hash ^^^ c.toBitVec.setWidth 64) * 1099511628211#64)
    (1469598103934665603#64 ^^^ seed)
  hash ^^^ (seed * 0x9e3779b97f4a7c15#64)

/-- The seeds of the three hashes. -/
def seeds : List (BitVec 64) := [0, 1, 2]

/-- The index `h(s, i) % m_`; it lies in one of the words. -/
def index (b : Bloom) (s : Bytes) (i : BitVec 64) : Fin (64 * ((b.m + 63) / 64)) :=
  ⟨(h s i).toNat % b.m, by
    have := Nat.mod_lt (h s i).toNat b.pos
    omega⟩

def add (b : Bloom) (s : Bytes) : Bloom :=
  { b with bits := seeds.foldl (fun bits i => bits.insert (b.index s i)) b.bits }

def mightContain (b : Bloom) (s : Bytes) : Bool :=
  seeds.all fun i => b.bits.contains (b.index s i)

variable {b : Bloom} {s t : Bytes}

/-- The bits of a filter after `add`: those it had and those of the string. -/
theorem contains_add (b : Bloom) (s : Bytes) (j : Fin (64 * ((b.m + 63) / 64))) :
    (b.add s).bits.contains j = (seeds.any (fun i => b.index s i = j) || b.bits.contains j) := by
  have hfold : ∀ (is : List (BitVec 64)) (bits : BitSet ((b.m + 63) / 64)),
      (is.foldl (fun bits i => bits.insert (b.index s i)) bits).contains j =
        (is.any (fun i => b.index s i = j) || bits.contains j) := by
    intro is
    induction is with
    | nil => simp
    | cons i is ih =>
      intro bits
      rw [List.foldl_cons, ih, BitSet.contains_insert, List.any_cons]
      exact Bool.or_left_comm _ _ _ |>.trans (Bool.or_assoc _ _ _).symm
  exact hfold seeds b.bits

theorem index_add (b : Bloom) (s t : Bytes) (i : BitVec 64) :
    (b.add s).index t i = b.index t i := rfl

/-- **A string that was added might be contained.** -/
@[simp] theorem mightContain_add_self (b : Bloom) (s : Bytes) : (b.add s).mightContain s := by
  rw [mightContain, List.all_eq_true]
  intro i hi
  rw [index_add, contains_add, Bool.or_eq_true, List.any_eq_true]
  exact .inl ⟨i, hi, by simp⟩

/-- **Adding a string takes none away.** -/
theorem mightContain_add_of_mightContain (ht : b.mightContain t) : (b.add s).mightContain t := by
  rw [mightContain, List.all_eq_true] at ht ⊢
  intro i hi
  rw [index_add, contains_add, Bool.or_eq_true]
  exact .inr (ht i hi)

/-- A new filter contains nothing. -/
@[simp] theorem mightContain_new (bits : ℕ) (h : 0 < bits) (s : Bytes) :
    (new bits h).mightContain s = false := by
  simp [mightContain, seeds, new]

example : ((new 64 (by decide)).add (bytes "a")).mightContain (bytes "b") = false := by
  decide +kernel

end Bloom

end KamaHttp
