import KamaHttp.App.Bloom

/-!
# The size of the Bloom filter

`Bloom.h` on numbers of 64 bits: the number of words is computed in `size_t`, where it can wrap, and
the words stand in a vector that is indexed without a check.

* `represents_add`, `Represents.mightContain`: where the number of words does not wrap, this is the
  filter of `Bloom`.
* `noFalseNegatives_iff`: the sizes for which the filter works.
-/

namespace KamaHttp

/-- `Bloom`, with the members as they are declared. An access beyond the end of the vector has no
result. -/
structure BloomWords where
  bits : List (BitVec 64)
  m : BitVec 64

namespace BloomWords

open Bloom

/-- `Bloom(bits)`. -/
def new (bits : BitVec 64) : BloomWords := ⟨List.replicate ((bits + 63) / 64).toNat 0, bits⟩

/-- The index of the word that has a bit. -/
def word (i : BitVec 64) : ℕ := (i >>> 6).toNat

def set (b : BloomWords) (i : BitVec 64) : Option BloomWords :=
  b.bits[word i]?.map fun w => { b with bits := b.bits.set (word i) (w ||| 1#64 <<< (i &&& 63)) }

def get (b : BloomWords) (i : BitVec 64) : Option Bool :=
  b.bits[word i]?.map fun w => (w >>> (i &&& 63)) &&& 1 != 0

def add (b : BloomWords) (s : Bytes) : Option BloomWords :=
  seeds.foldlM (fun b seed => b.set (h s seed % b.m)) b

/-- The loop of `mightContain`, which leaves at the first bit that is not set. -/
def allSet (b : BloomWords) (s : Bytes) : List (BitVec 64) → Option Bool
  | [] => some true
  | seed :: rest =>
    match b.get (h s seed % b.m) with
    | some true => allSet b s rest
    | some false => some false
    | none => none

def mightContain (b : BloomWords) (s : Bytes) : Option Bool := b.allSet s seeds

/-- The strings are added, one after the other. -/
def addAll (b : BloomWords) (ss : List Bytes) : Option BloomWords := ss.foldlM add b

/-! ## Words that are there -/

/-- The words of a filter. -/
structure Represents (v : BloomWords) (b : Bloom) : Prop where
  m : v.m.toNat = b.m
  bits : v.bits = b.bits.toList

variable {v : BloomWords} {b : Bloom}

theorem word_of_toNat {n : ℕ} {x : BitVec 64} {i : Fin (64 * n)} (hx : x.toNat = i.val) :
    word x = (BitSet.word i).val := by
  rw [word, BitVec.toNat_ushiftRight, hx]
  rfl

theorem toNat_and_63 {n : ℕ} {x : BitVec 64} {i : Fin (64 * n)} (hx : x.toNat = i.val) :
    (x &&& 63).toNat = BitSet.bit i := by
  rw [BitVec.toNat_and, hx]
  rfl

theorem Represents.getElem? (hv : Represents v b) {x : BitVec 64}
    {i : Fin (64 * ((b.m + 63) / 64))} (hx : x.toNat = i.val) :
    v.bits[word x]? = some (b.bits.get (BitSet.word i)) := by
  rw [hv.bits, word_of_toNat hx, Vector.getElem?_toList]
  exact Vector.getElem?_eq_getElem _

theorem Represents.get (hv : Represents v b) {x : BitVec 64}
    {i : Fin (64 * ((b.m + 63) / 64))} (hx : x.toNat = i.val) :
    v.get x = some (b.bits.contains i) := by
  rw [BloomWords.get, hv.getElem? hx, Option.map_some, BitVec.ushiftRight_eq', toNat_and_63 hx]
  rfl

theorem Represents.set (hv : Represents v b) {x : BitVec 64}
    {i : Fin (64 * ((b.m + 63) / 64))} (hx : x.toNat = i.val) :
    ∃ v', v.set x = some v' ∧ Represents v' { b with bits := b.bits.insert i } := by
  rw [BloomWords.set, hv.getElem? hx]
  refine ⟨_, rfl, hv.m, ?_⟩
  rw [word_of_toNat hx, BitVec.shiftLeft_eq', toNat_and_63 hx, hv.bits]
  exact (Vector.toList_set (BitSet.word i).isLt).symm

theorem Represents.toNat_index (hv : Represents v b) (s : Bytes) (seed : BitVec 64) :
    (h s seed % v.m).toNat = (b.index s seed).val := by
  rw [BitVec.toNat_umod, hv.m]
  rfl

/-- **Adding a string**, where the words are there. -/
theorem represents_add (hv : Represents v b) (s : Bytes) :
    ∃ v', v.add s = some v' ∧ Represents v' (b.add s) := by
  have hfold : ∀ (is : List (BitVec 64)) {v : BloomWords} {bits : BitSet ((b.m + 63) / 64)},
      Represents v { b with bits := bits } →
      ∃ v', is.foldlM (fun v seed => v.set (h s seed % v.m)) v = some v' ∧
        Represents v'
          { b with bits := is.foldl (fun bits i => bits.insert (b.index s i)) bits } := by
    intro is
    induction is with
    | nil => exact fun hv => ⟨_, rfl, hv⟩
    | cons seed is ih =>
      intro v bits hv
      obtain ⟨v₁, hset, hv₁⟩ := hv.set (hv.toNat_index s seed)
      obtain ⟨v', hrest, hv'⟩ := ih hv₁
      refine ⟨v', ?_, hv'⟩
      rw [List.foldlM_cons, hset]
      exact hrest
  exact hfold seeds hv

theorem Represents.mightContain (hv : Represents v b) (s : Bytes) :
    v.mightContain s = some (b.mightContain s) := by
  have hall : ∀ is : List (BitVec 64),
      v.allSet s is = some (is.all fun i => b.bits.contains (b.index s i)) := by
    intro is
    induction is with
    | nil => rfl
    | cons seed is ih =>
      rw [allSet, hv.get (hv.toNat_index s seed), List.all_cons, ih]
      cases b.bits.contains (b.index s seed) <;> rfl
  exact hall seeds

/-- The words that a size asks for are there, if their number does not wrap. -/
theorem represents_new {m : BitVec 64} (hm : 0 < m.toNat) (hwrap : m.toNat + 63 < 2 ^ 64) :
    Represents (new m) (Bloom.new m.toNat hm) where
  m := rfl
  bits := by
    have hwords : ((m + 63) / 64).toNat = (m.toNat + 63) / 64 := by
      rw [BitVec.toNat_udiv, BitVec.toNat_add_of_lt hwrap]
      rfl
    rw [new, hwords]
    exact (Vector.toList_replicate ..).symm

/-- Any strings can be added. -/
theorem Represents.addAll (hv : Represents v b) (ss : List Bytes) :
    ∃ v', v.addAll ss = some v' ∧ Represents v' (ss.foldl Bloom.add b) := by
  induction ss generalizing v b with
  | nil => exact ⟨v, rfl, hv⟩
  | cons s ss ih =>
    obtain ⟨v₁, hadd, hv₁⟩ := represents_add hv s
    obtain ⟨v', hrest, hv'⟩ := ih hv₁
    refine ⟨v', ?_, hv'⟩
    rw [BloomWords.addAll, List.foldlM_cons, hadd]
    exact hrest

/-! ## The sizes -/

/-- A filter with this many bits works: whatever strings are added, each word that is accessed is
there, each string that was added might be contained, and adding a string clears no bit. -/
def NoFalseNegatives (m : BitVec 64) : Prop :=
  ∀ ss : List Bytes, ∃ b, (new m).addAll ss = some b ∧
    (∀ s, ∀ seed ∈ seeds, word (h s seed % b.m) < b.bits.length) ∧
    (∀ s ∈ ss, b.mightContain s = some true) ∧
    ∀ s, ∃ b', b.add s = some b' ∧ ∀ i, b.get i = some true → b'.get i = some true

/-- What was added might be contained in every later filter. -/
theorem mightContain_foldl_add {ss : List Bytes} {s : Bytes} (hs : s ∈ ss) (b : Bloom) :
    (ss.foldl Bloom.add b).mightContain s := by
  induction ss using List.reverseRecOn with
  | nil => cases hs
  | append_singleton ss t ih =>
    rw [List.foldl_concat]
    rcases List.mem_append.1 hs with hs | hs
    · exact mightContain_add_of_mightContain (ih hs)
    · obtain rfl := List.mem_singleton.1 hs
      exact mightContain_add_self _ s

/-- Adding a string clears no bit. -/
theorem Represents.get_of_add {v' : BloomWords} (hv : Represents v b) {s : Bytes}
    (hv' : Represents v' (b.add s)) {x : BitVec 64} (hx : v.get x = some true) :
    v'.get x = some true := by
  obtain ⟨w, hw, -⟩ := Option.map_eq_some_iff.1 hx
  have hlt : word x < v.bits.length := (List.getElem?_eq_some_iff.1 hw).1
  have hindex : x.toNat < 64 * ((b.m + 63) / 64) := by
    rw [hv.bits, Vector.length_toList, word, BitVec.toNat_ushiftRight,
      Nat.shiftRight_eq_div_pow] at hlt
    omega
  have hbit : b.bits.contains ⟨x.toNat, hindex⟩ = true :=
    Option.some.inj ((hv.get rfl).symm.trans hx)
  have hbit' : (b.add s).bits.contains
      (⟨x.toNat, hindex⟩ : Fin (64 * ((b.m + 63) / 64))) = true := by
    rw [contains_add, hbit, Bool.or_true]
  exact (hv'.get rfl).trans (congrArg some hbit')

/-- **The sizes for which the filter works** are those whose number of words does not wrap. -/
theorem noFalseNegatives_iff {m : BitVec 64} (hm : 0 < m.toNat) :
    NoFalseNegatives m ↔ m.toNat + 63 < 2 ^ 64 := by
  constructor
  · intro hworks
    by_contra hwrap
    obtain ⟨b, hb, hwords, -⟩ := hworks []
    obtain rfl : new m = b := Option.some.inj hb
    have hnone : (new m).bits.length = 0 := by
      have hsmall : (m + 63).toNat < 64 := by
        rw [BitVec.toNat_add]
        have hlt := m.isLt
        have h63 : (63 : BitVec 64).toNat = 63 := rfl
        omega
      rw [new, List.length_replicate, BitVec.toNat_udiv]
      exact Nat.div_eq_of_lt hsmall
    have hzero := hwords [] 0 (by simp [seeds])
    rw [hnone] at hzero
    exact Nat.not_lt_zero _ hzero
  · intro hwrap ss
    obtain ⟨v, hadd, hv⟩ := (represents_new hm hwrap).addAll ss
    refine ⟨v, hadd, fun s seed _ => ?_, fun s hs => ?_, fun s => ?_⟩
    · rw [word_of_toNat (hv.toNat_index s seed), hv.bits, Vector.length_toList]
      exact (BitSet.word _).isLt
    · rw [hv.mightContain, mightContain_foldl_add hs]
    · obtain ⟨v', hadd', hv'⟩ := represents_add hv s
      exact ⟨v', hadd', fun _ => hv.get_of_add hv'⟩

theorem noFalseNegatives_iff_64 :
    NoFalseNegatives 64 ↔ (64 : BitVec 64).toNat + 63 < 2 ^ 64 :=
  noFalseNegatives_iff (by decide)

/-- With as many bits as `size_t` can count there is no word, and adding a string has no result. -/
theorem not_noFalseNegatives_max :
    (new (BitVec.allOnes 64)).bits = [] ∧ (new (BitVec.allOnes 64)).add (bytes "a") = none ∧
      ¬ NoFalseNegatives (BitVec.allOnes 64) := by
  refine ⟨rfl, by decide +kernel, fun h => ?_⟩
  obtain ⟨b, hadd, -⟩ := h [bytes "a"]
  have hnone : (new (BitVec.allOnes 64)).addAll [bytes "a"] = none := by decide +kernel
  rw [hnone] at hadd
  cases hadd

end BloomWords

end KamaHttp
