import Mathlib.Data.List.DropRight
import Mathlib.Data.Nat.Digits.Lemmas
import Std.Data.ExtTreeMap
import KamaHttp.Foundations.Search

/-!
# Byte strings

The strings of the program are sequences of bytes. This module has the pieces of the C and C++
libraries that it applies to them: character classes, numerals in both directions (`stoi`, `atoi`,
`decimal`), bounded formatting (`snprintf`), maps from strings to strings and durations.

Characters are classified as in the C locale; a byte above 127 belongs to no class.
-/

namespace KamaHttp

open Search

abbrev Byte := UInt8

abbrev Bytes := List Byte

/-- The bytes of a literal of the source, all of them ASCII. -/
def bytes (s : String) : Bytes := s.toList.map fun c => UInt8.ofNat c.toNat

/-- Maps from strings to strings, with the keys in the order of `std::map`. -/
abbrev StringMap := Std.ExtTreeMap Bytes Bytes compare

instance : DecidableEq StringMap := inferInstance

/-- A map is what its pairs make of the empty map. -/
theorem insertMany_toList (m : StringMap) : (∅ : StringMap).insertMany m.toList = m := by
  refine Std.ExtTreeMap.ext_getElem? fun k => ?_
  rcases hk : m[k]? with _ | v
  · have hnot : (m.toList.map Prod.fst).contains k = false := by
      simp only [List.contains_eq_mem, decide_eq_false_iff_not, List.mem_map, not_exists, not_and]
      rintro ⟨k', v⟩ hmem rfl
      rw [Std.ExtTreeMap.mem_toList_iff_getElem?_eq_some, hk] at hmem
      cases hmem
    rw [Std.ExtTreeMap.getElem?_insertMany_list_of_contains_eq_false hnot]
    simp
  · exact Std.ExtTreeMap.getElem?_insertMany_list_of_mem (k := k) (by simp)
      Std.ExtTreeMap.distinct_keys_toList (Std.ExtTreeMap.mem_toList_iff_getElem?_eq_some.2 hk)

/-- The exceptions of the standard library, with the text `what()` returns. -/
inductive StdException
  | invalidArgument (what : Bytes)
  | outOfRange (what : Bytes)
  | runtimeError (what : Bytes)
  deriving DecidableEq

def StdException.what : StdException → Bytes
  | .invalidArgument w => w
  | .outOfRange w => w
  | .runtimeError w => w

/-- `std::chrono::seconds` as a duration of the clock, which counts nanoseconds. -/
def seconds (n : ℤ) : ℤ := n * 1000000000

/-! ## Characters -/

def isspace (b : Byte) : Bool := b == 32 || (9 ≤ b && b ≤ 13)

def isdigit (b : Byte) : Bool := 48 ≤ b && b ≤ 57

theorem isspace_of_isdigit {b : Byte} (h : isdigit b) : isspace b = false := by
  simp only [isdigit, Bool.and_eq_true, decide_eq_true_eq] at h
  simp only [isspace, Bool.or_eq_false_iff, beq_eq_false_iff_ne, Bool.and_eq_false_iff,
    decide_eq_false_iff_not]
  grind

/-- A character of the class `[A-Za-z0-9_-]`. -/
def isIdChar (b : Byte) : Bool :=
  (65 ≤ b && b ≤ 90) || (97 ≤ b && b ≤ 122) || isdigit b || b == 95 || b == 45

/-- The letter in lower case. -/
def toLower (b : Byte) : Byte := if 65 ≤ b ∧ b ≤ 90 then b + 32 else b

/-- Drop the white space at both ends. -/
def trim (v : Bytes) : Bytes := (v.dropWhile isspace).rdropWhile isspace

/-! ## Integers -/

def intMax : ℤ := 2147483647

def intMin : ℤ := -2147483648

/-- The value an `int` keeps of a result out of its range, where overflow wraps. -/
def toInt32 (z : ℤ) : ℤ := (z + 2 ^ 31) % 2 ^ 32 - 2 ^ 31

/-- The conversion of an integer to `uint64_t`. -/
def toUint64 (z : ℤ) : ℕ := (z % 2 ^ 64).toNat

theorem toUint64_of_nonneg {n : ℕ} (h : (n : ℤ) ≤ intMax) : toUint64 n = n := by
  simp only [toUint64, intMax] at *
  omega

/-- The value of a string of digits. -/
def digitsVal (ds : Bytes) : ℕ := ds.foldl (fun v d => 10 * v + (d.toNat - 48)) 0

/-- `strtol` in base ten: white space, an optional sign and as many digits as there are; nothing
when there is no digit. -/
def strtol (s : Bytes) : Option ℤ :=
  let signed : Bool × Bytes :=
    match s.dropWhile isspace with
    | 45 :: r => (true, r)
    | 43 :: r => (false, r)
    | r => (false, r)
  let ds := signed.2.takeWhile isdigit
  if ds = [] then none
  else some (if signed.1 then -(digitsVal ds : ℤ) else digitsVal ds)

/-- `std::stoi`. -/
def stoi (s : Bytes) : Except StdException ℤ :=
  match strtol s with
  | none => .error (.invalidArgument (bytes "stoi"))
  | some v => if intMin ≤ v ∧ v ≤ intMax then .ok v else .error (.outOfRange (bytes "stoi"))

/-- `std::atoi`; a string without a number counts as zero. -/
def atoi (s : Bytes) : ℤ := (strtol s).getD 0

/-- The value of digits behind a sign. -/
def signedVal (sign ds : Bytes) : ℤ := if sign = [45] then -(digitsVal ds : ℤ) else digitsVal ds

/-- The text as `strtol` reads it: white space, a sign, digits and what stands behind them. -/
structure StrtolText (s ws sign ds tail : Bytes) : Prop where
  text : s = ws ++ (sign ++ (ds ++ tail))
  space : ∀ b ∈ ws, isspace b
  sign_eq : sign = [] ∨ sign = [43] ∨ sign = [45]
  digits_ne_nil : ds ≠ []
  digits : ∀ d ∈ ds, isdigit d
  tail_head : ∀ b, tail.head? = some b → isdigit b = false

theorem StrtolText.strtol_eq {s ws sign ds tail : Bytes} (h : StrtolText s ws sign ds tail) :
    strtol s = some (signedVal sign ds) := by
  obtain ⟨rfl, hws, hsign, hne, hds, htail⟩ := h
  have htake : (ds ++ tail).takeWhile isdigit = ds := by
    rw [List.takeWhile_append_of_pos hds]
    cases tail with
    | nil => simp
    | cons b tail => simp [htail b rfl]
  obtain ⟨d, ds, rfl⟩ := List.exists_cons_of_ne_nil hne
  have hd : isdigit d := hds d List.mem_cons_self
  rw [List.cons_append] at htake
  rw [strtol, List.dropWhile_append_of_pos hws]
  rcases hsign with rfl | rfl | rfl
  · -- the first digit is no sign
    have h45 : d ≠ 45 := by rintro rfl; exact absurd hd (by decide)
    have h43 : d ≠ 43 := by rintro rfl; exact absurd hd (by decide)
    rw [List.nil_append, List.cons_append,
      List.dropWhile_cons_of_neg (by simp [isspace_of_isdigit hd])]
    split
    · rename_i he; exact absurd (List.cons.inj he).1 h45
    · rename_i he; exact absurd (List.cons.inj he).1 h43
    · simp [htake, signedVal]
  · rw [List.singleton_append, List.dropWhile_cons_of_neg (by decide), List.cons_append]
    simp [htake, signedVal]
  · rw [List.singleton_append, List.dropWhile_cons_of_neg (by decide), List.cons_append]
    simp [htake, signedVal]

theorem exists_strtolText {s : Bytes} {z : ℤ} (h : strtol s = some z) :
    ∃ ws sign ds tail, StrtolText s ws sign ds tail ∧ z = signedVal sign ds := by
  have hws : ∀ b ∈ s.takeWhile isspace, isspace b := fun b hb => List.mem_takeWhile_imp hb
  have hs := (List.takeWhile_append_dropWhile (p := isspace) (l := s)).symm
  rw [strtol] at h
  generalize s.dropWhile isspace = u at h hs
  generalize s.takeWhile isspace = ws at hws hs
  obtain ⟨sign, v, rfl, hsign, hne, hz⟩ : ∃ sign v, u = sign ++ v ∧
      (sign = [] ∨ sign = [43] ∨ sign = [45]) ∧ v.takeWhile isdigit ≠ [] ∧
      z = signedVal sign (v.takeWhile isdigit) := by
    split at h <;> obtain ⟨hne, hz⟩ := Option.ite_none_left_eq_some.1 h
    · exact ⟨[45], _, rfl, .inr (.inr rfl), hne, (Option.some.inj hz).symm⟩
    · exact ⟨[43], _, rfl, .inr (.inl rfl), hne, (Option.some.inj hz).symm⟩
    · exact ⟨[], _, rfl, .inl rfl, hne, (Option.some.inj hz).symm⟩
  refine ⟨ws, sign, v.takeWhile isdigit, v.dropWhile isdigit, ⟨?_, hws, hsign, hne, ?_, ?_⟩, hz⟩
  · rw [List.takeWhile_append_dropWhile]
    exact hs
  · exact fun d hd => List.mem_takeWhile_imp hd
  · intro b hb
    simpa [hb] using List.head?_dropWhile_not isdigit v

theorem strtol_of_digits {ds : Bytes} (hne : ds ≠ []) (h : ∀ d ∈ ds, isdigit d) :
    strtol ds = some (digitsVal ds : ℤ) := by
  have htext : StrtolText ds [] [] ds [] := ⟨by simp, by simp, .inl rfl, hne, h, by simp⟩
  exact htext.strtol_eq

theorem stoi_eq_ok_iff {s : Bytes} {z : ℤ} :
    stoi s = .ok z ↔ strtol s = some z ∧ intMin ≤ z ∧ z ≤ intMax := by
  rw [stoi]
  cases strtol s with
  | none => simp
  | some v =>
    dsimp only
    split <;> grind

theorem stoi_of_digits {ds : Bytes} (hne : ds ≠ []) (h : ∀ d ∈ ds, isdigit d)
    (hmax : (digitsVal ds : ℤ) ≤ intMax) : stoi ds = .ok (digitsVal ds : ℤ) := by
  have hmin : intMin ≤ (digitsVal ds : ℤ) := by unfold intMin; omega
  simp only [stoi, strtol_of_digits hne h, hmin, hmax, and_self, if_true]

@[simp] theorem stoi_nil : stoi [] = .error (.invalidArgument (bytes "stoi")) := rfl

/-- The decimal numeral of a number, as `std::to_string` and `%d` write it. -/
def decimal (z : ℤ) : Bytes :=
  let ds := (Nat.digits 10 z.natAbs).reverse.map fun d => UInt8.ofNat (48 + d)
  (if z < 0 then [45] else []) ++ (if ds = [] then [48] else ds)

/-- The digit of a number below ten. -/
theorem toNat_digit {d : ℕ} (h : d < 10) : (UInt8.ofNat (48 + d)).toNat = 48 + d := by
  rw [UInt8.toNat_ofNat']
  omega

theorem digitsVal_digits {l : List ℕ} (h : ∀ d ∈ l, d < 10) :
    digitsVal (l.reverse.map fun d => UInt8.ofNat (48 + d)) = Nat.ofDigits 10 l := by
  induction l with
  | nil => rfl
  | cons d l ih =>
    have hd := toNat_digit (h d List.mem_cons_self)
    have ih := ih fun d' hd' => h d' (List.mem_cons_of_mem d hd')
    rw [digitsVal] at ih ⊢
    rw [List.reverse_cons, List.map_append, List.foldl_append, ih, Nat.ofDigits_cons]
    simp only [List.map_cons, List.map_nil, List.foldl_cons, List.foldl_nil, hd]
    omega

/-- **The numeral of a number has its value**, and consists of digits. -/
theorem digitsVal_decimal (n : ℕ) :
    digitsVal (decimal n) = n ∧ decimal n ≠ [] ∧ ∀ b ∈ decimal n, isdigit b := by
  have hneg : ¬ (n : ℤ) < 0 := by omega
  have hlt : ∀ d ∈ Nat.digits 10 n, d < 10 := fun d hd => Nat.digits_lt_base (by decide) hd
  have hval := digitsVal_digits hlt
  rw [Nat.ofDigits_digits] at hval
  simp only [decimal, hneg, if_false, List.nil_append, Int.natAbs_natCast]
  split
  · rename_i hnil
    rw [hnil] at hval
    refine ⟨hval, by simp, fun b hb => ?_⟩
    obtain rfl := List.mem_singleton.1 hb
    rfl
  · rename_i hne
    refine ⟨hval, hne, fun b hb => ?_⟩
    obtain ⟨d, hd, rfl⟩ := List.mem_map.1 hb
    have hd' := hlt d (List.mem_reverse.1 hd)
    have hnat := toNat_digit hd'
    simp only [isdigit, Bool.and_eq_true, decide_eq_true_eq, UInt8.le_iff_toNat_le, hnat]
    exact ⟨Nat.le_add_right 48 d, by show 48 + d ≤ 57; omega⟩

theorem decimal_neg {n : ℕ} (h : 0 < n) : decimal (-(n : ℤ)) = 45 :: decimal n := by
  have hneg : -(n : ℤ) < 0 := by omega
  have hpos : ¬ (n : ℤ) < 0 := by omega
  simp only [decimal, if_pos hneg, if_neg hpos, Int.natAbs_neg, List.nil_append]
  rfl

/-- A numeral has the characters of its digits and of its sign. -/
theorem mem_decimal {z : ℤ} {b : Byte} (h : b ∈ decimal z) : isdigit b ∨ b = 45 := by
  obtain ⟨n, rfl | rfl⟩ := z.eq_nat_or_neg
  · exact .inl ((digitsVal_decimal n).2.2 b h)
  · rcases Nat.eq_zero_or_pos n with rfl | hn
    · exact .inl ((digitsVal_decimal 0).2.2 b h)
    · rw [decimal_neg hn] at h
      rcases List.mem_cons.1 h with rfl | h
      · exact .inr rfl
      · exact .inl ((digitsVal_decimal n).2.2 b h)

/-- A character that is neither a digit nor the sign is no part of a numeral. -/
theorem not_mem_decimal {b : Byte} (hb : ¬ isdigit b ∧ b ≠ 45) (z : ℤ) : b ∉ decimal z := fun h =>
  (mem_decimal h).elim hb.1 hb.2

/-- **A numeral is read as its number**, also with a sign. -/
theorem strtol_decimal (z : ℤ) : strtol (decimal z) = some z := by
  obtain ⟨n, hz⟩ := z.eq_nat_or_neg
  obtain ⟨hval, hne, hdigits⟩ := digitsVal_decimal n
  have hpos : strtol (decimal n) = some (n : ℤ) := by
    rw [strtol_of_digits hne hdigits, hval]
  rcases hz with rfl | rfl
  · exact hpos
  · rcases Nat.eq_zero_or_pos n with rfl | hn
    · exact hpos
    · have htext : StrtolText (45 :: decimal n) [] [45] (decimal n) [] :=
        ⟨by simp, by simp, .inr (.inr rfl), hne, hdigits, by simp⟩
      rw [decimal_neg hn, htext.strtol_eq, signedVal, if_pos rfl, hval]

/-- The numeral of an `int` has at most eleven characters. -/
theorem length_decimal_le {z : ℤ} (h : intMin ≤ z ∧ z ≤ intMax) : (decimal z).length ≤ 11 := by
  have hlt : z.natAbs < 10 ^ 10 := by
    simp only [intMin, intMax] at h
    omega
  have hdigits : (Nat.digits 10 z.natAbs).length ≤ 10 :=
    (Nat.digits_length_le_iff (by decide) _).2 hlt
  simp only [decimal, List.length_append]
  split <;> split <;> simp <;> omega

/-! ## C strings -/

/-- The string `c_str()` denotes where a C string is expected: up to the first null byte. -/
def cStr (s : Bytes) : Bytes := s.takeWhile (· != 0)

/-- What `snprintf` leaves in a buffer of `n` bytes for the formatted text `s`. -/
def snprintf (n : ℕ) (s : Bytes) : Bytes := s.take (n - 1)

theorem cStr_of_no_null {s : Bytes} (h : 0 ∉ s) : cStr s = s :=
  List.takeWhile_eq_self_iff.2 fun b hb => by
    simpa using fun he : b = 0 => h (he ▸ hb)

/-- A string is cut where it has a null byte. -/
theorem cStr_eq_self_iff {s : Bytes} : cStr s = s ↔ 0 ∉ s := by
  refine ⟨fun h h0 => ?_, cStr_of_no_null⟩
  have hall := List.takeWhile_eq_self_iff.1 h 0 h0
  exact absurd hall (by decide)

theorem mem_of_mem_cStr {s : Bytes} {b : Byte} (h : b ∈ cStr s) : b ∈ s :=
  List.takeWhile_subset _ h

theorem snprintf_of_fits {n : ℕ} {s : Bytes} (h : s.length < n) : snprintf n s = s :=
  List.take_of_length_le (by omega)

end KamaHttp
