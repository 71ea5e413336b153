import KamaHttp.Foundations.Bytes
import KamaHttp.Foundations.Pieces
import Mathlib.Algebra.Order.Ring.Rat

/-!
# Flat objects of JSON

Objects whose members are strings without escapes and numbers, with any white space, and the pieces
between the quotes of their text. The names of the members may have escapes, with quotes among them.

* `text_eq_intercalate`: the text of an object is made of its pieces.
* `behind_pieces_of_mention`, `behind_pieces_of_not`: the first member where a key stands between
  two quotes.
-/

namespace KamaHttp.Json

open Search

/-! ## The syntax -/

/-- White space. -/
def IsSpace (ws : Bytes) : Prop := ∀ b ∈ ws, b = 32 ∨ b = 9 ∨ b = 10 ∨ b = 13

/-- A character that stands for itself in a string. -/
def IsPlain (b : Byte) : Prop := 32 ≤ b ∧ b ≠ 34 ∧ b ≠ 92

instance (b : Byte) : Decidable (IsPlain b) := inferInstanceAs (Decidable (_ ∧ _))

def isHexDigit (b : Byte) : Bool := isdigit b || (65 ≤ b && b ≤ 70) || (97 ≤ b && b ≤ 102)

/-- The number that hexadecimal digits write. -/
def hexVal (ds : Bytes) : ℕ :=
  ds.foldl (fun v d => 16 * v +
    (if isdigit d then d.toNat - 48 else if d ≤ 70 then d.toNat - 55 else d.toNat - 87)) 0

/-- A character of a name. -/
inductive NameChar
  | plain (b : Byte) (h : IsPlain b)
  | escape (b : Byte) (h : b ∈ bytes "\"\\/bfnrt")
  | unicode (ds : Bytes) (h : ds.length = 4 ∧ ∀ d ∈ ds, isHexDigit d)

namespace NameChar

def text : NameChar → Bytes
  | plain b _ => [b]
  | escape b _ => [92, b]
  | unicode ds _ => 92 :: 117 :: ds

/-- The code of a character that is one of ASCII. -/
def code : NameChar → ℕ
  | plain b _ => b.toNat
  | escape b _ =>
    if b = 98 then 8 else if b = 102 then 12 else if b = 110 then 10 else if b = 114 then 13
    else if b = 116 then 9 else b.toNat
  | unicode ds _ => hexVal ds

end NameChar

/-- The text of a name, without the quotes around it. -/
def nameText (name : List NameChar) : Bytes := name.flatMap NameChar.text

/-- A number: its sign, its integer part, and perhaps the digits of a fraction and an exponent. -/
structure Number where
  neg : Bool
  int : Bytes
  frac : Option Bytes
  exp : Option (Byte × Bytes × Bytes)
  int_digits : int ≠ [] ∧ (∀ d ∈ int, isdigit d) ∧ (int.head? = some 48 → int = [48])
  frac_digits : ∀ ds, frac = some ds → ds ≠ [] ∧ ∀ d ∈ ds, isdigit d
  exp_digits : ∀ e sign ds, exp = some (e, sign, ds) →
    (e = 101 ∨ e = 69) ∧ (sign = [] ∨ sign = [43] ∨ sign = [45]) ∧ ds ≠ [] ∧ ∀ d ∈ ds, isdigit d

namespace Number

/-- What stands behind the integer part. -/
def tail (n : Number) : Bytes :=
  (n.frac.elim [] fun ds => 46 :: ds) ++ n.exp.elim [] fun e => e.1 :: (e.2.1 ++ e.2.2)

def text (n : Number) : Bytes := (if n.neg then [45] else []) ++ (n.int ++ n.tail)

/-- The number that is written. -/
def value (n : Number) : ℚ :=
  (if n.neg then -1 else 1) *
    (digitsVal n.int + n.frac.elim 0 fun ds => (digitsVal ds : ℚ) / 10 ^ ds.length) *
      (10 : ℚ) ^ n.exp.elim 0 fun e => signedVal e.2.1 e.2.2

/-- There is no fraction and no exponent. -/
def IsPlain (n : Number) : Prop := n.frac = none ∧ n.exp = none

end Number

inductive Value
  | string (s : Bytes) (h : ∀ b ∈ s, IsPlain b)
  | number (n : Number)

namespace Value

def text : Value → Bytes
  | string s _ => 34 :: (s ++ [34])
  | number n => n.text

def string? : Value → Option Bytes
  | string s _ => some s
  | number _ => none

def number? : Value → Option Number
  | string _ _ => none
  | number n => some n

end Value

/-- A member, with the white space around its parts. -/
structure Member where
  before : Bytes
  name : List NameChar
  beforeColon : Bytes
  afterColon : Bytes
  value : Value
  after : Bytes
  spaces : IsSpace before ∧ IsSpace beforeColon ∧ IsSpace afterColon ∧ IsSpace after

def Member.text (m : Member) : Bytes :=
  m.before ++ 34 :: (nameText m.name ++
    34 :: (m.beforeColon ++ 58 :: (m.afterColon ++ (m.value.text ++ m.after))))

/-- The name of the member is the key, of characters of ASCII. -/
def Member.IsNamed (m : Member) (key : Bytes) : Prop :=
  m.name.map NameChar.code = key.map UInt8.toNat

instance (m : Member) (key : Bytes) : Decidable (m.IsNamed key) :=
  inferInstanceAs (Decidable (_ = _))

/-- A flat object. -/
structure FlatObject where
  lead : Bytes
  members : List Member
  inner : Bytes
  trail : Bytes
  spaces : IsSpace lead ∧ IsSpace inner ∧ IsSpace trail

/-- The text from some members on. -/
def membersText (close : Bytes) : List Member → Bytes
  | [] => close
  | [m] => m.text ++ close
  | m :: ms => m.text ++ 44 :: membersText close ms

namespace FlatObject

/-- What stands behind the last member. -/
def close (o : FlatObject) : Bytes := o.inner ++ 125 :: o.trail

def text (o : FlatObject) : Bytes := o.lead ++ 123 :: membersText o.close o.members

/-- The first member with a name. -/
def find? (o : FlatObject) (key : Bytes) : Option Member := o.members.find? (·.IsNamed key)

end FlatObject

/-! ## The pieces -/

/-- The pieces of a name between the quotes in it: the first one, and the others. -/
def namePieces : List NameChar → Bytes × List Bytes
  | [] => ([], [])
  | c :: cs =>
    let (p, ps) := namePieces cs
    if c.text = [92, 34] then ([92], p :: ps) else (c.text ++ p, ps)

namespace Member

variable (m : Member)

/-- The pieces of the name. -/
def namePieces : List Bytes := (Json.namePieces m.name).1 :: (Json.namePieces m.name).2

/-- The pieces behind the name, up to what follows the member. -/
def tailPieces (follow : Bytes) : List Bytes :=
  match m.value with
  | .string s _ => [m.beforeColon ++ 58 :: m.afterColon, s, m.after ++ follow]
  | .number n => [m.beforeColon ++ 58 :: (m.afterColon ++ (n.text ++ (m.after ++ follow)))]

/-- The pieces behind the colon, up to what follows the member. -/
def valuePieces (follow : Bytes) : List Bytes :=
  match m.value with
  | .string s _ => [m.afterColon, s, m.after ++ follow]
  | .number n => [m.afterColon ++ (n.text ++ (m.after ++ follow))]

end Member

/-- What stands before the name of the first member. -/
def opening (close : Bytes) : List Member → Bytes
  | [] => close
  | m :: _ => m.before

/-- What stands between a member and the name of the next one. -/
def follow (close : Bytes) : List Member → Bytes
  | [] => close
  | m :: _ => 44 :: m.before

/-- The pieces of some members, from the first name on. -/
def pieces (close : Bytes) : List Member → List Bytes
  | [] => []
  | m :: ms => m.namePieces ++ (m.tailPieces (follow close ms) ++ pieces close ms)

variable {close : Bytes} {key : Bytes} {m : Member} {ms front back : List Member}

theorem intercalate_namePieces (name : List NameChar) :
    [34].intercalate ((namePieces name).1 :: (namePieces name).2) = nameText name := by
  induction name with
  | nil => rfl
  | cons c cs ih =>
    rw [nameText, List.flatMap_cons, ← nameText, ← ih, namePieces]
    dsimp only
    split
    · rename_i hc
      rw [hc, List.intercalate_cons_cons]
      simp
    · exact intercalate_append_cons _ _ _

theorem tailPieces_ne_nil (m : Member) (f : Bytes) : m.tailPieces f ≠ [] := by
  unfold Member.tailPieces
  split <;> exact List.cons_ne_nil _ _

theorem intercalate_tailPieces (m : Member) (u v : Bytes) (ps : List Bytes) :
    [34].intercalate (m.tailPieces (u ++ v) ++ ps) =
      m.beforeColon ++ 58 :: (m.afterColon ++ (m.value.text ++ (m.after ++
        (u ++ [34].intercalate (v :: ps))))) := by
  unfold Member.tailPieces
  split
  · rename_i s hs heq
    rw [heq, List.cons_append, List.cons_append, List.singleton_append,
      List.intercalate_cons_cons, List.intercalate_cons_cons, ← List.append_assoc m.after,
      intercalate_append_cons]
    simp [Value.text]
  · rename_i n heq
    have hassoc : m.beforeColon ++ 58 :: (m.afterColon ++ (n.text ++ (m.after ++ (u ++ v)))) =
        (m.beforeColon ++ 58 :: (m.afterColon ++ (n.text ++ (m.after ++ u)))) ++ v := by
      simp
    rw [heq, List.singleton_append, hassoc, intercalate_append_cons]
    simp [Value.text]

/-- The text of some members is made of their pieces. -/
theorem membersText_eq_intercalate (close : Bytes) (ms : List Member) :
    membersText close ms = [34].intercalate (opening close ms :: pieces close ms) := by
  induction ms with
  | nil => exact (List.intercalate_singleton).symm
  | cons m ms ih =>
    have hname : [34].intercalate m.namePieces = nameText m.name := intercalate_namePieces m.name
    have hne : m.tailPieces (follow close ms) ++ pieces close ms ≠ [] :=
      List.append_ne_nil_of_left_ne_nil (tailPieces_ne_nil m _) _
    have htail : [34].intercalate (m.tailPieces (follow close ms) ++ pieces close ms) =
        m.beforeColon ++ 58 :: (m.afterColon ++ (m.value.text ++ (m.after ++
          (match ms with
            | [] => close
            | m :: ms => 44 :: membersText close (m :: ms))))) := by
      cases ms with
      | nil =>
        refine (intercalate_tailPieces m [] close []).trans ?_
        rw [List.intercalate_singleton, List.nil_append]
      | cons m' ms =>
        refine (intercalate_tailPieces m [44] m'.before (pieces close (m' :: ms))).trans ?_
        dsimp only
        rw [ih, List.singleton_append, opening]
    rw [opening, pieces, List.intercalate_cons_of_ne_nil (by simp [Member.namePieces]),
      intercalate_append (show m.namePieces ≠ [] from List.cons_ne_nil _ _) hne, hname, htail]
    cases ms <;> simp [membersText, Member.text]

/-- The text of an object is made of its pieces. -/
theorem text_eq_intercalate (o : FlatObject) :
    o.text = [34].intercalate
      ((o.lead ++ 123 :: opening o.close o.members) :: pieces o.close o.members) := by
  have happend := intercalate_append_cons (c := (34 : Byte)) (o.lead ++ [123])
    (opening o.close o.members) (pieces o.close o.members)
  rw [List.append_assoc, List.append_assoc, List.singleton_append, List.singleton_append]
    at happend
  rw [happend, FlatObject.text, membersText_eq_intercalate]

/-! ## There are no quotes in the pieces -/

theorem IsSpace.not_mem {ws : Bytes} (h : IsSpace ws) {c : Byte}
    (hc : c ≠ 32 ∧ c ≠ 9 ∧ c ≠ 10 ∧ c ≠ 13) : c ∉ ws := fun hmem => by
  have := h c hmem
  grind

theorem not_mem_of_isdigit {ds : Bytes} (h : ∀ d ∈ ds, isdigit d) {c : Byte}
    (hc : isdigit c = false) : c ∉ ds := fun hmem => by
  have hdigit := h c hmem
  rw [hc] at hdigit
  cases hdigit

theorem Number.not_mem_text (n : Number) {c : Byte}
    (hc : isdigit c = false ∧ c ∉ bytes "+-.eE") : c ∉ n.text := by
  obtain ⟨hdigit, hc⟩ := hc
  have hint : c ∉ n.int := not_mem_of_isdigit n.int_digits.2.1 hdigit
  have hsign : c ∉ (if n.neg then [45] else []) := by
    split
    · exact fun h => hc (by rw [List.mem_singleton.1 h]; decide)
    · exact List.not_mem_nil
  have hfrac : c ∉ n.frac.elim [] fun ds => 46 :: ds := by
    cases hfrac : n.frac with
    | none => exact List.not_mem_nil
    | some ds =>
      simp only [Option.elim_some, List.mem_cons, not_or]
      exact ⟨fun h => hc (by rw [h]; decide),
        not_mem_of_isdigit (n.frac_digits ds hfrac).2 hdigit⟩
  have hexp : c ∉ n.exp.elim [] fun e => e.1 :: (e.2.1 ++ e.2.2) := by
    rcases hexp : n.exp with _ | ⟨e, sign, ds⟩
    · exact List.not_mem_nil
    · obtain ⟨he, hs, -, hds⟩ := n.exp_digits e sign ds hexp
      simp only [Option.elim_some, List.mem_cons, List.mem_append, not_or]
      refine ⟨fun h => hc ?_, fun h => hc ?_, not_mem_of_isdigit hds hdigit⟩
      · rcases he with rfl | rfl <;> rw [h] <;> decide
      · rcases hs with rfl | rfl | rfl
        · cases h
        · rw [List.mem_singleton.1 h]; decide
        · rw [List.mem_singleton.1 h]; decide
  simp only [Number.text, Number.tail, List.mem_append, not_or]
  exact ⟨hsign, hint, hfrac, hexp⟩

theorem NameChar.not_mem_text {c : NameChar} (h : c.text ≠ [92, 34]) : 34 ∉ c.text := by
  cases c with
  | plain b hb => simpa [NameChar.text] using Ne.symm hb.2.1
  | escape b hb => simpa [NameChar.text, eq_comm] using h
  | unicode ds hds =>
    have hhex : (34 : Byte) ∉ ds := fun hmem => absurd (hds.2 34 hmem) (by decide)
    simpa [NameChar.text] using hhex

theorem not_mem_namePieces (name : List NameChar) :
    ∀ p ∈ (namePieces name).1 :: (namePieces name).2, 34 ∉ p := by
  induction name with
  | nil => simp [namePieces]
  | cons c cs ih =>
    rw [namePieces]
    dsimp only
    split
    · have hslash : (34 : Byte) ∉ [92] := by decide
      exact List.forall_mem_cons.2 ⟨hslash, ih⟩
    · rename_i hc
      obtain ⟨hp, hps⟩ := List.forall_mem_cons.1 ih
      refine List.forall_mem_cons.2 ⟨fun h => ?_, hps⟩
      exact (List.mem_append.1 h).elim (NameChar.not_mem_text hc) hp

theorem not_mem_tailPieces (m : Member) {f : Bytes} (hf : 34 ∉ f) :
    ∀ p ∈ m.tailPieces f, 34 ∉ p := by
  obtain ⟨-, hbefore, hafter, hend⟩ := m.spaces
  have hws : ∀ {ws}, IsSpace ws → (34 : Byte) ∉ ws := fun h => h.not_mem (by decide)
  unfold Member.tailPieces
  split
  · rename_i s hs _
    have hstring : 34 ∉ s := fun h => (hs 34 h).2.1 rfl
    simp [hws hbefore, hws hafter, hws hend, hf, hstring]
  · rename_i n _
    simp [hws hbefore, hws hafter, hws hend, hf, n.not_mem_text (c := 34) (by decide)]

theorem not_mem_follow (hclose : 34 ∉ close) (ms : List Member) : 34 ∉ follow close ms := by
  cases ms with
  | nil => exact hclose
  | cons m ms => simpa [follow] using m.spaces.1.not_mem (c := 34) (by decide)

theorem not_mem_pieces (hclose : 34 ∉ close) (ms : List Member) :
    ∀ p ∈ pieces close ms, 34 ∉ p := by
  induction ms with
  | nil => exact fun p hp => nomatch hp
  | cons m ms ih =>
    rw [pieces]
    simp only [List.mem_append]
    rintro p (hp | hp | hp)
    · exact not_mem_namePieces m.name p hp
    · exact not_mem_tailPieces m (not_mem_follow hclose ms) p hp
    · exact ih p hp

/-- Behind the first colon behind the name stands the value. -/
theorem cut_tailPieces (m : Member) (f : Bytes) (ps : List Bytes) :
    cut 58 (m.tailPieces f ++ ps) = some (m.valuePieces f ++ ps) := by
  have hcolon : 58 ∉ m.beforeColon := m.spaces.2.1.not_mem (by decide)
  rw [Member.tailPieces, Member.valuePieces]
  cases m.value with
  | string s hs => exact cut_cons hcolon _ _
  | number n => exact cut_cons hcolon _ _

/-! ## The first member where a key stands between two quotes -/

/-- A key between two quotes stands in the text of the member: at the end of its name, or as its
value. -/
def Member.Mentions (m : Member) (key : Bytes) : Prop :=
  key ∈ m.namePieces ∨ m.value.string? = some key

instance (m : Member) (key : Bytes) : Decidable (m.Mentions key) :=
  inferInstanceAs (Decidable (_ ∨ _))

/-- The characters of the syntax are not in a key. -/
def IsKey (key : Bytes) : Prop := ∀ c ∈ bytes "\",:\x7d\\", c ∉ key

theorem exists_namePieces_concat (name : List NameChar) :
    ∃ init last, (namePieces name).1 :: (namePieces name).2 = init ++ [last] ∧
      ∀ p ∈ init, 92 ∈ p := by
  induction name with
  | nil => exact ⟨[], [], rfl, fun p hp => nomatch hp⟩
  | cons c cs ih =>
    obtain ⟨init, last, he, hinit⟩ := ih
    rw [namePieces]
    dsimp only
    split
    · exact ⟨[92] :: init, last, by rw [he]; rfl, List.forall_mem_cons.2 ⟨by decide, hinit⟩⟩
    · cases init with
      | nil =>
        obtain ⟨hp, hps⟩ := List.cons.inj he
        exact ⟨[], c.text ++ last, by rw [hp, hps]; rfl, hinit⟩
      | cons p init =>
        obtain ⟨hp, hps⟩ := List.cons.inj he
        obtain ⟨hmem, hinit⟩ := List.forall_mem_cons.1 hinit
        exact ⟨(c.text ++ p) :: init, last, by rw [hp, hps]; rfl,
          List.forall_mem_cons.2 ⟨List.mem_append_right _ hmem, hinit⟩⟩

/-- Behind a name that ends with the key. -/
theorem behind_of_mem_namePieces (hkey : IsKey key) (h : key ∈ m.namePieces) {ps : List Bytes}
    (hps : ps ≠ []) : behind key (m.namePieces ++ ps) = some ps := by
  obtain ⟨init, last, he, hinit⟩ := exists_namePieces_concat m.name
  have hnot : key ∉ init := fun hmem => hkey 92 (by decide) (hinit key hmem)
  rw [Member.namePieces, he] at h ⊢
  obtain rfl : key = last := by simpa [hnot] using h
  obtain ⟨q, qs, rfl⟩ := List.exists_cons_of_ne_nil hps
  rw [List.append_assoc, List.singleton_append, behind_append hnot, behind_self]

/-- In the pieces behind a name the key is the value, if it is there. -/
theorem mem_tailPieces {f : Bytes} (hkey : IsKey key) (hf : ∃ c ∈ f, c ∉ key)
    (h : key ∈ m.tailPieces f) : m.value.string? = some key := by
  obtain ⟨c, hc, hck⟩ := hf
  have hcolon : ∀ u v : Bytes, key ≠ u ++ 58 :: v := fun u v he =>
    hkey 58 (by decide) (by simp [he])
  have hgap : key ≠ m.after ++ f := fun he => hck (by simp [he, hc])
  unfold Member.tailPieces at h
  split at h
  · rename_i s hs heq
    obtain rfl : key = s := by simpa [hcolon, hgap] using h
    rw [heq]
    rfl
  · exact absurd (List.mem_singleton.1 h) (hcolon _ _)

/-- Behind a value that is the key. -/
theorem behind_of_string? {f : Bytes} (hkey : IsKey key) (hname : key ∉ m.namePieces)
    (h : m.value.string? = some key) (ps : List Bytes) :
    behind key (m.namePieces ++ (m.tailPieces f ++ ps)) = some ((m.after ++ f) :: ps) := by
  have hcolon : m.beforeColon ++ 58 :: m.afterColon ≠ key := fun he =>
    hkey 58 (by decide) (by simp [← he])
  unfold Member.tailPieces
  split
  · rename_i s hs heq
    rw [heq] at h
    obtain rfl : s = key := Option.some.inj h
    have hnot : s ∉ m.namePieces ++ [m.beforeColon ++ 58 :: m.afterColon] := by
      simp [hname, Ne.symm hcolon]
    have happend := behind_append hnot s ((m.after ++ f) :: ps)
    simp only [List.append_assoc, List.singleton_append] at happend
    exact happend.trans (behind_self _ _)
  · rename_i n heq
    rw [heq] at h
    cases h

theorem exists_mem_follow (hkey : IsKey key) (hclose : 125 ∈ close) (ms : List Member) :
    ∃ c ∈ follow close ms, c ∉ key := by
  cases ms with
  | nil => exact ⟨125, hclose, hkey 125 (by decide)⟩
  | cons m ms => exact ⟨44, List.mem_cons_self, hkey 44 (by decide)⟩

/-- A member that does not mention the key. -/
theorem not_mem_of_not_mentions {f : Bytes} (hkey : IsKey key) (hf : ∃ c ∈ f, c ∉ key)
    (h : ¬ m.Mentions key) : key ∉ m.namePieces ++ m.tailPieces f := fun hmem =>
  h ((List.mem_append.1 hmem).imp id (mem_tailPieces hkey hf))

theorem pieces_ne_nil (m : Member) (ms : List Member) : pieces close (m :: ms) ≠ [] := by
  simp [pieces, Member.namePieces]

/-- **No member mentions the key**: then there is nothing behind it. -/
theorem behind_pieces_of_not (hkey : IsKey key) (hclose : 125 ∈ close)
    (h : ∀ m ∈ ms, ¬ m.Mentions key) : behind key (pieces close ms) = none := by
  refine behind_of_not_mem ?_
  induction ms with
  | nil => exact List.not_mem_nil
  | cons m ms ih =>
    obtain ⟨hm, hms⟩ := List.forall_mem_cons.1 h
    rw [pieces, ← List.append_assoc, List.mem_append, not_or]
    exact ⟨not_mem_of_not_mentions hkey (exists_mem_follow hkey hclose ms) hm, ih hms⟩

/-- The pieces behind the first key, in a member that mentions it and those that follow. -/
def piecesBehind (close key : Bytes) (m : Member) (back : List Member) : List Bytes :=
  if m.namePieces.contains key then m.tailPieces (follow close back) ++ pieces close back
  else (m.after ++ follow close back) :: pieces close back

/-- **The first member that mentions the key**: behind it stands what follows there. -/
theorem behind_pieces_of_mention (hkey : IsKey key) (hclose : 125 ∈ close)
    (hfront : ∀ x ∈ front, ¬ x.Mentions key) (hm : m.Mentions key) :
    behind key (pieces close (front ++ m :: back)) = some (piecesBehind close key m back) := by
  induction front with
  | nil =>
    rw [List.nil_append, pieces, piecesBehind]
    split
    · rename_i hname
      exact behind_of_mem_namePieces hkey (List.contains_iff_mem.1 hname)
        (List.append_ne_nil_of_left_ne_nil (tailPieces_ne_nil m _) _)
    · rename_i hname
      rw [List.contains_iff_mem] at hname
      exact behind_of_string? hkey hname (hm.resolve_left hname) _
  | cons x front ih =>
    obtain ⟨hx, hfront⟩ := List.forall_mem_cons.1 hfront
    have hf := exists_mem_follow hkey hclose (front ++ m :: back)
    have hne : pieces close (front ++ m :: back) ≠ [] := by
      cases front <;> exact pieces_ne_nil _ _
    obtain ⟨q, qs, hq⟩ := List.exists_cons_of_ne_nil hne
    rw [← ih hfront, List.cons_append, pieces, ← List.append_assoc, hq,
      behind_append (not_mem_of_not_mentions hkey hf hx)]

end KamaHttp.Json
