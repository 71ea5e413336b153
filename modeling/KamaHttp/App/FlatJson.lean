import KamaHttp.App.TtlRange
import KamaHttp.Foundations.Json
import Mathlib.Data.Bool.AllAny

/-!
# Flat objects in the body of a shorten request

`parseJson` does not read the syntax of JSON, but looks for `"url"` and `"ttl"` wherever they stand,
and for what follows the next colon.

* `urlText_text`, `ttlDigits_text`: what it finds in the pieces of a flat object.
* `cut_of_finds`: where the value of a member is found, or that there is no such member.
* `parseJson_of_finds`: when `parseJson` reads a flat object.
-/

namespace KamaHttp

open Search Json

/-! ## What is found in the pieces -/

/-- The digits at the beginning of a text, behind white space. -/
def leadingDigits (text : Bytes) : Bytes := (text.dropWhile isspace).takeWhile isdigit

theorem leadingDigits_append (u v : Bytes) : leadingDigits (u ++ 34 :: v) = leadingDigits u := by
  induction u with
  | nil => rfl
  | cons b u ih =>
    by_cases hspace : isspace b
    · simpa [leadingDigits, hspace] using ih
    · simp only [leadingDigits, List.cons_append, List.dropWhile_cons, hspace, if_false,
        Bool.false_eq_true] at ih ⊢
      rw [← List.cons_append, List.takeWhile_append]
      split
      · rename_i hlength
        rw [(List.takeWhile_prefix _).eq_of_length hlength]
        exact List.append_nil _
      · rfl

theorem leadingDigits_intercalate (ps : List Bytes) :
    leadingDigits ([34].intercalate ps) = leadingDigits (ps.headD []) := by
  rcases ps with _ | ⟨p, _ | ⟨q, ps⟩⟩
  · rfl
  · rw [List.intercalate_singleton]
    rfl
  · rw [List.intercalate_cons_cons, List.append_assoc]
    exact leadingDigits_append _ _

section Pieces

variable {p : Bytes} {ps : List Bytes}

theorem urlText_intercalate (hp : 34 ∉ p) (hps : ∀ q ∈ ps, 34 ∉ q) :
    urlText ([34].intercalate (p :: ps)) =
      ((behind (bytes "url") ps).bind (cut 58)).bind second := by
  have hkey : bytes "\"url\"" = 34 :: (bytes "url" ++ [34]) := rfl
  rw [urlText, hkey, past_enclosed (by decide) hp hps]
  rcases hbehind : behind (bytes "url") ps with _ | qs
  · rfl
  have hqs : ∀ q ∈ qs, 34 ∉ q := fun q hq => hps q ((suffix_of_behind hbehind).subset hq)
  rw [Option.map_some, Option.bind_some, Option.bind_some, past_intercalate (by decide)]
  rcases hcut : cut 58 qs with _ | rs
  · rfl
  · exact second_intercalate (not_mem_of_cut hqs hcut)

theorem ttlDigits_intercalate (hp : 34 ∉ p) (hps : ∀ q ∈ ps, 34 ∉ q) :
    ttlDigits ([34].intercalate (p :: ps)) =
      (((behind (bytes "ttl") ps).bind (cut 58)).map fun rs => leadingDigits (rs.headD [])).getD
        [] := by
  have hkey : bytes "\"ttl\"" = 34 :: (bytes "ttl" ++ [34]) := rfl
  rw [ttlDigits, hkey, past_enclosed (by decide) hp hps]
  rcases behind (bytes "ttl") ps with _ | qs
  · rfl
  rw [Option.map_some, Option.bind_some, Option.bind_some, past_intercalate (by decide),
    Option.map_map]
  exact congrArg (Option.getD · []) (Option.map_congr fun rs _ => leadingDigits_intercalate rs)

end Pieces

/-- The loop over the digits computes their number, modulo the range of `int`. -/
theorem accumulate_eq {ds : Bytes} (h : ∀ d ∈ ds, isdigit d) :
    accumulate ds = toInt32 (digitsVal ds) := by
  induction ds using List.reverseRecOn with
  | nil => rfl
  | append_singleton ds d ih =>
    have hlo := (toNat_of_isdigit (h d (by simp))).1
    rw [accumulate_concat, digitsVal_concat, ih fun x hx => h x (by simp [hx])]
    unfold toInt32
    omega

/-! ## What is found in an object -/

namespace Json.FlatObject

variable (o : FlatObject)

theorem mem_close : 125 ∈ o.close := by simp [close]

theorem not_mem_close : 34 ∉ o.close := by
  simp [close, o.spaces.2.1.not_mem (c := 34) (by decide),
    o.spaces.2.2.not_mem (c := 34) (by decide)]

theorem not_mem_opening : 34 ∉ o.lead ++ 123 :: opening o.close o.members := by
  have hopening : 34 ∉ opening o.close o.members := by
    cases o.members with
    | nil => exact o.not_mem_close
    | cons m ms => exact m.spaces.1.not_mem (by decide)
  simp [hopening, o.spaces.1.not_mem (c := 34) (by decide)]

theorem urlText_text :
    urlText o.text =
      ((behind (bytes "url") (pieces o.close o.members)).bind (cut 58)).bind second := by
  rw [text_eq_intercalate, urlText_intercalate o.not_mem_opening (not_mem_pieces o.not_mem_close _)]

theorem ttlDigits_text :
    ttlDigits o.text = (((behind (bytes "ttl") (pieces o.close o.members)).bind (cut 58)).map
      fun rs => leadingDigits (rs.headD [])).getD [] := by
  rw [text_eq_intercalate,
    ttlDigits_intercalate o.not_mem_opening (not_mem_pieces o.not_mem_close _)]

/-- What the object says: the string of its member `url`, if it has one, and the number of its
member `ttl`, zero if it has none. -/
structure Says (u : Option Bytes) (n : ℕ) : Prop where
  url : (o.find? (bytes "url")).map (·.value.string?) = u.map some
  ttl : ∀ m, o.find? (bytes "ttl") = some m → ∃ lit, m.value = .number lit ∧ lit.value = n
  ttl_absent : o.find? (bytes "ttl") = none → n = 0
  range : (n : ℤ) ≤ intMax

/-- A member stands first of those that have the key as their name or mention it. -/
structure First (key : Bytes) (front : List Member) (m : Member) (back : List Member) : Prop where
  members : o.members = front ++ m :: back
  front : ∀ x ∈ front, ¬ x.Mentions key
  mentions : m.Mentions key

/-- The member has the key as its name, without escapes, and none before it has. -/
def IsOwn (key : Bytes) (front : List Member) (m : Member) : Prop :=
  nameText m.name = key ∧ ∀ x ∈ front, ¬ x.IsNamed key

/-- The colon behind the first mention of the key is that of the member it names: the mention is its
name, or the value of the member in front of it. Or there is no such member, and no mention or no
colon behind it, as it is the value of the last member. -/
inductive Finds (key : Bytes) : Prop
  | own {front m back} (h : o.First key front m back) (hown : IsOwn key front m)
  | next {front x m back} (h : o.First key front x (m :: back)) (hname : key ∉ x.namePieces)
    (hown : IsOwn key (front ++ [x]) m)
  | absent (hmentions : ∀ x ∈ o.members, ¬ x.Mentions key)
    (hnamed : ∀ x ∈ o.members, ¬ x.IsNamed key)
  | last {front x} (h : o.First key front x []) (hname : key ∉ x.namePieces)
    (hnamed : ∀ x ∈ o.members, ¬ x.IsNamed key)

/-- The lifetime is found, and is written without a fraction and an exponent. -/
structure FindsTtl : Prop where
  finds : o.Finds (bytes "ttl")
  plain : ∀ m lit, o.find? (bytes "ttl") = some m → m.value = .number lit → lit.IsPlain

end Json.FlatObject

open FlatObject

section Found

variable {o : FlatObject} {key : Bytes} {m : Member} {front back : List Member}

/-- A name that is the key is one piece. -/
theorem namePieces_of_nameText (hkey : IsKey key) (h : nameText m.name = key) :
    m.namePieces = [key] := by
  obtain ⟨init, last, he, -⟩ := exists_namePieces_concat m.name
  have htext := intercalate_namePieces m.name
  rw [Member.namePieces, he]
  rw [he, h] at htext
  cases init with
  | nil => simpa using htext
  | cons p init =>
    have hquote : 34 ∈ key := by
      rw [← htext, intercalate_append (List.cons_ne_nil p init) (List.cons_ne_nil last [])]
      simp
    exact absurd hquote (hkey 34 (by decide))

theorem isNamed_of_nameText (hkey : IsKey key) (h : nameText m.name = key) : m.IsNamed key := by
  have hslash : (92 : Byte) ∉ nameText m.name := h ▸ hkey 92 (by decide)
  rw [Member.IsNamed, ← h]
  generalize m.name = name at hslash ⊢
  induction name with
  | nil => rfl
  | cons c cs ih =>
    rw [nameText, List.flatMap_cons, List.mem_append, not_or] at hslash
    cases c with
    | plain b hb => exact congrArg (b.toNat :: ·) (ih hslash.2)
    | escape b hb => exact absurd List.mem_cons_self hslash.1
    | unicode ds hds => exact absurd List.mem_cons_self hslash.1

/-- The member of an object that has the key as its name. -/
theorem find?_of_isOwn (hkey : IsKey key) (hmembers : o.members = front ++ m :: back)
    (h : IsOwn key front m) : o.find? key = some m := by
  rw [FlatObject.find?, List.find?_eq_some_iff_append]
  exact ⟨by simpa using isNamed_of_nameText hkey h.1, front, back, hmembers,
    fun x hx => by simpa using h.2 x hx⟩

theorem isKey_url : IsKey (bytes "url") := List.all_iff_forall_prop.1 rfl

theorem isKey_ttl : IsKey (bytes "ttl") := List.all_iff_forall_prop.1 rfl

/-- Behind the colon after its own name, the value of a member follows. -/
theorem cut_piecesBehind (hkey : IsKey key) (h : nameText m.name = key) :
    cut 58 (piecesBehind o.close key m back) =
      some (m.valuePieces (follow o.close back) ++ pieces o.close back) := by
  rw [piecesBehind, namePieces_of_nameText hkey h, if_pos (by simp), cut_tailPieces]

/-- Between the value of a member and the colon of the next one, whose name is the key, there is no
other colon. -/
theorem cut_piecesBehind_next (hkey : IsKey key) {x : Member} (hname : key ∉ x.namePieces)
    (h : nameText m.name = key) :
    cut 58 (piecesBehind o.close key x (m :: back)) =
      some (m.valuePieces (follow o.close back) ++ pieces o.close back) := by
  have hgap : 58 ∉ x.after ++ follow o.close (m :: back) := by
    simp [follow, x.spaces.2.2.2.not_mem (c := 58) (by decide),
      m.spaces.1.not_mem (c := 58) (by decide)]
  have hcolon : 58 ∉ key := hkey 58 (by decide)
  rw [piecesBehind, if_neg (by simpa using hname), pieces, namePieces_of_nameText hkey h,
    cut_cons_of_not_mem hgap, List.singleton_append, cut_cons_of_not_mem hcolon, cut_tailPieces]

/-- Behind the value of the last member there is no colon. -/
theorem cut_piecesBehind_last {x : Member} (hname : key ∉ x.namePieces) :
    cut 58 (piecesBehind o.close key x []) = none := by
  have hclose : 58 ∉ x.after ++ follow o.close [] := by
    simp [follow, close, x.spaces.2.2.2.not_mem (c := 58) (by decide),
      o.spaces.2.1.not_mem (c := 58) (by decide), o.spaces.2.2.not_mem (c := 58) (by decide)]
  rw [piecesBehind, if_neg (by simpa using hname), cut_cons_of_not_mem hclose]
  rfl

theorem find?_eq_none_of_not_named (h : ∀ x ∈ o.members, ¬ x.IsNamed key) : o.find? key = none :=
  List.find?_eq_none.2 fun x hx => by simpa using h x hx

theorem behind_of_first (hkey : IsKey key) (h : o.First key front m back) :
    behind key (pieces o.close o.members) = some (piecesBehind o.close key m back) := by
  rw [h.members, behind_pieces_of_mention hkey o.mem_close h.front h.mentions]

/-- **Where the value of a member is found**: behind the first colon behind the first mention. -/
theorem cut_of_finds (hkey : IsKey key) (h : o.Finds key) :
    (∃ m back, o.find? key = some m ∧
      (behind key (pieces o.close o.members)).bind (cut 58) =
        some (m.valuePieces (follow o.close back) ++ pieces o.close back)) ∨
    (o.find? key = none ∧ (behind key (pieces o.close o.members)).bind (cut 58) = none) := by
  cases h with
  | @own front m back hfirst hown =>
    refine .inl ⟨m, back, find?_of_isOwn hkey hfirst.members hown, ?_⟩
    rw [behind_of_first hkey hfirst]
    exact cut_piecesBehind hkey hown.1
  | @next front x m back hfirst hname hown =>
    have hmembers : o.members = (front ++ [x]) ++ m :: back := by
      rw [hfirst.members, List.append_assoc, List.singleton_append]
    refine .inl ⟨m, back, find?_of_isOwn hkey hmembers hown, ?_⟩
    rw [behind_of_first hkey hfirst]
    exact cut_piecesBehind_next hkey hname hown.1
  | absent hmentions hnamed =>
    refine .inr ⟨find?_eq_none_of_not_named hnamed, ?_⟩
    rw [behind_pieces_of_not hkey o.mem_close hmentions]
    rfl
  | @last front x hfirst hname hnamed =>
    refine .inr ⟨find?_eq_none_of_not_named hnamed, ?_⟩
    rw [behind_of_first hkey hfirst]
    exact cut_piecesBehind_last hname

theorem isspace_of_mem {ws : Bytes} (hws : IsSpace ws) : ∀ b ∈ ws, isspace b := fun b hb => by
  rcases hws b hb with rfl | rfl | rfl | rfl <;> decide

/-- Behind digits and something else, the number is read. -/
theorem leadingDigits_of_digits {ws ds rest : Bytes} (hws : IsSpace ws) (hne : ds ≠ [])
    (hds : ∀ d ∈ ds, isdigit d) (hrest : ∀ b, rest.head? = some b → isdigit b = false) :
    leadingDigits (ws ++ (ds ++ rest)) = ds := by
  have htail : rest.takeWhile isdigit = [] := by
    cases rest with
    | nil => rfl
    | cons b rest => rw [List.takeWhile_cons_of_neg (by simp [hrest b rfl])]
  obtain ⟨d, ds, rfl⟩ := List.exists_cons_of_ne_nil hne
  have hfirst : isspace d = false := isspace_of_isdigit (hds d List.mem_cons_self)
  rw [leadingDigits, List.dropWhile_append_of_pos (isspace_of_mem hws), List.cons_append,
    List.dropWhile_cons_of_neg (by simp [hfirst]), ← List.cons_append,
    List.takeWhile_append_of_pos hds, htail, List.append_nil]

/-- Behind a minus sign there are no digits. -/
theorem leadingDigits_of_minus {ws : Bytes} (hws : IsSpace ws) (rest : Bytes) :
    leadingDigits (ws ++ 45 :: rest) = [] := by
  rw [leadingDigits, List.dropWhile_append_of_pos (isspace_of_mem hws)]
  rfl

/-- What follows a member does not begin with a digit. -/
theorem isdigit_head?_follow (m : Member) (o : FlatObject) (back : List Member) :
    ∀ b, (m.after ++ follow o.close back).head? = some b → isdigit b = false := by
  have hspace : ∀ {ws : Bytes} {b : Byte} (rest : Bytes), IsSpace ws →
      (ws ++ rest).head? = some b → (rest.head? = some b → isdigit b = false) →
      isdigit b = false := fun {ws b} rest hws hb hrest => by
    cases ws with
    | nil => exact hrest hb
    | cons c ws =>
      obtain rfl := Option.some.inj hb
      rcases hws c List.mem_cons_self with rfl | rfl | rfl | rfl <;> decide
  refine fun b hb => hspace _ m.spaces.2.2.2 hb fun hb => ?_
  cases back with
  | nil =>
    refine hspace _ o.spaces.2.1 hb fun hb => ?_
    obtain rfl := Option.some.inj hb
    decide
  | cons m' back =>
    obtain rfl := Option.some.inj hb
    decide

/-- A plain number that is not negative, nor beyond the range of `int`, is read. -/
theorem toInt32_leadingDigits_number {lit : Number} {n : ℕ} (hplain : lit.IsPlain)
    (hvalue : lit.value = n) (hn : (n : ℤ) ≤ intMax) {ws rest : Bytes} (hws : IsSpace ws)
    (hrest : ∀ b, rest.head? = some b → isdigit b = false) :
    toInt32 (digitsVal (leadingDigits (ws ++ (lit.text ++ rest)))) = n := by
  obtain ⟨hfrac, hexp⟩ := hplain
  have htail : lit.tail = [] := by simp [Number.tail, hfrac, hexp]
  have hint : lit.value = (if lit.neg then -1 else 1) * digitsVal lit.int := by
    simp [Number.value, hfrac, hexp]
  rw [hint] at hvalue
  rw [Number.text, htail, List.append_nil]
  split at hvalue
  · rename_i hneg
    have hzero : n = 0 := by
      have hsum : (n : ℚ) + digitsVal lit.int = 0 := by rw [← hvalue]; ring
      have hnat : n + digitsVal lit.int = 0 := by exact_mod_cast hsum
      omega
    rw [if_pos hneg, List.singleton_append, List.cons_append, leadingDigits_of_minus hws, hzero]
    rfl
  · rename_i hneg
    have hval : digitsVal lit.int = n := by
      rw [one_mul] at hvalue
      exact_mod_cast hvalue
    have hrange : IsInt n := ⟨by simp only [intMin]; omega, hn⟩
    rw [if_neg hneg, List.nil_append,
      leadingDigits_of_digits hws lit.int_digits.1 lit.int_digits.2.1 hrest, hval,
      toInt32_of_isInt hrange]

/-- The URL that is found is that of the object. -/
theorem urlText_of_finds {u : Option Bytes} {n : ℕ} (hobject : o.Says u n)
    (hfinds : o.Finds (bytes "url")) : urlText o.text = u := by
  have hurl := hobject.url
  rw [urlText_text]
  rcases cut_of_finds isKey_url hfinds with ⟨m, back, hm, hcut⟩ | ⟨hnone, hbehind⟩
  · rw [hcut, Option.bind_some, Member.valuePieces]
    rw [hm, Option.map_some] at hurl
    cases hvalue : m.value with
    | string s hs =>
      rw [hvalue] at hurl
      cases u with
      | none => cases hurl
      | some s' => exact Option.some.inj hurl
    | number lit =>
      rw [hvalue] at hurl
      cases u with
      | none => cases hurl
      | some s' => cases Option.some.inj hurl
  · rw [hnone] at hurl
    rw [hbehind]
    cases u with
    | none => rfl
    | some s => cases hurl

/-- The lifetime that is found is that of the object. -/
theorem parseTtl_of_finds {u : Option Bytes} {n : ℕ} (hobject : o.Says u n)
    (hfinds : o.FindsTtl) : parseTtl o.text = n := by
  rw [parseTtl_eq, accumulate_eq fun d hd => isdigit_of_mem_ttlDigits hd, ttlDigits_text]
  rcases cut_of_finds isKey_ttl hfinds.finds with ⟨m, back, hm, hcut⟩ | ⟨hnone, hbehind⟩
  · obtain ⟨lit, hlit, hvalue⟩ := hobject.ttl m hm
    rw [hcut, Member.valuePieces, hlit]
    exact toInt32_leadingDigits_number (hfinds.plain m lit hm hlit) hvalue hobject.range
      m.spaces.2.2.1 (isdigit_head?_follow m o back)
  · rw [hbehind, hobject.ttl_absent hnone]
    rfl

/-- **When `parseJson` reads a flat object**: if it finds the URL and, if there is one, the
lifetime. -/
theorem parseJson_of_finds {u : Option Bytes} {n : ℕ} (hobject : o.Says u n)
    (hurl : o.Finds (bytes "url")) (httl : u ≠ none → o.FindsTtl) :
    parseJson o.text = u.map fun s => (s, (n : ℤ)) := by
  rw [parseJson_eq, urlText_of_finds hobject hurl]
  cases u with
  | none => rfl
  | some s => rw [Option.map_some, Option.map_some, parseTtl_of_finds hobject (httl (by simp))]

end Found

/-- A member without white space and escapes. -/
def bareMember (name : Bytes) (h : ∀ b ∈ name, IsPlain b) (value : Value) : Member :=
  ⟨[], name.attach.map fun b => .plain b.1 (h b.1 b.2), [], [], value, [], by simp [IsSpace]⟩

/-- The number 60. -/
def sixty : Number :=
  ⟨false, bytes "60", none, none, ⟨by decide, List.all_iff_forall_prop.1 rfl, by decide⟩,
    (fun _ h => nomatch h), (fun _ _ _ h => nomatch h)⟩

/-- A member with a string. -/
def stringMember (name value : Bytes) (h : ∀ b ∈ name ++ value, IsPlain b) : Member :=
  bareMember name (fun b hb => h b (List.mem_append_left _ hb))
    (.string value fun b hb => h b (List.mem_append_right _ hb))

def urlValue : Member := stringMember (bytes "a") (bytes "url") (List.all_iff_forall_prop.1 rfl)

def urlMember : Member :=
  stringMember (bytes "url") (bytes "http://a") (List.all_iff_forall_prop.1 rfl)

def ttlMember : Member := bareMember (bytes "ttl") (List.all_iff_forall_prop.1 rfl) (.number sixty)

def ttlValue : Member := stringMember (bytes "b") (bytes "ttl") (List.all_iff_forall_prop.1 rfl)

/-- A link for a minute, behind a member with the value `url` and before one with `ttl`. -/
def minuteObject : FlatObject :=
  ⟨[], [urlValue, urlMember, ttlMember, ttlValue], [], [], by simp [IsSpace]⟩

theorem says_minuteObject : minuteObject.Says (some (bytes "http://a")) 60 where
  url := by decide
  ttl m hm := by
    obtain rfl := Option.some.inj hm
    refine ⟨sixty, rfl, ?_⟩
    have hval : digitsVal (bytes "60") = 60 := by decide
    simp [Number.value, hval, sixty]
  ttl_absent h := absurd h (by decide)
  range := by decide

theorem finds_minuteObject : minuteObject.Finds (bytes "url") ∧ minuteObject.FindsTtl := by
  have hurl : minuteObject.First (bytes "url") [] urlValue [urlMember, ttlMember, ttlValue] :=
    ⟨rfl, by decide, by decide⟩
  have httl : minuteObject.First (bytes "ttl") [urlValue, urlMember] ttlMember [ttlValue] :=
    ⟨rfl, by decide, by decide⟩
  refine ⟨.next hurl (by decide) ⟨by decide, by decide⟩,
    .own httl ⟨by decide, by decide⟩, fun m lit hm hlit => ?_⟩
  obtain rfl := Option.some.inj hm
  obtain rfl := Value.number.inj hlit
  exact ⟨rfl, rfl⟩

theorem parseJson_of_finds_minuteObject :
    parseJson minuteObject.text = (some (bytes "http://a")).map fun s => (s, ((60 : ℕ) : ℤ)) :=
  parseJson_of_finds says_minuteObject finds_minuteObject.1 fun _ => finds_minuteObject.2

/-- An object with the value `url` before its URL. -/
def misreadObject : FlatObject :=
  ⟨[], [urlValue, stringMember (bytes "b") (bytes "c") (List.all_iff_forall_prop.1 rfl),
    stringMember (bytes "url") (bytes "d") (List.all_iff_forall_prop.1 rfl)], [], [],
    by simp [IsSpace]⟩

/-- The value behind the next colon is read. -/
theorem misread_object :
    (misreadObject.members.map fun m => nameText m.name).Nodup ∧
      misreadObject.Says (some (bytes "d")) 0 ∧
      parseJson misreadObject.text = some (bytes "c", 0) ∧
      parseJson misreadObject.text ≠ some (bytes "d", 0) := by
  refine ⟨by decide, ⟨by decide, fun m hm => ?_, fun _ => rfl, by decide⟩, by decide +kernel,
    by decide +kernel⟩
  exact absurd hm (by rw [show misreadObject.find? (bytes "ttl") = none by decide]; exact nofun)

end KamaHttp
