import KamaHttp.Foundations.Bytes

/-!
# Regular expressions

Expressions with anchors, classes, groups and repetition over any alphabet, and the part of the
syntax of ECMAScript that writes them. An expression is matched with backtracking: `ways` lists the
ways in which it matches the beginning of a text, in the order in which they are tried.

* `mem_ways_seq`, `mem_ways_plus_noneOf`: the ways of an expression, by its parts.
* `head?_ways_plus_noneOf`: repetition is greedy.
* `parseFrom_char`: what is read of a text.
-/

namespace KamaHttp

/-- An expression. -/
inductive Regex (α : Type*)
  | empty
  | start
  | finish
  | char (a : α)
  | noneOf (as : List α)
  | seq (r s : Regex α)
  | group (r : Regex α)
  | plus (r : Regex α)

namespace Regex

variable {α : Type*} [DecidableEq α]

/-! ## Matching -/

/-- A repetition: as many times as the text allows, and then fewer. The groups are those of the last
time. -/
def repeated (step : List α → List (List α × List (List α))) :
    ℕ → List α → List (List α × List (List α))
  | 0, _ => []
  | n + 1, l =>
    (step l).flatMap fun w =>
      (if w.1.length < l.length then repeated step n w.1 else []) ++ [w]

/-- The ways to match the beginning of what is left of a text of the given size: what is left then,
and the texts of the groups. -/
def ways (size : ℕ) : Regex α → List α → List (List α × List (List α))
  | empty, l => [(l, [])]
  | start, l => if l.length = size then [(l, [])] else []
  | finish, l => if l = [] then [(l, [])] else []
  | char _, [] => []
  | char a, b :: l => if b = a then [(l, [])] else []
  | noneOf _, [] => []
  | noneOf as, b :: l => if b ∈ as then [] else [(l, [])]
  | seq r s, l =>
    (ways size r l).flatMap fun w => (ways size s w.1).map fun w' => (w'.1, w.2 ++ w'.2)
  | group r, l => (ways size r l).map fun w => (w.1, l.take (l.length - w.1.length) :: w.2)
  | plus r, l => repeated (ways size r) (l.length + 1) l

/-- `regex_match`: the texts of the groups, in the first way to match all of the text. -/
def fullMatch (r : Regex α) (text : List α) : Option (List (List α)) :=
  ((ways text.length r text).find? fun w => w.1 = []).map Prod.snd

/-- `replaceAll` on what is left of the text. -/
def replaceFrom (r : Regex α) (format : List α) (size : ℕ) : ℕ → List α → List α
  | 0, l => l
  | _ + 1, [] => []
  | n + 1, a :: l =>
    match (ways size r (a :: l)).head? with
    | some w =>
      if w.1.length < (a :: l).length then format ++ replaceFrom r format size n w.1
      else a :: replaceFrom r format size n l
    | none => a :: replaceFrom r format size n l

/-- `regex_replace`, for an expression that does not match the empty text, and a format without
references. -/
def replaceAll (r : Regex α) (format text : List α) : List α :=
  replaceFrom r format text.length text.length text

/-- The expressions one after the other. -/
def seqAll (rs : List (Regex α)) : Regex α := rs.foldr seq empty

variable {size n : ℕ} {r s : Regex α} {as l rest : List α} {gs : List (List α)}

omit [DecidableEq α] in
theorem repeated_succ (step : List α → List (List α × List (List α))) (n : ℕ) (l : List α) :
    repeated step (n + 1) l = (step l).flatMap fun w =>
      (if w.1.length < l.length then repeated step n w.1 else []) ++ [w] :=
  rfl

@[simp] theorem ways_empty (l : List α) : ways size empty l = [(l, [])] := rfl

theorem ways_start (l : List α) :
    ways size start l = if l.length = size then [(l, [])] else [] :=
  rfl

theorem ways_finish (l : List α) : ways size finish l = if l = [] then [(l, [])] else [] := rfl

@[simp] theorem ways_char_cons (a b : α) (l : List α) :
    ways size (char a) (b :: l) = if b = a then [(l, [])] else [] :=
  rfl

@[simp] theorem ways_char_nil (a : α) : ways size (char a) [] = [] := rfl

@[simp] theorem ways_noneOf_nil (as : List α) : ways size (noneOf as) [] = [] := rfl

theorem ways_noneOf_cons (as : List α) (b : α) (l : List α) :
    ways size (noneOf as) (b :: l) = if b ∈ as then [] else [(l, [])] :=
  rfl

@[simp] theorem ways_seq (r s : Regex α) (l : List α) :
    ways size (seq r s) l =
      (ways size r l).flatMap fun w => (ways size s w.1).map fun w' => (w'.1, w.2 ++ w'.2) :=
  rfl

@[simp] theorem ways_group (r : Regex α) (l : List α) :
    ways size (group r) l =
      (ways size r l).map fun w => (w.1, l.take (l.length - w.1.length) :: w.2) :=
  rfl

theorem ways_plus (r : Regex α) (l : List α) :
    ways size (plus r) l = repeated (ways size r) (l.length + 1) l :=
  rfl

@[simp] theorem mem_ways_empty :
    (rest, gs) ∈ ways size (empty : Regex α) l ↔ l = rest ∧ gs = [] := by
  simp [eq_comm]

@[simp] theorem mem_ways_finish :
    (rest, gs) ∈ ways size (finish : Regex α) l ↔ l = [] ∧ rest = [] ∧ gs = [] := by
  rw [ways_finish]
  split <;> simp_all

@[simp] theorem mem_ways_start :
    (rest, gs) ∈ ways size (start : Regex α) l ↔ l.length = size ∧ l = rest ∧ gs = [] := by
  rw [ways_start]
  split <;> simp_all [eq_comm]

@[simp] theorem mem_ways_char {a : α} :
    (rest, gs) ∈ ways size (char a) l ↔ l = a :: rest ∧ gs = [] := by
  cases l with
  | nil => simp
  | cons b l =>
    rw [ways_char_cons]
    split <;> simp_all [eq_comm]

theorem mem_ways_seq : (rest, gs) ∈ ways size (seq r s) l ↔
    ∃ mid g g', (mid, g) ∈ ways size r l ∧ (rest, g') ∈ ways size s mid ∧ gs = g ++ g' := by
  simp only [ways_seq, List.mem_flatMap, List.mem_map, Prod.exists, Prod.mk.injEq]
  constructor
  · rintro ⟨mid, g, hr, rest', g', hs, rfl, rfl⟩
    exact ⟨mid, g, g', hr, hs, rfl⟩
  · rintro ⟨mid, g, g', hr, hs, rfl⟩
    exact ⟨mid, g, hr, rest, g', hs, rfl, rfl⟩

theorem mem_ways_group : (rest, gs) ∈ ways size (group r) l ↔
    ∃ g, (rest, g) ∈ ways size r l ∧ gs = l.take (l.length - rest.length) :: g := by
  simp only [ways_group, List.mem_map, Prod.exists, Prod.mk.injEq]
  constructor
  · rintro ⟨rest', g, hr, rfl, rfl⟩
    exact ⟨g, hr, rfl⟩
  · rintro ⟨g, hr, rfl⟩
    exact ⟨rest, g, hr, rfl, rfl⟩

theorem mem_ways_seqAll_append (rs ss : List (Regex α)) :
    (rest, gs) ∈ ways size (seqAll (rs ++ ss)) l ↔
      ∃ mid g g', (mid, g) ∈ ways size (seqAll rs) l ∧ (rest, g') ∈ ways size (seqAll ss) mid ∧
        gs = g ++ g' := by
  induction rs generalizing l gs with
  | nil => simp [seqAll]
  | cons r rs ih =>
    change (rest, gs) ∈ ways size (seq r (seqAll (rs ++ ss))) l ↔
      ∃ mid g g', (mid, g) ∈ ways size (seq r (seqAll rs)) l ∧ _
    simp only [mem_ways_seq, ih]
    constructor
    · rintro ⟨mid, g, _, hr, ⟨mid', g', g'', hrs, hss, rfl⟩, rfl⟩
      exact ⟨mid', g ++ g', g'', ⟨mid, g, g', hr, hrs, rfl⟩, hss, (List.append_assoc ..).symm⟩
    · rintro ⟨mid', _, g'', ⟨mid, g, g', hr, hrs, rfl⟩, hss, rfl⟩
      exact ⟨mid, g, g' ++ g'', hr, ⟨mid', g', g'', hrs, hss, rfl⟩, List.append_assoc ..⟩

/-- A class that is repeated: what is matched has something, and nothing that is excluded. -/
theorem mem_repeated_noneOf (h : l.length < n) :
    (rest, gs) ∈ repeated (ways size (noneOf as)) n l ↔
      gs = [] ∧ ∃ u, u ≠ [] ∧ l = u ++ rest ∧ ∀ b ∈ u, b ∉ as := by
  induction n generalizing l with
  | zero => exact absurd h (Nat.not_lt_zero _)
  | succ n ih =>
    cases l with
    | nil =>
      rw [repeated_succ, ways_noneOf_nil]
      simp
    | cons b l =>
      rw [repeated_succ, ways_noneOf_cons]
      by_cases hb : b ∈ as
      · simp only [hb, if_true, List.flatMap_nil, List.not_mem_nil, false_iff, not_and, not_exists]
        rintro - (_ | ⟨c, u⟩) hne hl hu
        · exact hne rfl
        · obtain ⟨rfl, -⟩ := List.cons.inj hl
          exact hu b List.mem_cons_self hb
      · simp only [hb, if_false, List.flatMap_cons, List.flatMap_nil, List.length_cons,
          Nat.lt_succ_self, if_true, List.append_nil, List.mem_append, List.mem_singleton,
          Prod.mk.injEq, ih (Nat.lt_of_succ_lt_succ h)]
        constructor
        · rintro (⟨rfl, u, -, rfl, hu⟩ | ⟨rfl, rfl⟩)
          · refine ⟨rfl, b :: u, List.cons_ne_nil b u, rfl, fun c hc => ?_⟩
            rcases List.mem_cons.1 hc with rfl | hc
            · exact hb
            · exact hu c hc
          · exact ⟨rfl, [b], by simp, rfl, by simpa using hb⟩
        · rintro ⟨rfl, _ | ⟨c, u⟩, hne, hl, hu⟩
          · exact absurd rfl hne
          obtain ⟨rfl, rfl⟩ := List.cons.inj hl
          cases u with
          | nil => exact .inr ⟨rfl, rfl⟩
          | cons d u =>
            exact .inl ⟨rfl, d :: u, List.cons_ne_nil d u, rfl,
              fun x hx => hu x (List.mem_cons_of_mem b hx)⟩

theorem mem_ways_plus_noneOf :
    (rest, gs) ∈ ways size (plus (noneOf as)) l ↔
      gs = [] ∧ ∃ u, u ≠ [] ∧ l = u ++ rest ∧ ∀ b ∈ u, b ∉ as := by
  rw [ways_plus]
  exact mem_repeated_noneOf (Nat.lt_succ_self _)

/-- Nothing of the class matches where the text ends, or with a character that is excluded. -/
theorem ways_noneOf_of_head? (h : ∀ b, l.head? = some b → b ∈ as) :
    ways size (noneOf as) l = [] := by
  cases l with
  | nil => rfl
  | cons b l => rw [ways_noneOf_cons, if_pos (h b rfl)]

/-- **Repetition is greedy**: the first way takes as much as it can. -/
theorem head?_repeated_noneOf {u : List α} (hne : u ≠ []) (hu : ∀ b ∈ u, b ∉ as)
    (hrest : ∀ b, rest.head? = some b → b ∈ as) (h : (u ++ rest).length < n) :
    (repeated (ways size (noneOf as)) n (u ++ rest)).head? = some (rest, []) := by
  induction u generalizing n with
  | nil => exact absurd rfl hne
  | cons b u ih =>
    obtain ⟨n, rfl⟩ := Nat.exists_eq_succ_of_ne_zero (Nat.ne_zero_of_lt h)
    have hb : b ∉ as := hu b List.mem_cons_self
    have hstep : ways size (noneOf as) (b :: (u ++ rest)) = [(u ++ rest, [])] := by
      rw [ways_noneOf_cons, if_neg hb]
    simp only [List.cons_append, repeated_succ, hstep, List.flatMap_cons, List.flatMap_nil,
      List.length_cons, Nat.lt_succ_self, if_true, List.append_nil, List.head?_append]
    cases u with
    | nil =>
      cases n with
      | zero => rfl
      | succ n =>
        rw [List.nil_append, repeated_succ, ways_noneOf_of_head? hrest]
        rfl
    | cons c u =>
      rw [ih (List.cons_ne_nil c u) (fun x hx => hu x (List.mem_cons_of_mem b hx))
        (by simpa using h)]
      rfl

theorem head?_ways_plus_noneOf {u : List α} (hne : u ≠ []) (hu : ∀ b ∈ u, b ∉ as)
    (hrest : ∀ b, rest.head? = some b → b ∈ as) :
    (ways size (plus (noneOf as)) (u ++ rest)).head? = some (rest, []) := by
  rw [ways_plus]
  exact head?_repeated_noneOf hne hu hrest (Nat.lt_succ_self _)

/-- The groups of a match are those of a way to match all of the text. -/
theorem mem_ways_of_fullMatch {text : List α} (h : fullMatch r text = some gs) :
    ([], gs) ∈ ways text.length r text := by
  obtain ⟨⟨rest, _⟩, hw, rfl⟩ := Option.map_eq_some_iff.1 h
  obtain rfl : rest = [] := by simpa using List.find?_some hw
  exact List.mem_of_find?_eq_some hw

/-- If there is such a way, there is a match. -/
theorem exists_fullMatch_of_mem_ways {text : List α} (h : ([], gs) ∈ ways text.length r text) :
    ∃ gs, fullMatch r text = some gs := by
  refine Option.isSome_iff_exists.1 ?_
  rw [fullMatch, Option.isSome_map, List.find?_isSome]
  exact ⟨_, h, by simp⟩

/-! ## Replacing -/

/-- Where the expression does not match, a character stays. -/
theorem replaceFrom_of_nil {a : α} (format : List α) (h : ways size r (a :: l) = []) :
    replaceFrom r format size (n + 1) (a :: l) = a :: replaceFrom r format size n l := by
  rw [replaceFrom, h]
  rfl

/-- Where it matches something, that is replaced. -/
theorem replaceFrom_of_head? {a : α} (format : List α)
    (h : ((ways size r (a :: l)).head?).map Prod.fst = some rest)
    (hrest : rest.length < (a :: l).length) :
    replaceFrom r format size (n + 1) (a :: l) = format ++ replaceFrom r format size n rest := by
  obtain ⟨w, hw, rfl⟩ := Option.map_eq_some_iff.1 h
  rw [replaceFrom, hw]
  exact if_pos hrest

/-! ## The syntax -/

/-- The characters that do not stand for themselves. -/
def syntaxChars : Bytes := bytes "^$\\.*+?()[]\x7b\x7d|"

/-- A part that was read, repeated; anchors and repetitions are not. -/
def repeatedPart : Regex Byte → Option (Regex Byte)
  | start | finish | plus _ => none
  | r => some (plus r)

/-- Where a text is read: outside of a class, behind the bracket that opens one, or in one with the
characters that have been read, from the last one on. -/
inductive Place
  | outside
  | opened
  | inside (cls : Bytes)

/-- The expression of the rest of a text, behind the parts of the groups that are open, and those
of the innermost of them, from the last one on. Nothing, if the text has anything but characters,
negated classes of characters, anchors, groups and `+`. -/
def parseFrom : Bytes → Place → List (List (Regex Byte)) → List (Regex Byte) →
    Option (Regex Byte)
  | [], .outside, [], parts => some (seqAll parts.reverse)
  | [], _, _, _ => none
  | b :: text, .opened, outer, parts =>
    if b = 94 then parseFrom text (.inside []) outer parts else none
  | b :: text, .inside cls, outer, parts =>
    if b = 93 then parseFrom text .outside outer (noneOf cls.reverse :: parts)
    else if b ∈ bytes "\\-[" then none
    else parseFrom text (.inside (b :: cls)) outer parts
  | b :: text, .outside, outer, parts =>
    if b = 94 then parseFrom text .outside outer (start :: parts)
    else if b = 36 then parseFrom text .outside outer (finish :: parts)
    else if b = 40 then parseFrom text .outside (parts :: outer) []
    else if b = 41 then
      match outer with
      | [] => none
      | before :: outer => parseFrom text .outside outer (group (seqAll parts.reverse) :: before)
    else if b = 43 then
      match parts with
      | [] => none
      | r :: parts =>
        match repeatedPart r with
        | some r => parseFrom text .outside outer (r :: parts)
        | none => none
    else if b = 91 then parseFrom text .opened outer parts
    else if b ∈ syntaxChars then none
    else parseFrom text .outside outer (char b :: parts)

/-- The expression that a text writes. -/
def parse (text : Bytes) : Option (Regex Byte) := parseFrom text .outside [] []

/-- The constructor of `std::regex`, with what `regex_match` does with the expression. -/
def compile (text : Bytes) : Option (Bytes → Option (List Bytes)) := (parse text).map fullMatch

/-- A character that stands for itself. -/
theorem parseFrom_char {b : Byte} (hb : b ∉ syntaxChars) (text : Bytes)
    (outer : List (List (Regex Byte))) (parts : List (Regex Byte)) :
    parseFrom (b :: text) .outside outer parts =
      parseFrom text .outside outer (char b :: parts) := by
  have hne : ∀ c ∈ syntaxChars, b ≠ c := fun c hc he => hb (he ▸ hc)
  rw [parseFrom.eq_def]
  dsimp only
  rw [if_neg (hne 94 (by decide)), if_neg (hne 36 (by decide)),
    if_neg (hne 40 (by decide)), if_neg (hne 41 (by decide)), if_neg (hne 43 (by decide)),
    if_neg (hne 91 (by decide)), if_neg hb]

end Regex

end KamaHttp
