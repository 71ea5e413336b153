import KamaHttp.Foundations.Regex
import KamaHttp.Http.Router

/-!
# The patterns of dynamic routes

`Router::convertToRegex` makes an expression of a path with parameters such as `/s/:id`: every
parameter becomes a group, and the rest stays as it is (`Router.h`).

* `replaceAll_patternText`: what becomes of the text of a pattern.
* `parse_convertToRegex`: the expression that this text writes.
* `fullMatch_segmentsRegex`: the paths that the expression matches, and its groups.
* `convertToRegex_matches`: a pattern matches the paths that agree with it segment by segment.
-/

namespace KamaHttp

open Regex

namespace Router

/-- The expression `/:([^/]+)` of a parameter. -/
def paramRegex : Regex Byte :=
  .seq (.char 47) (.seq (.char 58)
    (.seq (.group (.seq (.plus (.noneOf [47])) .empty)) .empty))

theorem parse_paramRegex : Regex.parse (bytes "/:([^/]+)") = some paramRegex := by rfl

def convertToRegex (pathPattern : Bytes) : Bytes :=
  bytes "^" ++ Regex.replaceAll paramRegex (bytes "/([^/]+)") pathPattern ++ bytes "$"

end Router

/-- A segment of a pattern: a literal, or a parameter with its name. -/
inductive Segment
  | literal (s : Bytes) (h : ∀ b ∈ s, isIdChar b)
  | param (name : Bytes) (hne : name ≠ []) (h : 47 ∉ name)

namespace Segment

def text : Segment → Bytes
  | literal s _ => 47 :: s
  | param name _ _ => 47 :: 58 :: name

/-- The text of the expression that a segment becomes. -/
def regexText : Segment → Bytes
  | literal s _ => 47 :: s
  | param _ _ _ => bytes "/([^/]+)"

/-- The parts of the expression that a segment becomes. -/
def parts : Segment → List (Regex Byte)
  | literal s _ => .char 47 :: s.map .char
  | param _ _ _ => [.char 47, .group (.seq (.plus (.noneOf [47])) .empty)]

/-- The segment of a path agrees with the one of the pattern. -/
def Agrees : Segment → Bytes → Prop
  | literal s _, t => t = s
  | param _ _ _, t => t ≠ []

/-- What a parameter is bound to. -/
def bound : Segment → Bytes → Option Bytes
  | literal _ _, _ => none
  | param _ _ _, t => some t

end Segment

open Segment

/-- The text of a pattern. -/
def patternText (segs : List Segment) : Bytes := segs.flatMap text

/-- The path has these segments. -/
def IsPath (p : Bytes) (ts : List Bytes) : Prop :=
  p = ts.flatMap (47 :: ·) ∧ ∀ t ∈ ts, 47 ∉ t

/-! ## The text of the expression -/

section Replace

variable {size n : ℕ} {l : Bytes}

/-- A parameter is found where there is one. -/
theorem head?_ways_paramRegex {name : Bytes} (hne : name ≠ []) (hname : 47 ∉ name)
    (hl : ∀ b, l.head? = some b → b = 47) :
    ((ways size Router.paramRegex (47 :: 58 :: (name ++ l))).head?).map Prod.fst = some l := by
  have hplus : (ways size (.plus (.noneOf [47])) (name ++ l)).head? = some (l, []) :=
    head?_ways_plus_noneOf hne (fun b hb => by simpa using fun he : b = 47 => hname (he ▸ hb))
      (fun b hb => by simpa using hl b hb)
  obtain ⟨rest, hways⟩ := List.head?_eq_some_iff.1 hplus
  simp [Router.paramRegex, hways]

/-- Elsewhere there is none. -/
theorem ways_paramRegex_of_not {b : Byte} (h : b ≠ 47 ∨ l.head? ≠ some 58) :
    ways size Router.paramRegex (b :: l) = [] := by
  rcases h with hb | hl
  · simp [Router.paramRegex, hb]
  · cases l with
    | nil => by_cases hb : b = 47 <;> simp [Router.paramRegex, hb]
    | cons c l =>
      have hc : c ≠ 58 := by simpa using hl
      by_cases hb : b = 47 <;> simp [Router.paramRegex, hb, hc]

/-- Characters other than `/` stay as they are. -/
theorem replaceFrom_of_not_mem {s : Bytes} (hs : 47 ∉ s) (format : Bytes) :
    replaceFrom Router.paramRegex format size (s.length + n) (s ++ l) =
      s ++ replaceFrom Router.paramRegex format size n l := by
  induction s with
  | nil => rw [List.length_nil, Nat.zero_add, List.nil_append, List.nil_append]
  | cons b s ih =>
    have hb : b ≠ 47 := fun he => hs (he ▸ List.mem_cons_self)
    rw [List.length_cons, Nat.add_right_comm, List.cons_append,
      replaceFrom_of_nil format (ways_paramRegex_of_not (.inl hb)),
      ih fun h => hs (List.mem_cons_of_mem b h), List.cons_append]

theorem head?_patternText (segs : List Segment) :
    ∀ b, (patternText segs).head? = some b → b = 47 := by
  intro b hb
  rcases segs with _ | ⟨_ | _, segs⟩
  · cases hb
  · exact (Option.some.inj hb).symm
  · exact (Option.some.inj hb).symm

theorem not_mem_literal {s : Bytes} (h : ∀ b ∈ s, isIdChar b) : 47 ∉ s ∧ 58 ∉ s :=
  ⟨fun hs => absurd (h _ hs) (by decide), fun hs => absurd (h _ hs) (by decide)⟩

theorem replaceFrom_patternText (segs : List Segment) (hn : (patternText segs).length ≤ n) :
    replaceFrom Router.paramRegex (bytes "/([^/]+)") size n (patternText segs) =
      segs.flatMap regexText := by
  induction segs generalizing n with
  | nil => cases n <;> rfl
  | cons seg segs ih =>
    have hcons : patternText (seg :: segs) = seg.text ++ patternText segs := rfl
    have hhead := head?_patternText segs
    rw [hcons] at hn ⊢
    rw [List.flatMap_cons]
    generalize patternText segs = l at hn ih hhead ⊢
    cases seg with
    | literal s hs =>
      obtain ⟨hslash, hcolon⟩ := not_mem_literal hs
      have hnext : (s ++ l).head? ≠ some 58 := by
        cases s with
        | nil => exact fun he => absurd (hhead 58 he) (by decide)
        | cons b s => exact fun he => hcolon (by simp [← Option.some.inj he])
      obtain ⟨m, rfl⟩ := Nat.exists_eq_add_of_le hn
      have hfuel : (Segment.text (.literal s hs) ++ l).length + m =
          (s.length + (l.length + m)) + 1 := by
        simp only [Segment.text, List.cons_append, List.length_cons, List.length_append]
        omega
      rw [hfuel]
      show replaceFrom _ _ size _ (47 :: (s ++ l)) = 47 :: (s ++ segs.flatMap regexText)
      rw [replaceFrom_of_nil _ (ways_paramRegex_of_not (.inr hnext)),
        replaceFrom_of_not_mem hslash, ih (Nat.le_add_right _ m)]
    | param name hne hname =>
      simp only [Segment.text, List.cons_append, List.length_cons, List.length_append] at hn
      obtain ⟨m, rfl⟩ := Nat.exists_eq_add_of_le' (show 1 ≤ n by omega)
      have hlength : l.length < (47 :: 58 :: (name ++ l)).length := by
        simp only [List.length_cons, List.length_append]
        omega
      show replaceFrom _ _ size _ (47 :: 58 :: (name ++ l)) = bytes "/([^/]+)" ++ _
      rw [replaceFrom_of_head? _ (head?_ways_paramRegex hne hname hhead) hlength, ih (by omega)]

/-- **What becomes of the text of a pattern**: every parameter is replaced by a group. -/
theorem replaceAll_patternText (segs : List Segment) :
    replaceAll Router.paramRegex (bytes "/([^/]+)") (patternText segs) =
      segs.flatMap regexText := replaceFrom_patternText segs le_rfl

end Replace

/-! ## The expression -/

/-- The expression of a pattern. -/
def segmentsRegex (segs : List Segment) : Regex Byte :=
  seqAll (.start :: (segs.flatMap parts ++ [.finish]))

theorem parseFrom_chars {s : Bytes} (hs : ∀ b ∈ s, isIdChar b) (rest : Bytes)
    (done : List (Regex Byte)) :
    parseFrom (s ++ rest) .outside [] done =
      parseFrom rest .outside [] ((s.map Regex.char).reverse ++ done) := by
  induction s generalizing done with
  | nil => rfl
  | cons b s ih =>
    have hb : b ∉ syntaxChars := fun hmem => by
      have hno : (syntaxChars.all fun c => !isIdChar c) = true := by decide
      have hnot := List.all_eq_true.mp hno b hmem
      rw [hs b List.mem_cons_self] at hnot
      cases hnot
    rw [List.cons_append, parseFrom_char hb, ih (fun c hc => hs c (List.mem_cons_of_mem b hc))]
    simp

/-- The text of a segment writes its parts. -/
theorem parseFrom_regexText (seg : Segment) (rest : Bytes) (done : List (Regex Byte)) :
    parseFrom (seg.regexText ++ rest) .outside [] done =
      parseFrom rest .outside [] (seg.parts.reverse ++ done) := by
  cases seg with
  | literal s hs =>
    show parseFrom (47 :: (s ++ rest)) .outside [] done = _
    rw [parseFrom_char (by decide), parseFrom_chars hs]
    simp [parts]
  | param name hne hname => rfl

theorem parseFrom_flatMap_regexText (segs : List Segment) (rest : Bytes)
    (done : List (Regex Byte)) :
    parseFrom (segs.flatMap regexText ++ rest) .outside [] done =
      parseFrom rest .outside [] ((segs.flatMap parts).reverse ++ done) := by
  induction segs generalizing done with
  | nil => rfl
  | cons seg segs ih =>
    rw [List.flatMap_cons, List.append_assoc, parseFrom_regexText, ih]
    simp

/-- **The expression that is made of a pattern.** -/
theorem parse_convertToRegex (segs : List Segment) :
    Regex.parse (Router.convertToRegex (patternText segs)) = some (segmentsRegex segs) := by
  have htext : Router.convertToRegex (patternText segs) =
      94 :: (segs.flatMap regexText ++ bytes "$") := by
    rw [Router.convertToRegex, replaceAll_patternText]
    rfl
  have hstart : ∀ text, parseFrom (94 :: text) .outside [] [] =
      parseFrom text .outside [] [.start] := fun text => by
    rw [parseFrom.eq_def]
    rfl
  have hfinish : ∀ done, parseFrom (bytes "$") .outside [] done =
      some (seqAll (Regex.finish :: done).reverse) := fun done => by
    rfl
  rw [Regex.parse, htext, hstart, parseFrom_flatMap_regexText, hfinish, segmentsRegex]
  simp

/-! ## The paths that it matches -/

/-- The texts of the parameters of a path. -/
def captures (segs : List Segment) (ts : List Bytes) : List Bytes :=
  (List.zipWith bound segs ts).reduceOption

section Matches

variable {size : ℕ} {l rest : Bytes} {gs : List Bytes}

theorem mem_ways_chars {s : Bytes} :
    (rest, gs) ∈ ways size (seqAll (s.map Regex.char)) l ↔ l = s ++ rest ∧ gs = [] := by
  induction s generalizing l gs with
  | nil => exact mem_ways_empty
  | cons b s ih =>
    change (rest, gs) ∈ ways size (.seq (.char b) (seqAll (s.map Regex.char))) l ↔ _
    simp only [mem_ways_seq, mem_ways_char, ih]
    constructor
    · rintro ⟨_, _, _, ⟨rfl, rfl⟩, ⟨rfl, rfl⟩, rfl⟩
      exact ⟨rfl, rfl⟩
    · rintro ⟨rfl, rfl⟩
      exact ⟨_, _, _, ⟨rfl, rfl⟩, ⟨rfl, rfl⟩, rfl⟩

/-- The parts of a segment match a segment that agrees with it. -/
theorem mem_ways_parts (seg : Segment) :
    (rest, gs) ∈ ways size (seqAll seg.parts) l ↔
      ∃ t, 47 ∉ t ∧ seg.Agrees t ∧ l = 47 :: (t ++ rest) ∧ gs = (seg.bound t).toList := by
  cases seg with
  | literal s hs =>
    change (rest, gs) ∈ ways size (.seq (.char 47) (seqAll (s.map Regex.char))) l ↔ _
    simp only [mem_ways_seq, mem_ways_char, mem_ways_chars]
    constructor
    · rintro ⟨_, _, _, ⟨rfl, rfl⟩, ⟨rfl, rfl⟩, rfl⟩
      exact ⟨s, (not_mem_literal hs).1, rfl, rfl, rfl⟩
    · rintro ⟨t, -, ht, rfl, rfl⟩
      exact ⟨_, _, _, ⟨rfl, rfl⟩, ⟨congrArg (· ++ rest) ht, rfl⟩, rfl⟩
  | param name hne hname =>
    change (rest, gs) ∈ ways size (.seq (.char 47)
      (.seq (.group (.seq (.plus (.noneOf [47])) .empty)) .empty)) l ↔ _
    simp only [mem_ways_seq, mem_ways_char, mem_ways_group, mem_ways_plus_noneOf, mem_ways_empty]
    constructor
    · rintro ⟨_, _, _, ⟨rfl, rfl⟩, ⟨_, _, _, ⟨_, ⟨_, _, _, ⟨rfl, t, hne, rfl, ht⟩, ⟨rfl, rfl⟩,
        rfl⟩, rfl⟩, ⟨rfl, rfl⟩, rfl⟩, rfl⟩
      exact ⟨t, fun hmem => ht 47 hmem (List.mem_singleton_self 47), hne, rfl, by simp [bound]⟩
    · rintro ⟨t, hslash, hne, rfl, rfl⟩
      refine ⟨t ++ rest, [], [t], ⟨rfl, rfl⟩, ⟨rest, [t], [], ⟨[], ⟨rest, [], [],
        ⟨rfl, t, hne, rfl, fun b hb he => ?_⟩, ⟨rfl, rfl⟩, rfl⟩, by simp⟩, ⟨rfl, rfl⟩, rfl⟩, rfl⟩
      exact hslash (List.mem_singleton.1 he ▸ hb)

/-- The parts of a pattern match the paths that agree with it. -/
theorem mem_ways_flatMap_parts (segs : List Segment) :
    (rest, gs) ∈ ways size (seqAll (segs.flatMap parts ++ [.finish])) l ↔
      rest = [] ∧ ∃ ts, IsPath l ts ∧ List.Forall₂ Agrees segs ts ∧ gs = captures segs ts := by
  induction segs generalizing l gs with
  | nil =>
    change (rest, gs) ∈ ways size (.seq .finish .empty) l ↔ _
    simp only [mem_ways_seq, mem_ways_finish, mem_ways_empty]
    constructor
    · rintro ⟨_, _, _, ⟨rfl, rfl, rfl⟩, ⟨rfl, rfl⟩, rfl⟩
      exact ⟨rfl, [], ⟨rfl, by simp⟩, .nil, rfl⟩
    · rintro ⟨rfl, _, ⟨rfl, -⟩, ⟨⟩, rfl⟩
      exact ⟨[], [], [], ⟨rfl, rfl, rfl⟩, ⟨rfl, rfl⟩, rfl⟩
  | cons seg segs ih =>
    simp only [List.flatMap_cons, List.append_assoc, mem_ways_seqAll_append seg.parts,
      mem_ways_parts, ih]
    constructor
    · rintro ⟨mid, _, _, ⟨t, ht, hagrees, rfl, rfl⟩, ⟨rfl, ts, ⟨rfl, hts⟩, hall, rfl⟩, rfl⟩
      refine ⟨rfl, t :: ts, ⟨rfl, List.forall_mem_cons.2 ⟨ht, hts⟩⟩, .cons hagrees hall, ?_⟩
      simp only [captures, List.zipWith_cons_cons]
      cases seg.bound t <;> rfl
    · rintro ⟨rfl, _, ⟨rfl, hts⟩, _ | ⟨hagrees, hall⟩, rfl⟩
      rename_i t ts
      obtain ⟨ht, hts⟩ := List.forall_mem_cons.1 hts
      refine ⟨ts.flatMap (47 :: ·), _, captures segs ts, ⟨t, ht, hagrees, rfl, rfl⟩,
        ⟨rfl, ts, ⟨rfl, hts⟩, hall, rfl⟩, ?_⟩
      simp only [captures, List.zipWith_cons_cons]
      cases seg.bound t <;> rfl

end Matches

/-- A path has its segments in one way. -/
theorem IsPath.unique {p : Bytes} {ts ts' : List Bytes} (h : IsPath p ts) (h' : IsPath p ts') :
    ts = ts' := by
  obtain ⟨rfl, hts⟩ := h
  obtain ⟨he, hts'⟩ := h'
  have hhead : ∀ us : List Bytes, (us.flatMap (47 :: ·)).takeWhile (· ≠ 47) = [] := by
    rintro (_ | ⟨u, us⟩) <;> simp
  have hsplit : ∀ {u} (us : List Bytes), 47 ∉ u →
      (u ++ us.flatMap (47 :: ·)).takeWhile (· ≠ 47) = u := fun {u} us hu => by
    rw [List.takeWhile_append_of_pos (fun b hb => by
      simpa using fun he : b = 47 => hu (he ▸ hb)), hhead, List.append_nil]
  induction ts generalizing ts' with
  | nil =>
    cases ts' with
    | nil => rfl
    | cons t' ts' => cases he
  | cons t ts ih =>
    cases ts' with
    | nil => cases he
    | cons t' ts' =>
      obtain ⟨ht, hts⟩ := List.forall_mem_cons.1 hts
      obtain ⟨ht', hrest⟩ := List.forall_mem_cons.1 hts'
      have htail : t ++ ts.flatMap (47 :: ·) = t' ++ ts'.flatMap (47 :: ·) := by simpa using he
      obtain rfl : t = t' := by rw [← hsplit ts ht, htail, hsplit ts' ht']
      rw [ih hts (List.append_cancel_left htail) hrest]

/-- The groups of a match are the texts of the parameters. -/
theorem fullMatch_segmentsRegex {segs : List Segment} {p : Bytes} {gs : List Bytes} :
    fullMatch (segmentsRegex segs) p = some gs ↔
      ∃ ts, IsPath p ts ∧ List.Forall₂ Agrees segs ts ∧ gs = captures segs ts := by
  have hways : ∀ {gs : List Bytes}, ([], gs) ∈ ways p.length (segmentsRegex segs) p ↔
      ∃ ts, IsPath p ts ∧ List.Forall₂ Agrees segs ts ∧ gs = captures segs ts := fun {gs} => by
    change ([], gs) ∈ ways p.length (.seq .start (seqAll (segs.flatMap parts ++ [.finish]))) p ↔ _
    simp only [mem_ways_seq, mem_ways_start, mem_ways_flatMap_parts]
    constructor
    · rintro ⟨_, _, _, ⟨-, rfl, rfl⟩, ⟨-, h⟩, rfl⟩
      exact h
    · exact fun h => ⟨p, [], gs, ⟨trivial, rfl, rfl⟩, ⟨trivial, h⟩, rfl⟩
  constructor
  · exact fun h => hways.1 (mem_ways_of_fullMatch h)
  · rintro ⟨ts, hp, hall, rfl⟩
    obtain ⟨gs, hgs⟩ := exists_fullMatch_of_mem_ways (hways.2 ⟨ts, hp, hall, rfl⟩)
    obtain ⟨ts', hp', -, rfl⟩ := hways.1 (mem_ways_of_fullMatch hgs)
    rwa [hp.unique hp']

/-- **A pattern matches the paths that agree with it segment by segment**, and then the `i`-th
parameter is bound to the text of the `i`-th segment that is one. -/
theorem convertToRegex_matches (segs : List Segment) :
    ∃ pattern, Regex.compile (Router.convertToRegex (patternText segs)) = some pattern ∧
      ∀ p, ((pattern p).isSome ↔ ∃ ts, IsPath p ts ∧ List.Forall₂ Agrees segs ts) ∧
        ∀ ts, IsPath p ts → List.Forall₂ Agrees segs ts →
          pattern p = some (captures segs ts) ∧
            ∀ (req : HttpRequest) (i : ℕ) (t : Bytes), (captures segs ts)[i]? = some t →
              (Router.extractPathParameters (captures segs ts) req).pathParameters[
                bytes "param" ++ decimal (i + 1 : ℕ)]? = some t := by
  refine ⟨fullMatch (segmentsRegex segs), by rw [compile, parse_convertToRegex]; rfl, fun p =>
    ⟨?_, fun ts hp hall => ⟨fullMatch_segmentsRegex.2 ⟨ts, hp, hall, rfl⟩, fun req i t ht =>
      Router.getElem?_extractPathParameters ht⟩⟩⟩
  rw [Option.isSome_iff_exists]
  constructor
  · rintro ⟨gs, hgs⟩
    obtain ⟨ts, hp, hall, -⟩ := fullMatch_segmentsRegex.1 hgs
    exact ⟨ts, hp, hall⟩
  · rintro ⟨ts, hp, hall⟩
    exact ⟨_, fullMatch_segmentsRegex.2 ⟨ts, hp, hall, rfl⟩⟩

end KamaHttp
