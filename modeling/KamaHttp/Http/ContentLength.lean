import KamaHttp.Http.HeaderCase

/-!
# The length of a body

A POST or PUT has a body of as many bytes as the value of its Content-Length says, as `stoi` reads
it: `stoi` skips white space, takes a sign and stops at the first byte that is no digit, and a
negative result becomes a `uint64_t`.

* `isNumeral_or_readLoosely`: what `stoi` accepts.
* `exists_reads_length`: the body that the parser reads behind a length that `stoi` accepts.
* `readsLength_iff`: the values that are read as their numeral or refused.
-/

namespace KamaHttp

open HttpContext HttpRequest

/-- The value is a decimal numeral, of a number that an `int` holds. -/
def IsNumeral (v : Bytes) : Prop := v ≠ [] ∧ (∀ d ∈ v, isdigit d) ∧ (digitsVal v : ℤ) ≤ intMax

instance (v : Bytes) : Decidable (IsNumeral v) :=
  inferInstanceAs (Decidable (v ≠ [] ∧ (∀ d ∈ v, isdigit d) ∧ (digitsVal v : ℤ) ≤ intMax))

/-- The value is no numeral, and yet begins with a number that an `int` holds: there is white space
or a sign before its digits, or something behind them. -/
def ReadLoosely (v : Bytes) : Prop :=
  ∃ ws sign ds tail, StrtolText v ws sign ds tail ∧ (ws ≠ [] ∨ sign ≠ [] ∨ tail ≠ []) ∧
    intMin ≤ signedVal sign ds ∧ signedVal sign ds ≤ intMax

/-- The request is refused: the parser returns `false` or throws. -/
def Left.Refuses (p : ParseResult) : Prop := p.outcome = .rejected ∨ ∃ e, p.outcome = .exception e

/-- The parser goes on to a body of exactly `n` bytes, of which `rest` may be the beginning. -/
structure Left.FramesBody (p : ParseResult) (n : ℕ) (rest : Bytes) : Prop where
  length : p.context.request.contentLength = n
  awaits : rest.length < n →
    p.outcome = .incomplete ∧ p.context.state = .kExpectBody ∧ p.unread = rest
  takes : n ≤ rest.length → p.outcome = .complete ∧ p.unread = rest.drop n ∧
    (n ≠ 0 → p.context.request.content = rest.take n)

/-- The value is read as its numeral or refused. -/
structure Left.ReadsLength (p : ParseResult) (v rest : Bytes) : Prop where
  numeral : IsNumeral v → p.FramesBody (digitsVal v) rest
  other : ¬ IsNumeral v → p.Refuses

variable {v rest : Bytes} {z : ℤ}

/-! ## What `stoi` accepts -/

theorem not_isNumeral_of_readLoosely (h : ReadLoosely v) : ¬ IsNumeral v := by
  obtain ⟨ws, sign, ds, tail, ⟨rfl, hws, hsign, -, -, htail⟩, hextra, -⟩ := h
  rintro ⟨-, hdigits, -⟩
  rcases hextra with hne | hne | hne
  · obtain ⟨b, ws, rfl⟩ := List.exists_cons_of_ne_nil hne
    have hspace := hws b List.mem_cons_self
    rw [isspace_of_isdigit (hdigits b (by simp))] at hspace
    cases hspace
  · rcases hsign with rfl | rfl | rfl
    · exact hne rfl
    · exact absurd (hdigits 43 (by simp)) (by decide)
    · exact absurd (hdigits 45 (by simp)) (by decide)
  · obtain ⟨b, tail, rfl⟩ := List.exists_cons_of_ne_nil hne
    have hdigit := hdigits b (by simp)
    rw [htail b rfl] at hdigit
    cases hdigit

/-- **What `stoi` accepts**: the numerals, and what only begins with a number. -/
theorem isNumeral_or_readLoosely (h : stoi v = .ok z) :
    (IsNumeral v ∧ z = digitsVal v) ∨ ReadLoosely v := by
  obtain ⟨hz, hmin, hmax⟩ := stoi_eq_ok_iff.1 h
  obtain ⟨ws, sign, ds, tail, htext, rfl⟩ := exists_strtolText hz
  by_cases hextra : ws ≠ [] ∨ sign ≠ [] ∨ tail ≠ []
  · exact .inr ⟨ws, sign, ds, tail, htext, hextra, hmin, hmax⟩
  · simp only [not_or, not_not] at hextra
    obtain ⟨rfl, rfl, rfl⟩ := hextra
    obtain rfl : v = ds := by simpa using htext.text
    exact .inl ⟨⟨htext.digits_ne_nil, htext.digits, hmax⟩, rfl⟩

theorem exists_stoi_of_readLoosely (h : ReadLoosely v) : ∃ z, stoi v = .ok z := by
  obtain ⟨ws, sign, ds, tail, htext, -, hmin, hmax⟩ := h
  exact ⟨_, stoi_eq_ok_iff.2 ⟨htext.strtol_eq, hmin, hmax⟩⟩

theorem stoi_of_isNumeral (h : IsNumeral v) : stoi v = .ok (digitsVal v : ℤ) :=
  stoi_of_digits h.1 h.2.1 h.2.2

/-! ## What the parser makes of it -/

variable {r : HttpRequest} {t : Timestamp}

/-- **The body behind a length that `stoi` accepts**: as long as the `uint64_t` says. -/
theorem exists_reads_length (hm : r.method = .kPost ∨ r.method = .kPut)
    (hz : stoi (r.getHeader (bytes "Content-Length")) = .ok z) (rest : Bytes) :
    ∃ p, (httpReader t).Reads ⟨.kExpectHeaders, r⟩ (crlf ++ rest) p ∧
      p.FramesBody (toUint64 z) rest := by
  have hblank : findCRLF (crlf ++ rest) = some ([], rest) := findCRLF_blank rest
  rcases Nat.eq_zero_or_pos (toUint64 z) with hzero | hpos
  · refine ⟨_, .stop (Iteration.endZero (t := t) hblank hm hz hzero).parseIter_eq, ?_⟩
    rw [hzero]
    exact ⟨rfl, fun h => absurd h (Nat.not_lt_zero _), fun _ => ⟨rfl, rfl, fun h => absurd rfl h⟩⟩
  have hi := (Iteration.endBody (t := t) hblank hm hz hpos).parseIter_eq
  by_cases hshort : rest.length < toUint64 z
  · refine ⟨_, .next hi (.stop (Iteration.shortBody (t := t) hshort).parseIter_eq), rfl, ?_, ?_⟩
    · exact fun _ => ⟨rfl, rfl, rfl⟩
    · exact fun h => absurd hshort (Nat.not_lt.2 h)
  · have hfits := Nat.not_lt.1 hshort
    refine ⟨_, .next hi (.stop (Iteration.body (t := t) hfits).parseIter_eq), rfl, ?_, ?_⟩
    · exact fun h => absurd h hshort
    · exact fun _ => ⟨rfl, rfl, fun _ => rfl⟩

theorem exists_reads_refused (hm : r.method = .kPost ∨ r.method = .kPut) {e : StdException}
    (he : stoi (r.getHeader (bytes "Content-Length")) = .error e) (rest : Bytes) :
    ∃ p, (httpReader t).Reads ⟨.kExpectHeaders, r⟩ (crlf ++ rest) p ∧ p.Refuses := by
  have hblank : findCRLF (crlf ++ rest) = some ([], rest) := findCRLF_blank rest
  by_cases hnil : r.getHeader (bytes "Content-Length") = []
  · exact ⟨_, .stop (Iteration.endNoLength (t := t) hblank hm hnil).parseIter_eq, .inl rfl⟩
  · exact ⟨_, .stop (Iteration.endBadLength (t := t) hblank hm hnil he).parseIter_eq,
      .inr ⟨e, rfl⟩⟩

/-- A body is not framed in a request that is refused. -/
theorem Left.FramesBody.not_refuses {p : ParseResult} {n : ℕ} (h : p.FramesBody n rest) :
    ¬ p.Refuses := by
  have houtcome : p.outcome = .incomplete ∨ p.outcome = .complete := by
    rcases Nat.lt_or_ge rest.length n with hlt | hge
    · exact .inl (h.awaits hlt).1
    · exact .inr (h.takes hge).1
  rintro (hr | ⟨e, hr⟩) <;> rw [hr] at houtcome <;> simp at houtcome

theorem exists_reads_length_iff (hm : r.method = .kPost ∨ r.method = .kPut)
    (hv : r.getHeader (bytes "Content-Length") = v) (rest : Bytes) :
    ∃ p, (httpReader t).Reads ⟨.kExpectHeaders, r⟩ (crlf ++ rest) p ∧
      (p.ReadsLength v rest ↔ ¬ ReadLoosely v) := by
  cases hz : stoi v with
  | error e =>
    obtain ⟨p, hp, hrefuses⟩ := exists_reads_refused (t := t) hm (hv ▸ hz) rest
    have hnot : ¬ IsNumeral v := fun h => by
      rw [stoi_of_isNumeral h] at hz
      cases hz
    have hstrict : ¬ ReadLoosely v := fun h => by
      obtain ⟨z, hz'⟩ := exists_stoi_of_readLoosely h
      rw [hz'] at hz
      cases hz
    exact ⟨p, hp, iff_of_true ⟨fun h => absurd h hnot, fun _ => hrefuses⟩ hstrict⟩
  | ok z =>
    obtain ⟨p, hp, hframes⟩ := exists_reads_length (t := t) hm (hv ▸ hz) rest
    refine ⟨p, hp, ?_⟩
    rcases isNumeral_or_readLoosely hz with ⟨hnum, rfl⟩ | hloose
    · rw [toUint64_of_nonneg hnum.2.2] at hframes
      exact iff_of_true ⟨fun _ => hframes, fun h => absurd hnum h⟩
        fun h => not_isNumeral_of_readLoosely h hnum
    · have hnot := not_isNumeral_of_readLoosely hloose
      exact iff_of_false (fun h => hframes.not_refuses (h.other hnot)) (not_not.2 hloose)

/-- **Which values of Content-Length are read as their numeral or refused**: all but those that only
begin with a number. -/
theorem readsLength_iff (l : RequestLine) (hl : l.TakesBody) (fs : List Field) (x : Bytes) (n : ℕ)
    (rest : Bytes) (t : Timestamp) :
    (∃ p, parseRequest (leftover x n) (headText l fs ++ rest) t = some p ∧
        p.ReadsLength ((lastValue (bytes "Content-Length") fs).getD []) rest) ↔
      ¬ ReadLoosely ((lastValue (bytes "Content-Length") fs).getD []) := by
  have hm : (headRequest l fs x n t).method = .kPost ∨ (headRequest l fs x n t).method = .kPut := by
    rwa [method_headRequest]
  have hv := getHeader_headRequest l fs x n t (bytes "Content-Length")
  obtain ⟨p, hp, hiff⟩ := exists_reads_length_iff (t := t) hm hv rest
  have hparse : parseRequest (leftover x n) (headText l fs ++ rest) t = some p := by
    rw [parseRequest_eq_some_iff_reads (leftover_state x n), headText]
    simp only [List.append_assoc]
    exact (reads_line_fields l fs).2 hp
  rw [hparse, ← hiff]
  simp

theorem readsLength_iff_one :
    ∃ p, parseRequest (leftover [] 0) (headText putLine [contentLengthOne] ++ bytes "x") 0 =
        some p ∧
      p.ReadsLength ((lastValue (bytes "Content-Length") [contentLengthOne]).getD [])
        (bytes "x") :=
  (readsLength_iff putLine (by decide) [contentLengthOne] [] 0 (bytes "x") 0).2 fun h =>
    not_isNumeral_of_readLoosely h (by decide +kernel)

/-- With a negative length the parser waits for a body that never comes to its end. -/
theorem negative_length_awaited :
    (parseRequest .new (bytes "POST /a HTTP/1.1\r\nContent-Length: -1\r\n\r\n") 0).map
        (fun p => (p.outcome, p.context.request.contentLength)) =
      some (.incomplete, 2 ^ 64 - 1) ∧
    ¬ ∃ p, parseRequest .new (bytes "POST /a HTTP/1.1\r\nContent-Length: -1\r\n\r\n") 0 =
      some p ∧ p.ReadsLength (bytes "-1") [] := by
  have hread : (parseRequest .new (bytes "POST /a HTTP/1.1\r\nContent-Length: -1\r\n\r\n") 0).map
      (fun p => (p.outcome, p.context.request.contentLength)) =
    some (.incomplete, 2 ^ 64 - 1) := by decide +kernel
  refine ⟨hread, ?_⟩
  rintro ⟨p, hp, hlength⟩
  rw [hp, Option.map_some, Option.some.injEq, Prod.mk.injEq] at hread
  have hrefuses := hlength.other (by decide +kernel)
  simp [Left.Refuses, hread.1] at hrefuses

end KamaHttp
