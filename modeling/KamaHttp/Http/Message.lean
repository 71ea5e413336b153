import KamaHttp.Http.Segmentation

/-!
# The messages the parser accepts

A grammar of requests as they stand on the wire, stated without the parser: a request line, field
lines and a body (`RequestLine`, `Field`, `Message`). The parser accepts the messages of the grammar
and nothing else, and the request it fills is the one the message denotes (`Message.fill`).

* `processRequestLine_text`, `exists_requestLine`: the accepted request lines.
* `reads_fields`, `exists_fields`: the header section, line by line.
* `reads_message`: the parser, on a message and whatever comes behind it, completes with the
  request of the message and leaves the rest unread.
* `exists_message`: where the parser completes it has read a message.
-/

namespace KamaHttp

open Search Loop HttpRequest HttpContext

/-! ## Lines -/

theorem findCRLF_line {line : Bytes} (h : findCRLF line = none) (rest : Bytes) :
    findCRLF (line ++ (crlf ++ rest)) = some (line, rest) := breakOn_pair (by decide) h rest

theorem isLine_of_findCRLF {buf line rest : Bytes} (h : findCRLF buf = some (line, rest)) :
    findCRLF line = none := breakOn_fst_eq_none (by decide) h

theorem eq_of_findCRLF {buf line rest : Bytes} (h : findCRLF buf = some (line, rest)) :
    buf = line ++ (crlf ++ rest) := eq_append_of_breakOn h

theorem findCRLF_blank (rest : Bytes) : findCRLF (crlf ++ rest) = some ([], rest) :=
  breakOn_pair (u := []) (by decide) rfl rest

theorem eq_of_findCRLF_blank {buf rest : Bytes} (h : findCRLF buf = some ([], rest)) :
    buf = crlf ++ rest := eq_of_findCRLF h

/-! ## The request line -/

/-- A request line: a method token, a target and a version, with one space between them. -/
structure RequestLine where
  method : Bytes
  target : Bytes
  version : Bytes
  method_valid : methodOf method ≠ .kInvalid
  space_not_mem : 32 ∉ target
  version_valid : version = bytes "HTTP/1.1" ∨ version = bytes "HTTP/1.0"
  isLine : findCRLF (method ++ 32 :: (target ++ 32 :: version)) = none

namespace RequestLine

theorem one_one_valid :
    bytes "HTTP/1.1" = bytes "HTTP/1.1" ∨ bytes "HTTP/1.1" = bytes "HTTP/1.0" := .inl rfl

def text (l : RequestLine) : Bytes := l.method ++ 32 :: (l.target ++ 32 :: l.version)

/-- The target up to its first `?`. -/
def path (l : RequestLine) : Bytes := ((breakOn [63] l.target).map Prod.fst).getD l.target

/-- The target behind its first `?`. -/
def query (l : RequestLine) : Option Bytes := (breakOn [63] l.target).map Prod.snd

/-- The methods whose requests have a body. -/
def TakesBody (l : RequestLine) : Prop := methodOf l.method = .kPost ∨ methodOf l.method = .kPut

instance (l : RequestLine) : Decidable l.TakesBody := inferInstanceAs (Decidable (_ ∨ _))

/-- The request with what the line says. -/
def fill (l : RequestLine) (r : HttpRequest) : HttpRequest :=
  let r := { r with method := methodOf l.method, path := l.path, version := l.version }
  match l.query with
  | some arguments => r.setQueryParameters arguments
  | none => r

@[simp] theorem fill_method (l : RequestLine) (r : HttpRequest) :
    (l.fill r).method = methodOf l.method := by
  unfold fill
  cases l.query <;> rfl

@[simp] theorem fill_path (l : RequestLine) (r : HttpRequest) : (l.fill r).path = l.path := by
  unfold fill
  cases l.query <;> rfl

@[simp] theorem fill_headers (l : RequestLine) (r : HttpRequest) :
    (l.fill r).headers = r.headers := by
  unfold fill
  cases l.query <;> rfl

@[simp] theorem fill_content (l : RequestLine) (r : HttpRequest) :
    (l.fill r).content = r.content := by
  unfold fill
  cases l.query <;> rfl

@[simp] theorem fill_contentLength (l : RequestLine) (r : HttpRequest) :
    (l.fill r).contentLength = r.contentLength := by
  unfold fill
  cases l.query <;> rfl

end RequestLine

/-- No method token holds a space. -/
theorem HttpRequest.space_not_mem_of_methodOf {m : Bytes} (h : methodOf m ≠ .kInvalid) :
    32 ∉ m := by
  unfold methodOf at h
  split_ifs at h with h₁ h₂ h₃ h₄ h₅
  · rw [h₁]; decide
  · rw [h₂]; decide
  · rw [h₃]; decide
  · rw [h₄]; decide
  · rw [h₅]; decide
  · exact absurd rfl h

/-- **The parser accepts the request lines of the grammar.** -/
theorem HttpContext.processRequestLine_text (l : RequestLine) (r : HttpRequest) :
    processRequestLine r l.text = (true, l.fill r) := by
  have h₁ : breakOn [32] l.text = some (l.method, l.target ++ 32 :: l.version) :=
    breakOn_singleton (space_not_mem_of_methodOf l.method_valid) _
  have h₂ : breakOn [32] (l.target ++ 32 :: l.version) = some (l.target, l.version) :=
    breakOn_singleton l.space_not_mem _
  have hm : decide (methodOf l.method ≠ .kInvalid) = true := decide_eq_true l.method_valid
  simp only [processRequestLine, h₁, h₂, setMethod, hm, if_true, RequestLine.fill,
    RequestLine.path, RequestLine.query]
  rcases l.version_valid with hv | hv
  · rw [hv]
    rcases breakOn [63] l.target with _ | ⟨path, arguments⟩ <;> rfl
  · rw [hv]
    rcases breakOn [63] l.target with _ | ⟨path, arguments⟩ <;> rfl

/-- A version is told by its last character. -/
theorem eq_of_version {v : Bytes} {b : Byte} (h : v.length = 8 ∧ v.take 7 = bytes "HTTP/1.")
    (hb : v.getLast? = some b) : v = bytes "HTTP/1." ++ [b] := by
  have hne : v ≠ [] := by rintro rfl; simp at hb
  have hlast : v.getLast hne = b := by
    rw [List.getLast?_eq_some_getLast hne] at hb
    exact Option.some.inj hb
  have hinit : v.dropLast = bytes "HTTP/1." := by
    rw [List.dropLast_eq_take, h.1, ← h.2]
  rw [← hinit, ← hlast, List.dropLast_concat_getLast hne]

/-- **Where the parser accepts a request line, the line is one of the grammar.** -/
theorem HttpContext.exists_requestLine {r : HttpRequest} {line : Bytes}
    (hline : findCRLF line = none) (h : (processRequestLine r line).1 = true) :
    ∃ l : RequestLine, l.text = line := by
  unfold processRequestLine at h
  rcases h₁ : breakOn [32] line with _ | ⟨method, rest⟩
  · simp [h₁] at h
  simp only [h₁, setMethod] at h
  obtain ⟨rfl, -⟩ := breakOn_singleton_iff.1 h₁
  by_cases hm : methodOf method = .kInvalid
  · simp [hm] at h
  simp only [ne_eq, hm, not_false_eq_true, decide_true, if_true] at h
  rcases h₂ : breakOn [32] rest with _ | ⟨target, version⟩
  · simp [h₂] at h
  simp only [h₂] at h
  obtain ⟨rfl, ht⟩ := breakOn_singleton_iff.1 h₂
  by_cases hv : version.length = 8 ∧ version.take 7 = bytes "HTTP/1."
  · by_cases hv₁ : version.getLast? = some 49
    · exact ⟨⟨method, target, version, hm, ht, .inl (eq_of_version hv hv₁), hline⟩, rfl⟩
    · by_cases hv₀ : version.getLast? = some 48
      · exact ⟨⟨method, target, version, hm, ht, .inr (eq_of_version hv hv₀), hline⟩, rfl⟩
      · simp [hv, hv₁, hv₀] at h
  · simp [hv] at h

/-! ## Field lines -/

/-- A field line: what stands before the first colon and what stands behind it. -/
structure Field where
  name : Bytes
  value : Bytes
  colon_not_mem : 58 ∉ name
  isLine : findCRLF (name ++ 58 :: value) = none

def Field.text (f : Field) : Bytes := f.name ++ 58 :: f.value

theorem colon_not_mem_contentLength : 58 ∉ bytes "Content-Length" := by decide

/-- Field lines, each with its line end. -/
def lines (fs : List Field) : Bytes := (fs.map fun f => f.text ++ crlf).flatten

theorem lines_cons_append (f : Field) (fs : List Field) (rest : Bytes) :
    lines (f :: fs) ++ rest = f.text ++ (crlf ++ (lines fs ++ rest)) := by
  simp [lines, List.append_assoc]

/-- The value of the last field of a name, without the white space around it. -/
def lastValue (name : Bytes) (fs : List Field) : Option Bytes :=
  ((fs.filter fun f => f.name = name).getLast?).map fun f => trim f.value

/-- The values of the fields of a name, however its letters are cased, in order. -/
def sentValues (name : Bytes) (fs : List Field) : List Bytes :=
  (fs.filter fun f => f.name.map toLower = name.map toLower).map fun f => trim f.value

namespace HttpRequest

/-- The request with the fields added to its headers, one after the other. -/
def addFields (r : HttpRequest) (fs : List Field) : HttpRequest :=
  fs.foldl (fun r f => r.addHeader f.name f.value) r

@[simp] theorem addFields_cons (r : HttpRequest) (f : Field) (fs : List Field) :
    r.addFields (f :: fs) = (r.addHeader f.name f.value).addFields fs := rfl

theorem addFields_concat (r : HttpRequest) (fs : List Field) (f : Field) :
    r.addFields (fs ++ [f]) = (r.addFields fs).addHeader f.name f.value := by
  simp only [addFields, List.foldl_append, List.foldl_cons, List.foldl_nil]

/-- Fields change the headers and nothing else. -/
theorem addFields_eq (r : HttpRequest) (fs : List Field) :
    r.addFields fs = { r with headers := (r.addFields fs).headers } := by
  induction fs generalizing r with
  | nil => rfl
  | cons f fs ih => rw [addFields_cons, ih]; rfl

@[simp] theorem addFields_method (r : HttpRequest) (fs : List Field) :
    (r.addFields fs).method = r.method := by rw [addFields_eq]

@[simp] theorem addFields_content (r : HttpRequest) (fs : List Field) :
    (r.addFields fs).content = r.content := by rw [addFields_eq]

@[simp] theorem addFields_contentLength (r : HttpRequest) (fs : List Field) :
    (r.addFields fs).contentLength = r.contentLength := by rw [addFields_eq]

/-- **Of several fields of one name the last one counts.** -/
theorem getHeader_addFields (r : HttpRequest) (fs : List Field) (name : Bytes) :
    (r.addFields fs).getHeader name = (lastValue name fs).getD (r.getHeader name) := by
  induction fs using List.reverseRecOn with
  | nil => rfl
  | append_singleton fs f ih =>
    rw [addFields_concat, getHeader_addHeader, ih, lastValue, lastValue, List.filter_append]
    by_cases hf : f.name = name <;> simp [hf]

end HttpRequest

namespace HttpContext

variable {t : Timestamp} {r : HttpRequest} {rest : Bytes} {p : ParseResult}

/-- The parser reads field lines one after the other. -/
theorem reads_fields (fs : List Field) :
    (httpReader t).Reads ⟨.kExpectHeaders, r⟩ (lines fs ++ rest) p ↔
      (httpReader t).Reads ⟨.kExpectHeaders, r.addFields fs⟩ rest p := by
  induction fs generalizing r with
  | nil => rfl
  | cons f fs ih =>
    have hf : findCRLF (f.text ++ (crlf ++ (lines fs ++ rest))) = some (f.text, lines fs ++ rest) :=
      findCRLF_line f.isLine _
    have hb : breakOn [58] f.text = some (f.name, f.value) := breakOn_singleton f.colon_not_mem _
    rw [lines_cons_append, addFields_cons, ← ih]
    exact returns_iff_of_next (Iteration.header (t := t) hf hb).parseIter_eq

/-- Every buffer begins with field lines, up to a line that is none or the end of its lines. -/
theorem exists_fields (buf : Bytes) :
    ∃ fs rest, buf = lines fs ++ rest ∧
      ∀ line rest', findCRLF rest = some (line, rest') → 58 ∉ line := by
  induction hn : buf.length using Nat.strong_induction_on generalizing buf with
  | _ n ih =>
    rcases h : findCRLF buf with _ | ⟨line, rest⟩
    · exact ⟨[], buf, rfl, fun _ _ h' => by rw [h] at h'; cases h'⟩
    · by_cases hcolon : 58 ∈ line
      · obtain ⟨⟨name, value⟩, hb⟩ : ∃ x, breakOn [58] line = some x := by
          rw [← Option.isSome_iff_exists, breakOn_isSome_iff, List.singleton_infix_iff]
          exact hcolon
        obtain ⟨rfl, hname⟩ := breakOn_singleton_iff.1 hb
        have hlt := length_lt_of_findCRLF h
        obtain ⟨fs, rest', rfl, hrest⟩ := ih _ (hn ▸ hlt) rest rfl
        refine ⟨⟨name, value, hname, isLine_of_findCRLF h⟩ :: fs, rest', ?_, hrest⟩
        rw [lines_cons_append]
        exact eq_of_findCRLF h
      · refine ⟨[], buf, rfl, fun line' rest' h' => ?_⟩
        obtain ⟨rfl, -⟩ := Prod.mk.inj (Option.some.inj (h.symm.trans h'))
        exact hcolon

end HttpContext

/-! ## Messages -/

/-- A request line with field lines behind it, up to the blank line. -/
def headText (l : RequestLine) (fs : List Field) : Bytes := l.text ++ (crlf ++ (lines fs ++ crlf))

/-- A request on the wire. The body of a POST or PUT is as long as its last Content-Length says;
requests with other methods have none. -/
structure Message where
  line : RequestLine
  fields : List Field
  body : Bytes
  framed : line.TakesBody → ∃ v,
    stoi ((lastValue (bytes "Content-Length") fields).getD []) = .ok v ∧ toUint64 v = body.length
  bodiless : ¬ line.TakesBody → body = []

namespace Message

def text (m : Message) : Bytes := headText m.line m.fields ++ m.body

/-- What the header section of the message makes of a request. -/
def fillHead (m : Message) (r : HttpRequest) (t : Timestamp) : HttpRequest :=
  ((m.line.fill r).setReceiveTime t).addFields m.fields

/-- What the message makes of a request. A body that is there replaces the old one. -/
def fill (m : Message) (r : HttpRequest) (t : Timestamp) : HttpRequest :=
  if m.line.TakesBody then
    { m.fillHead r t with
      contentLength := m.body.length
      content := if m.body = [] then r.content else m.body }
  else m.fillHead r t

/-- The request a message denotes. -/
def request (m : Message) (t : Timestamp) : HttpRequest := m.fill HttpRequest.new t

/-- A GET of a target. -/
def get (target : Bytes) (fs : List Field) (h : 32 ∉ target)
    (hl : findCRLF (bytes "GET" ++ 32 :: (target ++ 32 :: bytes "HTTP/1.1")) = none) : Message where
  line := ⟨bytes "GET", target, bytes "HTTP/1.1", by decide, h, RequestLine.one_one_valid, hl⟩
  fields := fs
  body := []
  framed h := absurd h (by rintro (h | h) <;> cases h)
  bodiless _ := rfl

theorem text_append (m : Message) (rest : Bytes) :
    m.text ++ rest =
      m.line.text ++ (crlf ++ (lines m.fields ++ (crlf ++ (m.body ++ rest)))) := by
  simp only [text, headText, List.append_assoc]

theorem text_ne_nil (m : Message) : m.text ≠ [] := by
  simp [text, headText, RequestLine.text]

theorem fillHead_method (m : Message) (r : HttpRequest) (t : Timestamp) :
    (m.fillHead r t).method = methodOf m.line.method := by
  simp [fillHead]

@[simp] theorem fillHead_content (m : Message) (r : HttpRequest) (t : Timestamp) :
    (m.fillHead r t).content = r.content := by
  simp [fillHead]

@[simp] theorem fillHead_contentLength (m : Message) (r : HttpRequest) (t : Timestamp) :
    (m.fillHead r t).contentLength = r.contentLength := by
  simp [fillHead]

/-- Without older headers, the headers are those of the message. -/
theorem getHeader_fillHead (m : Message) {r : HttpRequest} (hr : r.headers = ∅) (t : Timestamp)
    (name : Bytes) :
    (m.fillHead r t).getHeader name = (lastValue name m.fields).getD [] := by
  have h : ((m.line.fill r).setReceiveTime t).headers = ∅ := by simp [hr]
  rw [fillHead, getHeader_addFields, getHeader_of_headers_empty h]

theorem fill_content (m : Message) (r : HttpRequest) (t : Timestamp) :
    (m.fill r t).content = if m.body = [] then r.content else m.body := by
  unfold fill
  split
  · rfl
  · rename_i h
    rw [if_pos (m.bodiless h), fillHead_content]

theorem fill_method (m : Message) (r : HttpRequest) (t : Timestamp) :
    (m.fill r t).method = methodOf m.line.method := by
  unfold fill
  split <;> exact m.fillHead_method r t

theorem fillHead_path (m : Message) (r : HttpRequest) (t : Timestamp) :
    (m.fillHead r t).path = m.line.path := by
  rw [fillHead, addFields_eq]
  exact m.line.fill_path r

theorem fill_path (m : Message) (r : HttpRequest) (t : Timestamp) :
    (m.fill r t).path = m.line.path := by
  unfold fill
  split <;> exact m.fillHead_path r t

theorem getHeader_fill (m : Message) {r : HttpRequest} (hr : r.headers = ∅) (t : Timestamp)
    (name : Bytes) : (m.fill r t).getHeader name = (lastValue name m.fields).getD [] := by
  unfold fill
  split <;> exact m.getHeader_fillHead hr t name

theorem fill_contentLength (m : Message) (r : HttpRequest) (t : Timestamp) :
    (m.fill r t).contentLength = if m.line.TakesBody then m.body.length else r.contentLength := by
  unfold fill
  split
  · rfl
  · exact m.fillHead_contentLength r t

end Message

namespace HttpContext

variable {t : Timestamp} {r : HttpRequest} {buf rest : Bytes} {p : ParseResult}

/-- The parser reads a request line and the field lines behind it. -/
theorem reads_line_fields (l : RequestLine) (fs : List Field) :
    (httpReader t).Reads ⟨.kExpectRequestLine, r⟩ (l.text ++ (crlf ++ (lines fs ++ rest))) p ↔
      (httpReader t).Reads ⟨.kExpectHeaders, ((l.fill r).setReceiveTime t).addFields fs⟩ rest
        p := by
  have hl := processRequestLine_text l r
  have hline : findCRLF (l.text ++ (crlf ++ (lines fs ++ rest))) =
      some (l.text, lines fs ++ rest) := findCRLF_line l.isLine _
  have hi := (Iteration.requestLine (t := t) hline (congrArg Prod.fst hl)).parseIter_eq
  rw [hl] at hi
  rw [← reads_fields]
  exact returns_iff_of_next hi

/-- **The parser reads a message to its end** and completes with the request of the message,
whatever comes behind it. -/
theorem reads_message (m : Message) (hr : r.headers = ∅) (rest : Bytes) :
    (httpReader t).Reads ⟨.kExpectRequestLine, r⟩ (m.text ++ rest)
      ⟨.ok true, ⟨.kGotAll, m.fill r t⟩, rest⟩ := by
  have hblank : findCRLF (crlf ++ (m.body ++ rest)) = some ([], m.body ++ rest) :=
    findCRLF_blank _
  rw [m.text_append, reads_line_fields]
  change Returns (parseIter t) (⟨.kExpectHeaders, m.fillHead r t⟩, _) _
  by_cases hm : m.line.TakesBody
  · have hm' : (m.fillHead r t).method = .kPost ∨ (m.fillHead r t).method = .kPut := by
      rwa [Message.fillHead_method]
    obtain ⟨v, hv, hlen⟩ := m.framed hm
    rw [← m.getHeader_fillHead hr t] at hv
    rcases Nat.eq_zero_or_pos (toUint64 v) with hz | hpos
    · have hb : m.body = [] := List.length_eq_zero_iff.1 (hlen.symm.trans hz)
      have hi := (Iteration.endZero (t := t) hblank hm' hv hz).parseIter_eq
      refine .stop (hi.trans ?_)
      have hc := m.fillHead_content r t
      simp only [Message.fill, hm, hb, setContentLength, if_true, ← hc, List.nil_append,
        List.length_nil]
    · have hb : m.body ≠ [] := by rw [← List.length_pos_iff]; omega
      have hi := (Iteration.endBody (t := t) hblank hm' hv hpos).parseIter_eq
      refine .next hi (.stop ?_)
      have hfits : ((m.fillHead r t).setContentLength (toUint64 v)).contentLength ≤
          (m.body ++ rest).length := by
        simp [setContentLength, hlen]
      rw [(Iteration.body hfits).parseIter_eq]
      simp [Message.fill, hm, hb, setContentLength, setBody, hlen]
  · have hm' : ¬ ((m.fillHead r t).method = .kPost ∨ (m.fillHead r t).method = .kPut) := by
      rwa [Message.fillHead_method]
    have hi := (Iteration.endPlain (t := t) hblank hm').parseIter_eq
    refine .stop (hi.trans ?_)
    simp [Message.fill, hm, m.bodiless hm]

/-- Where the parser completes behind the last field line, it has read a blank line and, of a POST
or PUT, as many bytes as the Content-Length says. -/
theorem exists_body (hrest : ∀ line rest', findCRLF rest = some (line, rest') → 58 ∉ line)
    (h : (httpReader t).Reads ⟨.kExpectHeaders, r⟩ rest p) (hp : p.outcome = .complete) :
    ∃ body rest', rest = crlf ++ (body ++ rest') ∧
      (r.method = .kPost ∨ r.method = .kPut → ∃ v,
        stoi (r.getHeader (bytes "Content-Length")) = .ok v ∧ toUint64 v = body.length) ∧
      (¬ (r.method = .kPost ∨ r.method = .kPut) → body = []) := by
  change Returns (parseIter t) _ _ at h
  generalize hi : parseIter t (⟨.kExpectHeaders, r⟩, rest) = x
  cases iteration_of_eq hi with
  | noHeader hb => cases (returns_iff_of_stop hi).1 h; cases hp
  | badHeader hb _ _ => cases (returns_iff_of_stop hi).1 h; cases hp
  | endNoLength hb _ _ => cases (returns_iff_of_stop hi).1 h; cases hp
  | endBadLength hb _ _ _ => cases (returns_iff_of_stop hi).1 h; cases hp
  | header hb hl =>
    rw [breakOn_singleton_none.2 (hrest _ _ hb)] at hl
    cases hl
  | endPlain hb hm => exact ⟨[], _, eq_of_findCRLF_blank hb, fun h => absurd h hm, fun _ => rfl⟩
  | endZero hb hm hv hz =>
    exact ⟨[], _, eq_of_findCRLF_blank hb, fun _ => ⟨_, hv, hz⟩, fun h => absurd hm h⟩
  | @endBody _ _ rest' v hb hm hv _ =>
    rw [returns_iff_of_next hi] at h
    generalize hi' : parseIter t (⟨.kExpectBody, r.setContentLength (toUint64 v)⟩, rest') = x
    cases iteration_of_eq hi' with
    | shortBody hb' => cases (returns_iff_of_stop hi').1 h; cases hp
    | body hb' =>
      have hlen : (rest'.take (toUint64 v)).length = toUint64 v := List.length_take_of_le hb'
      refine ⟨rest'.take (toUint64 v), rest'.drop (toUint64 v), ?_, fun _ => ⟨v, hv, hlen.symm⟩,
        fun h => absurd hm h⟩
      rw [List.take_append_drop, eq_of_findCRLF_blank hb]

/-- **Where the parser completes it has read a message.** -/
theorem exists_message (hr : r.headers = ∅)
    (h : (httpReader t).Reads ⟨.kExpectRequestLine, r⟩ buf p) (hp : p.outcome = .complete) :
    ∃ m : Message, buf = m.text ++ p.unread ∧ p = ⟨.ok true, ⟨.kGotAll, m.fill r t⟩, p.unread⟩ := by
  -- it is enough to find the message, as the parser reads it in one way
  suffices ∃ m : Message, ∃ rest, buf = m.text ++ rest by
    obtain ⟨m, rest, rfl⟩ := this
    have he := Returns.deterministic h (reads_message m hr rest)
    subst he
    exact ⟨m, rfl, rfl⟩
  generalize hi : parseIter t (⟨.kExpectRequestLine, r⟩, buf) = x
  cases iteration_of_eq hi with
  | noLine hb => cases (returns_iff_of_stop hi).1 h; cases hp
  | badRequestLine hb hl => cases (returns_iff_of_stop hi).1 h; cases hp
  | @requestLine _ _ line rest hb hl =>
    obtain ⟨l, rfl⟩ := exists_requestLine (isLine_of_findCRLF hb) hl
    obtain ⟨fs, rest, rfl, hrest⟩ := exists_fields rest
    obtain rfl := eq_of_findCRLF hb
    rw [reads_line_fields] at h
    obtain ⟨body, rest, rfl, hframed, hbodiless⟩ := exists_body hrest h hp
    have hnone : ((l.fill r).setReceiveTime t).headers = ∅ := by simp [hr]
    simp only [getHeader_addFields, getHeader_of_headers_empty hnone, addFields_method,
      setReceiveTime_method, l.fill_method] at hframed hbodiless
    let m : Message := ⟨l, fs, body, hframed, hbodiless⟩
    exact ⟨m, rest, (m.text_append rest).symm⟩

end HttpContext

end KamaHttp
