import KamaHttp.Foundations.Reader
import KamaHttp.Http.HttpRequest

/-!
# The request parser

`HttpContext` holds the state of the parser and the request it is filling; `parseRequest` is the
loop of `HttpContext.cpp` over the unread bytes of a connection's input buffer. The buffer is seen
through those bytes: `findCRLF` looks for the first line end among them, `retrieve` drops bytes
from the front and what arrives is appended behind.

* `iteration`: what one iteration of the loop does, exit by exit (`Iteration`).
* `parseRequest_eq_some_iff`, `parseRequest_gotAll`: in every state but `kGotAll` the loop leaves
  within the iterations it is given; in `kGotAll` no branch applies and it never leaves.
* `httpReader`: the loop is an incremental reader, which waits when it returns `true` before
  `kGotAll`.
-/

namespace KamaHttp

open Search Loop

/-- The two bytes that end a line. -/
def crlf : Bytes := [13, 10]

/-- The first line of the unread bytes and what follows its line end, when there is one. -/
def findCRLF (buf : Bytes) : Option (Bytes × Bytes) := breakOn crlf buf

/-- How a call returns: with a truth value, or by an exception. -/
inductive Ret
  | ok (b : Bool)
  | raised (e : StdException)
  deriving DecidableEq

inductive HttpRequestParseState
  | kExpectRequestLine
  | kExpectHeaders
  | kExpectBody
  | kGotAll
  deriving DecidableEq, Repr

structure HttpContext where
  state : HttpRequestParseState
  request : HttpRequest
  deriving DecidableEq

/-- A return from `parseRequest`, with the context and the buffer it leaves. -/
abbrev ParseResult := Left Byte HttpContext Ret

/-- What a call of `parseRequest` comes to. -/
inductive Outcome
  | incomplete
  | complete
  | rejected
  | exception (e : StdException)
  deriving DecidableEq

def Left.outcome (p : ParseResult) : Outcome :=
  match p.ret with
  | .ok true => if p.context.state = .kGotAll then .complete else .incomplete
  | .ok false => .rejected
  | .raised e => .exception e

namespace HttpContext

def new : HttpContext := ⟨.kExpectRequestLine, HttpRequest.new⟩

def gotAll (c : HttpContext) : Bool := decide (c.state = .kGotAll)

/-- `reset`: the request is swapped with a fresh one. -/
def reset (c : HttpContext) : HttpContext :=
  { state := .kExpectRequestLine
    request := (c.request.swap HttpRequest.new).1 }

/-- `processRequestLine`, on the line without its line end. The request is filled as far as the
line is read, whether or not it is accepted. -/
def processRequestLine (request : HttpRequest) (line : Bytes) : Bool × HttpRequest :=
  match breakOn [32] line with
  | none => (false, request)
  | some (method, rest) =>
    let (ok, request) := request.setMethod method
    if ok then
      match breakOn [32] rest with
      | none => (false, request)
      | some (target, version) =>
        let request :=
          match breakOn [63] target with
          | some (path, arguments) => (request.setPath path).setQueryParameters arguments
          | none => request.setPath target
        if version.length = 8 ∧ version.take 7 = bytes "HTTP/1." then
          if version.getLast? = some 49 then (true, request.setVersion (bytes "HTTP/1.1"))
          else if version.getLast? = some 48 then (true, request.setVersion (bytes "HTTP/1.0"))
          else (false, request)
        else (false, request)
    else (false, request)

/-- The blank line that ends the header section, with `rest` behind it. An exception of `stoi`
leaves the line in the buffer; every other exit consumes it. -/
def endHeaders (request : HttpRequest) (buf rest : Bytes) :
    Step (HttpContext × Bytes) ParseResult :=
  if request.method = .kPost ∨ request.method = .kPut then
    let contentLength := request.getHeader (bytes "Content-Length")
    if contentLength ≠ [] then
      match stoi contentLength with
      | .error e => .stop ⟨.raised e, ⟨.kExpectHeaders, request⟩, buf⟩
      | .ok v =>
        let request := request.setContentLength (toUint64 v)
        if 0 < request.contentLength then .next (⟨.kExpectBody, request⟩, rest)
        else .stop ⟨.ok true, ⟨.kGotAll, request⟩, rest⟩
    else .stop ⟨.ok false, ⟨.kExpectHeaders, request⟩, rest⟩
  else .stop ⟨.ok true, ⟨.kGotAll, request⟩, rest⟩

/-- One iteration of the loop of `parseRequest`. -/
def parseIter (receiveTime : Timestamp) :
    HttpContext × Bytes → Step (HttpContext × Bytes) ParseResult
  | (⟨.kExpectRequestLine, request⟩, buf) =>
    match findCRLF buf with
    | none => .stop ⟨.ok true, ⟨.kExpectRequestLine, request⟩, buf⟩
    | some (line, rest) =>
      let (ok, request) := processRequestLine request line
      if ok then .next (⟨.kExpectHeaders, request.setReceiveTime receiveTime⟩, rest)
      else .stop ⟨.ok false, ⟨.kExpectRequestLine, request⟩, buf⟩
  | (⟨.kExpectHeaders, request⟩, buf) =>
    match findCRLF buf with
    | none => .stop ⟨.ok true, ⟨.kExpectHeaders, request⟩, buf⟩
    | some (line, rest) =>
      match breakOn [58] line with
      | some (key, value) => .next (⟨.kExpectHeaders, request.addHeader key value⟩, rest)
      | none =>
        if line = [] then endHeaders request buf rest
        else .stop ⟨.ok false, ⟨.kExpectHeaders, request⟩, rest⟩
  | (⟨.kExpectBody, request⟩, buf) =>
    if buf.length < request.contentLength then
      .stop ⟨.ok true, ⟨.kExpectBody, request⟩, buf⟩
    else
      .stop ⟨.ok true, ⟨.kGotAll, request.setBody (buf.take request.contentLength)⟩,
        buf.drop request.contentLength⟩
  | (⟨.kGotAll, request⟩, buf) => .next (⟨.kGotAll, request⟩, buf)

/-- `parseRequest`, or nothing when the call does not return. Every iteration consumes a line, so
the length of the buffer bounds their number. -/
def parseRequest (c : HttpContext) (buf : Bytes) (receiveTime : Timestamp) : Option ParseResult :=
  run (parseIter receiveTime) (buf.length + 1) (c, buf)

/-! ## One iteration -/

theorem length_lt_of_findCRLF {buf line rest : Bytes} (h : findCRLF buf = some (line, rest)) :
    rest.length < buf.length := by
  have := congrArg List.length (eq_append_of_breakOn h)
  simp only [List.length_append, crlf, List.length_cons, List.length_nil] at this
  omega

/-- The exits of an iteration, one for each path through the loop's body. -/
inductive Iteration (t : Timestamp) :
    HttpContext × Bytes → Step (HttpContext × Bytes) ParseResult → Prop
  | noLine {r buf} (h : findCRLF buf = none) :
      Iteration t (⟨.kExpectRequestLine, r⟩, buf) (.stop ⟨.ok true, ⟨.kExpectRequestLine, r⟩, buf⟩)
  | requestLine {r buf line rest} (h : findCRLF buf = some (line, rest))
      (hl : (processRequestLine r line).1 = true) :
      Iteration t (⟨.kExpectRequestLine, r⟩, buf)
        (.next (⟨.kExpectHeaders, (processRequestLine r line).2.setReceiveTime t⟩, rest))
  | badRequestLine {r buf line rest} (h : findCRLF buf = some (line, rest))
      (hl : (processRequestLine r line).1 = false) :
      Iteration t (⟨.kExpectRequestLine, r⟩, buf)
        (.stop ⟨.ok false, ⟨.kExpectRequestLine, (processRequestLine r line).2⟩, buf⟩)
  | noHeader {r buf} (h : findCRLF buf = none) :
      Iteration t (⟨.kExpectHeaders, r⟩, buf) (.stop ⟨.ok true, ⟨.kExpectHeaders, r⟩, buf⟩)
  | header {r buf line rest key value} (h : findCRLF buf = some (line, rest))
      (hl : breakOn [58] line = some (key, value)) :
      Iteration t (⟨.kExpectHeaders, r⟩, buf)
        (.next (⟨.kExpectHeaders, r.addHeader key value⟩, rest))
  | badHeader {r buf line rest} (h : findCRLF buf = some (line, rest))
      (hl : breakOn [58] line = none) (hne : line ≠ []) :
      Iteration t (⟨.kExpectHeaders, r⟩, buf) (.stop ⟨.ok false, ⟨.kExpectHeaders, r⟩, rest⟩)
  | endPlain {r buf rest} (h : findCRLF buf = some ([], rest))
      (hm : ¬ (r.method = .kPost ∨ r.method = .kPut)) :
      Iteration t (⟨.kExpectHeaders, r⟩, buf) (.stop ⟨.ok true, ⟨.kGotAll, r⟩, rest⟩)
  | endNoLength {r buf rest} (h : findCRLF buf = some ([], rest))
      (hm : r.method = .kPost ∨ r.method = .kPut)
      (hc : r.getHeader (bytes "Content-Length") = []) :
      Iteration t (⟨.kExpectHeaders, r⟩, buf) (.stop ⟨.ok false, ⟨.kExpectHeaders, r⟩, rest⟩)
  | endBadLength {r buf rest e} (h : findCRLF buf = some ([], rest))
      (hm : r.method = .kPost ∨ r.method = .kPut)
      (hc : r.getHeader (bytes "Content-Length") ≠ [])
      (hv : stoi (r.getHeader (bytes "Content-Length")) = .error e) :
      Iteration t (⟨.kExpectHeaders, r⟩, buf) (.stop ⟨.raised e, ⟨.kExpectHeaders, r⟩, buf⟩)
  | endZero {r buf rest v} (h : findCRLF buf = some ([], rest))
      (hm : r.method = .kPost ∨ r.method = .kPut)
      (hv : stoi (r.getHeader (bytes "Content-Length")) = .ok v) (hz : toUint64 v = 0) :
      Iteration t (⟨.kExpectHeaders, r⟩, buf)
        (.stop ⟨.ok true, ⟨.kGotAll, r.setContentLength 0⟩, rest⟩)
  | endBody {r buf rest v} (h : findCRLF buf = some ([], rest))
      (hm : r.method = .kPost ∨ r.method = .kPut)
      (hv : stoi (r.getHeader (bytes "Content-Length")) = .ok v) (hp : 0 < toUint64 v) :
      Iteration t (⟨.kExpectHeaders, r⟩, buf)
        (.next (⟨.kExpectBody, r.setContentLength (toUint64 v)⟩, rest))
  | shortBody {r buf} (h : buf.length < r.contentLength) :
      Iteration t (⟨.kExpectBody, r⟩, buf) (.stop ⟨.ok true, ⟨.kExpectBody, r⟩, buf⟩)
  | body {r buf} (h : r.contentLength ≤ buf.length) :
      Iteration t (⟨.kExpectBody, r⟩, buf)
        (.stop ⟨.ok true, ⟨.kGotAll, r.setBody (buf.take r.contentLength)⟩,
          buf.drop r.contentLength⟩)
  | gotAll {r buf} : Iteration t (⟨.kGotAll, r⟩, buf) (.next (⟨.kGotAll, r⟩, buf))

theorem getHeader_ne_nil_of_stoi {r : HttpRequest} {field : Bytes} {v : ℤ}
    (h : stoi (r.getHeader field) = .ok v) : r.getHeader field ≠ [] := by
  intro he
  rw [he, stoi_nil] at h
  cases h

/-- An exit of `Iteration` is what the iteration does. -/
theorem Iteration.parseIter_eq {t : Timestamp} {s : HttpContext × Bytes}
    {x : Step (HttpContext × Bytes) ParseResult} (h : Iteration t s x) : parseIter t s = x := by
  cases h with
  | endZero h hm hv hz =>
    have hc := getHeader_ne_nil_of_stoi hv
    simp [parseIter, endHeaders, *, HttpRequest.setContentLength, breakOn]
  | endBody h hm hv hp =>
    have hc := getHeader_ne_nil_of_stoi hv
    simp [parseIter, endHeaders, *, HttpRequest.setContentLength, breakOn]
  | body h => simp [parseIter, Nat.not_lt.2 h]
  | _ => simp [parseIter, endHeaders, breakOn, *]

/-- Every iteration takes one of the exits. -/
theorem iteration (t : Timestamp) (s : HttpContext × Bytes) : Iteration t s (parseIter t s) := by
  obtain ⟨⟨state, r⟩, buf⟩ := s
  cases state with
  | kExpectRequestLine =>
    rcases h : findCRLF buf with _ | ⟨line, rest⟩
    · rw [(Iteration.noLine h).parseIter_eq]; exact .noLine h
    · cases hl : (processRequestLine r line).1 with
      | true => rw [(Iteration.requestLine h hl).parseIter_eq]; exact .requestLine h hl
      | false => rw [(Iteration.badRequestLine h hl).parseIter_eq]; exact .badRequestLine h hl
  | kExpectHeaders =>
    rcases h : findCRLF buf with _ | ⟨line, rest⟩
    · rw [(Iteration.noHeader h).parseIter_eq]; exact .noHeader h
    · rcases hl : breakOn [58] line with _ | ⟨key, value⟩
      · by_cases hne : line = []
        · subst hne
          by_cases hm : r.method = .kPost ∨ r.method = .kPut
          · by_cases hc : r.getHeader (bytes "Content-Length") = []
            · rw [(Iteration.endNoLength h hm hc).parseIter_eq]; exact .endNoLength h hm hc
            · cases hv : stoi (r.getHeader (bytes "Content-Length")) with
              | error e =>
                rw [(Iteration.endBadLength h hm hc hv).parseIter_eq]
                exact .endBadLength h hm hc hv
              | ok v =>
                rcases Nat.eq_zero_or_pos (toUint64 v) with hz | hp
                · rw [(Iteration.endZero h hm hv hz).parseIter_eq]; exact .endZero h hm hv hz
                · rw [(Iteration.endBody h hm hv hp).parseIter_eq]; exact .endBody h hm hv hp
          · rw [(Iteration.endPlain h hm).parseIter_eq]; exact .endPlain h hm
        · rw [(Iteration.badHeader h hl hne).parseIter_eq]; exact .badHeader h hl hne
      · rw [(Iteration.header h hl).parseIter_eq]; exact .header h hl
  | kExpectBody =>
    rcases Nat.lt_or_ge buf.length r.contentLength with h | h
    · rw [(Iteration.shortBody h).parseIter_eq]; exact .shortBody h
    · rw [(Iteration.body h).parseIter_eq]; exact .body h
  | kGotAll => exact .gotAll

/-- The cases of an iteration with a known outcome. -/
theorem iteration_of_eq {t : Timestamp} {s : HttpContext × Bytes}
    {x : Step (HttpContext × Bytes) ParseResult} (h : parseIter t s = x) : Iteration t s x :=
  h ▸ iteration t s

/-! ## The whole loop -/

/-- An iteration that goes round again before `kGotAll` has consumed a line. -/
theorem parseIter_next {t : Timestamp} {s s' : HttpContext × Bytes} (hs : s.1.state ≠ .kGotAll)
    (h : parseIter t s = .next s') : s'.1.state ≠ .kGotAll ∧ s'.2.length < s.2.length := by
  cases iteration_of_eq h with
  | requestLine hb _ => exact ⟨by simp, length_lt_of_findCRLF hb⟩
  | header hb _ => exact ⟨by simp, length_lt_of_findCRLF hb⟩
  | endBody hb _ _ _ => exact ⟨by simp, length_lt_of_findCRLF hb⟩
  | gotAll => exact absurd rfl hs

theorem parseRequest_eq_some_iff {c : HttpContext} (hc : c.state ≠ .kGotAll) {buf : Bytes}
    {t : Timestamp} {p : ParseResult} :
    parseRequest c buf t = some p ↔ Returns (parseIter t) (c, buf) p :=
  run_eq_some_iff (fun s => s.1.state ≠ .kGotAll) (fun s => s.2.length)
    (fun _ _ hs h => parseIter_next hs h) hc (Nat.lt_succ_self _)

theorem exists_parseRequest {c : HttpContext} (hc : c.state ≠ .kGotAll) (buf : Bytes)
    (t : Timestamp) : ∃ p, parseRequest c buf t = some p :=
  exists_run_eq_some (fun s => s.1.state ≠ .kGotAll) (fun s => s.2.length)
    (fun _ _ hs h => parseIter_next hs h) hc (Nat.lt_succ_self _)

/-- Called in `kGotAll`, the loop goes round for ever. -/
theorem parseRequest_gotAll {c : HttpContext} (hc : c.state = .kGotAll) (buf : Bytes)
    (t : Timestamp) : parseRequest c buf t = none := by
  obtain ⟨state, r⟩ := c
  obtain rfl : state = .kGotAll := hc
  have hself : parseIter t (⟨.kGotAll, r⟩, buf) = .next (⟨.kGotAll, r⟩, buf) := rfl
  exact run_eq_none_of_diverges (diverges_of_next_self hself) _

/-- A call that returns was made in another state. -/
theorem state_ne_of_parseRequest {c : HttpContext} {buf : Bytes} {t : Timestamp} {p : ParseResult}
    (hp : parseRequest c buf t = some p) : c.state ≠ .kGotAll := by
  intro hc
  rw [parseRequest_gotAll hc] at hp
  cases hp

theorem findCRLF_append {buf line rest : Bytes} (h : findCRLF buf = some (line, rest)) (u : Bytes) :
    findCRLF (buf ++ u) = some (line, rest ++ u) := breakOn_append h u

/-- **The parser is an incremental reader**: it waits when it returns `true` before `kGotAll`. -/
def httpReader (t : Timestamp) : Reader Byte HttpContext Ret where
  iter := parseIter t
  Waits p := p.outcome = .incomplete
  next_append h u := by
    cases iteration_of_eq h with
    | requestLine hb hl => exact (Iteration.requestLine (findCRLF_append hb u) hl).parseIter_eq
    | header hb hl => exact (Iteration.header (findCRLF_append hb u) hl).parseIter_eq
    | endBody hb hm hv hp => exact (Iteration.endBody (findCRLF_append hb u) hm hv hp).parseIter_eq
    | gotAll => rfl
  stop_append {_ b _} h hw u := by
    cases iteration_of_eq h with
    | noLine _ => exact absurd rfl hw
    | noHeader _ => exact absurd rfl hw
    | shortBody _ => exact absurd rfl hw
    | badRequestLine hb hl =>
      exact (Iteration.badRequestLine (findCRLF_append hb u) hl).parseIter_eq
    | badHeader hb hl hne => exact (Iteration.badHeader (findCRLF_append hb u) hl hne).parseIter_eq
    | endPlain hb hm => exact (Iteration.endPlain (findCRLF_append hb u) hm).parseIter_eq
    | endNoLength hb hm hc =>
      exact (Iteration.endNoLength (findCRLF_append hb u) hm hc).parseIter_eq
    | endBadLength hb hm hc hv =>
      exact (Iteration.endBadLength (findCRLF_append hb u) hm hc hv).parseIter_eq
    | endZero hb hm hv hz => exact (Iteration.endZero (findCRLF_append hb u) hm hv hz).parseIter_eq
    | @body r _ hlen =>
      have hlen' : r.contentLength ≤ (b ++ u).length := by
        rw [List.length_append]
        omega
      rw [(Iteration.body hlen').parseIter_eq, List.take_append_of_le_length hlen,
        List.drop_append_of_le_length hlen]
      rfl
  wait_eq h hw := by
    cases iteration_of_eq h with
    | noLine _ => exact ⟨rfl, rfl⟩
    | noHeader _ => exact ⟨rfl, rfl⟩
    | shortBody _ => exact ⟨rfl, rfl⟩
    | _ => simp [Left.outcome] at hw

theorem parseRequest_eq_some_iff_reads {c : HttpContext} (hc : c.state ≠ .kGotAll) {buf : Bytes}
    {t : Timestamp} {p : ParseResult} :
    parseRequest c buf t = some p ↔ (httpReader t).Reads c buf p := parseRequest_eq_some_iff hc

end HttpContext

end KamaHttp
