import KamaHttp.Http.HttpContext

/-!
# Parsing beside a residue

The parser writes the receive time, the body and the Content-Length of a request but never lets
their old values decide anything. `Parallel` relates two runs of the parser on requests that agree
in every other field (`SameHead`); such runs return the same value, in the same state, with the
same bytes unread, and their requests still agree (`reads_parallel`). What is left of the old
values is then in the open: `ParallelResult.residue`.

* `processRequestLine_carrying`: the request line is read the same way beside any residue.
* `parseRequest_untimed`: the time a request is stamped with decides nothing.
-/

namespace KamaHttp

open Search Loop

namespace HttpRequest

/-- The request with another receive time, body and Content-Length. -/
def carrying (r : HttpRequest) (t : Timestamp) (content : Bytes) (n : ℕ) : HttpRequest :=
  { r with receiveTime := t, content := content, contentLength := n }

/-- The two requests agree in every field but the receive time, the body and the
Content-Length. -/
def SameHead (r r' : HttpRequest) : Prop := r.carrying 0 [] 0 = r'.carrying 0 [] 0

variable {r r' : HttpRequest}

theorem SameHead.eq_carrying (h : SameHead r r') :
    r' = r.carrying r'.receiveTime r'.content r'.contentLength := by
  obtain ⟨⟩ := r
  obtain ⟨⟩ := r'
  simp only [SameHead, carrying, mk.injEq, and_true] at h ⊢
  simp [h]

theorem SameHead.method_eq (h : SameHead r r') : r.method = r'.method := by
  rw [h.eq_carrying]; rfl

theorem SameHead.headers_eq (h : SameHead r r') : r.headers = r'.headers := by
  rw [h.eq_carrying]; rfl

theorem SameHead.getHeader_eq (h : SameHead r r') (field : Bytes) :
    r.getHeader field = r'.getHeader field := by
  simp only [getHeader, h.headers_eq]

theorem SameHead.addHeader (h : SameHead r r') (key value : Bytes) :
    SameHead (r.addHeader key value) (r'.addHeader key value) := by
  rw [h.eq_carrying]; rfl

/-- Requests that agree in the residue too are equal, the receive time aside. -/
theorem SameHead.untimed_eq (h : SameHead r r') (hc : r.content = r'.content)
    (hn : r.contentLength = r'.contentLength) : r.untimed = r'.untimed := by
  obtain ⟨⟩ := r
  obtain ⟨⟩ := r'
  simp only [SameHead, carrying, mk.injEq] at h hc hn
  simp [untimed, h, hc, hn]

theorem residue_eq_of_untimed_eq (h : r.untimed = r'.untimed) :
    r.content = r'.content ∧ r.contentLength = r'.contentLength := by
  simp only [untimed, mk.injEq] at h
  simp [h]

theorem sameHead_of_untimed_eq (h : r.untimed = r'.untimed) : SameHead r r' := by
  obtain ⟨⟩ := r
  obtain ⟨⟩ := r'
  simp only [untimed, mk.injEq] at h
  simp [SameHead, carrying, h]

end HttpRequest

namespace HttpContext

open HttpRequest

/-- **The request line is read the same way beside any residue.** -/
theorem processRequestLine_carrying (r : HttpRequest) (line : Bytes) (t : Timestamp) (x : Bytes)
    (n : ℕ) : processRequestLine (r.carrying t x n) line =
      ((processRequestLine r line).1, (processRequestLine r line).2.carrying t x n) := by
  unfold processRequestLine
  rcases breakOn [32] line with _ | ⟨method, rest⟩
  · rfl
  have hset : (r.carrying t x n).setMethod method =
      ((r.setMethod method).1, (r.setMethod method).2.carrying t x n) := rfl
  simp only [hset]
  cases (r.setMethod method).1 with
  | false => rfl
  | true =>
    rcases breakOn [32] rest with _ | ⟨target, version⟩
    · rfl
    · by_cases hv : version.length = 8 ∧ version.take 7 = bytes "HTTP/1."
      · by_cases h₁ : version.getLast? = some 49
        · simp only [hv, h₁, and_self, if_true]
          cases breakOn [63] target <;> rfl
        · by_cases h₀ : version.getLast? = some 48
          · simp only [hv, h₀, and_self, if_true]
            cases breakOn [63] target <;> rfl
          · simp only [hv, h₁, h₀, and_self, if_true, if_false]
            cases breakOn [63] target <;> rfl
      · simp only [hv, if_false]
        cases breakOn [63] target <;> rfl

theorem processRequestLine_sameHead {r r' : HttpRequest} (h : SameHead r r') (line : Bytes) :
    (processRequestLine r' line).1 = (processRequestLine r line).1 ∧
      SameHead (processRequestLine r line).2 (processRequestLine r' line).2 := by
  rw [h.eq_carrying, processRequestLine_carrying]
  exact ⟨rfl, rfl⟩

/-- The request line leaves the residue as it is. -/
theorem processRequestLine_residue (r : HttpRequest) (line : Bytes) :
    (processRequestLine r line).2.content = r.content ∧
      (processRequestLine r line).2.contentLength = r.contentLength := by
  have h := processRequestLine_carrying r line r.receiveTime r.content r.contentLength
  have hr : r.carrying r.receiveTime r.content r.contentLength = r := rfl
  rw [hr] at h
  constructor <;> rw [h] <;> rfl

/-! ## Two runs side by side -/

/-- Two positions of the parser that differ in the residue only: the bodies are the old `x` and
`x'`, and the Content-Lengths are equal or still the old `n` and `n'`. -/
structure Parallel (x x' : Bytes) (n n' : ℕ) (s s' : HttpContext × Bytes) : Prop where
  state : s.1.state = s'.1.state
  unread : s.2 = s'.2
  head : SameHead s.1.request s'.1.request
  content : s.1.request.content = x
  content' : s'.1.request.content = x'
  length : s.1.request.contentLength = s'.1.request.contentLength ∨
    (s.1.state ≠ .kExpectBody ∧ s.1.request.contentLength = n ∧ s'.1.request.contentLength = n')

/-- Two results that differ in the residue at most. -/
structure ParallelResult (x x' : Bytes) (n n' : ℕ) (p p' : ParseResult) : Prop where
  ret : p.ret = p'.ret
  state : p.context.state = p'.context.state
  unread : p.unread = p'.unread
  head : SameHead p.context.request p'.context.request
  residue :
    (p.context.request.content = p'.context.request.content ∧
      p.context.request.contentLength = p'.context.request.contentLength) ∨
    (p.context.request.content = x ∧ p'.context.request.content = x' ∧
      (p.context.request.contentLength = p'.context.request.contentLength ∨
        (p.context.request.contentLength = n ∧ p'.context.request.contentLength = n')))

variable {x x' : Bytes} {n n' : ℕ}

/-- Leaving with the request as it stands keeps the results parallel. -/
theorem Parallel.result {state : HttpRequestParseState} {r r' : HttpRequest} {buf : Bytes}
    (h : Parallel x x' n n' (⟨state, r⟩, buf) (⟨state, r'⟩, buf)) (ret : Ret)
    (state' : HttpRequestParseState) (unread : Bytes) :
    ParallelResult x x' n n' ⟨ret, ⟨state', r⟩, unread⟩ ⟨ret, ⟨state', r'⟩, unread⟩ :=
  ⟨rfl, rfl, rfl, h.head, .inr ⟨h.content, h.content', h.length.imp_right And.right⟩⟩

/-- The request line keeps two positions parallel. -/
theorem Parallel.requestLine {state : HttpRequestParseState} {r r' : HttpRequest} {buf : Bytes}
    (h : Parallel x x' n n' (⟨state, r⟩, buf) (⟨state, r'⟩, buf)) (line : Bytes)
    {state' : HttpRequestParseState} (hs : state' ≠ .kExpectBody) (unread : Bytes) :
    Parallel x x' n n' (⟨state', (processRequestLine r line).2⟩, unread)
      (⟨state', (processRequestLine r' line).2⟩, unread) := by
  have hhead : SameHead r r' := h.head
  obtain ⟨hc, hn⟩ := processRequestLine_residue r line
  obtain ⟨hc', hn'⟩ := processRequestLine_residue r' line
  refine ⟨rfl, rfl, (processRequestLine_sameHead hhead line).2, hc.trans h.content,
    hc'.trans h.content', ?_⟩
  rcases h.length with he | ⟨-, h₁, h₂⟩
  · exact .inl (hn.trans (he.trans hn'.symm))
  · exact .inr ⟨hs, hn.trans h₁, hn'.trans h₂⟩

/-- One iteration keeps two parallel positions parallel. -/
theorem parseIter_parallel (t t' : Timestamp) (s s' : HttpContext × Bytes)
    (h : Parallel x x' n n' s s') :
    Step.Rel (Parallel x x' n n') (ParallelResult x x' n n') (parseIter t s) (parseIter t' s') := by
  obtain ⟨⟨state, r⟩, buf⟩ := s
  obtain ⟨⟨state', r'⟩, buf'⟩ := s'
  obtain rfl : state = state' := h.state
  obtain rfl : buf = buf' := h.unread
  have hhead : SameHead r r' := h.head
  have hm : r.method = r'.method := hhead.method_eq
  have hg := hhead.getHeader_eq (bytes "Content-Length")
  generalize hx : parseIter t (⟨state, r⟩, buf) = y
  cases iteration_of_eq hx with
  | noLine hb => rw [(Iteration.noLine hb).parseIter_eq]; exact .stop (h.result ..)
  | @requestLine _ _ line rest hb hl =>
    have hl' := (processRequestLine_sameHead hhead line).1
    rw [(Iteration.requestLine hb (hl'.trans hl)).parseIter_eq]
    have hpar : Parallel x x' n n' (⟨.kExpectHeaders, (processRequestLine r line).2⟩, rest)
        (⟨.kExpectHeaders, (processRequestLine r' line).2⟩, rest) :=
      h.requestLine line (by simp) rest
    exact .next ⟨rfl, rfl, hpar.head, hpar.content, hpar.content', hpar.length⟩
  | @badRequestLine _ _ line rest hb hl =>
    have hl' := (processRequestLine_sameHead hhead line).1
    rw [(Iteration.badRequestLine hb (hl'.trans hl)).parseIter_eq]
    have hpar : Parallel x x' n n' (⟨.kExpectRequestLine, (processRequestLine r line).2⟩, buf)
        (⟨.kExpectRequestLine, (processRequestLine r' line).2⟩, buf) :=
      h.requestLine line (by simp) buf
    exact .stop (hpar.result ..)
  | noHeader hb => rw [(Iteration.noHeader hb).parseIter_eq]; exact .stop (h.result ..)
  | header hb hl =>
    rw [(Iteration.header hb hl).parseIter_eq]
    exact .next ⟨rfl, rfl, hhead.addHeader .., h.content, h.content', h.length⟩
  | badHeader hb hl hne =>
    rw [(Iteration.badHeader hb hl hne).parseIter_eq]; exact .stop (h.result ..)
  | endPlain hb hp => rw [(Iteration.endPlain hb (hm ▸ hp)).parseIter_eq]; exact .stop (h.result ..)
  | endNoLength hb hp hc =>
    rw [(Iteration.endNoLength hb (hm ▸ hp) (hg ▸ hc)).parseIter_eq]; exact .stop (h.result ..)
  | endBadLength hb hp hc hv =>
    rw [(Iteration.endBadLength hb (hm ▸ hp) (hg ▸ hc) (hg ▸ hv)).parseIter_eq]
    exact .stop (h.result ..)
  | endZero hb hp hv hz =>
    rw [(Iteration.endZero hb (hm ▸ hp) (hg ▸ hv) hz).parseIter_eq]
    refine .stop ⟨rfl, rfl, rfl, ?_, .inr ⟨h.content, h.content', .inl rfl⟩⟩
    rw [hhead.eq_carrying]; rfl
  | endBody hb hp hv hpos =>
    rw [(Iteration.endBody hb (hm ▸ hp) (hg ▸ hv) hpos).parseIter_eq]
    refine .next ⟨rfl, rfl, ?_, h.content, h.content', .inl rfl⟩
    rw [hhead.eq_carrying]; rfl
  | shortBody hb =>
    have hn : r.contentLength = r'.contentLength := h.length.resolve_right fun he => he.1 rfl
    rw [(Iteration.shortBody (hn ▸ hb)).parseIter_eq]; exact .stop (h.result ..)
  | body hb =>
    -- the body is read by the same Content-Length in both runs, and replaces both old ones
    have hn : r.contentLength = r'.contentLength := h.length.resolve_right fun he => he.1 rfl
    rw [(Iteration.body (hn ▸ hb)).parseIter_eq, ← hn]
    refine .stop ⟨rfl, rfl, rfl, ?_, .inl ⟨rfl, hn⟩⟩
    rw [hhead.eq_carrying]; rfl
  | gotAll => exact .next h

/-- **Two parallel runs of the parser leave with parallel results.** -/
theorem reads_parallel {t : Timestamp} (t' : Timestamp) {c c' : HttpContext} {buf : Bytes}
    {p : ParseResult} (h : Parallel x x' n n' (c, buf) (c', buf))
    (hp : (httpReader t).Reads c buf p) :
    ∃ p', (httpReader t').Reads c' buf p' ∧ ParallelResult x x' n n' p p' :=
  Returns.simulate (parseIter_parallel t t') hp h

/-! ## Contexts without the time of their request -/

/-- The context as if its request had not been stamped with a time. -/
def untimed (c : HttpContext) : HttpContext := { c with request := c.request.untimed }

theorem untimed_eq_iff {c c' : HttpContext} :
    c.untimed = c'.untimed ↔ c.state = c'.state ∧ c.request.untimed = c'.request.untimed := by
  simp only [untimed, mk.injEq]

end HttpContext

open HttpContext

/-- The result with the request's receive time put aside. -/
def Left.untimed (p : ParseResult) : ParseResult := { p with context := p.context.untimed }

@[simp] theorem Left.outcome_untimed (p : ParseResult) : p.untimed.outcome = p.outcome := rfl

@[simp] theorem Left.outcome_append (p : ParseResult) (u : Bytes) :
    (p.append u).outcome = p.outcome := rfl

theorem Left.outcome_eq_of_untimed {p p' : ParseResult} (h : p.untimed = p'.untimed) :
    p.outcome = p'.outcome := by
  rw [← p.outcome_untimed, h, p'.outcome_untimed]

theorem HttpContext.ParallelResult.untimed_eq {x : Bytes} {n : ℕ} {p p' : ParseResult}
    (h : ParallelResult x x n n p p') : p.untimed = p'.untimed := by
  have hres : p.context.request.content = p'.context.request.content ∧
      p.context.request.contentLength = p'.context.request.contentLength := by
    rcases h.residue with h | ⟨h₁, h₂, h₃⟩
    · exact h
    · exact ⟨h₁.trans h₂.symm, h₃.elim id fun h₃ => h₃.1.trans h₃.2.symm⟩
  obtain ⟨ret, ⟨state, r⟩, unread⟩ := p
  obtain ⟨ret', ⟨state', r'⟩, unread'⟩ := p'
  have hr : r.untimed = r'.untimed := h.head.untimed_eq hres.1 hres.2
  obtain rfl : ret = ret' := h.ret
  obtain rfl : state = state' := h.state
  obtain rfl : unread = unread' := h.unread
  simp only [Left.untimed, HttpContext.untimed, hr]

/-- **The time a request is stamped with decides nothing.** -/
theorem HttpContext.parseRequest_untimed {c c' : HttpContext} (h : c.untimed = c'.untimed)
    (buf : Bytes) (t t' : Timestamp) :
    (parseRequest c buf t).map Left.untimed = (parseRequest c' buf t').map Left.untimed := by
  obtain ⟨hstate, hr⟩ := untimed_eq_iff.1 h
  obtain ⟨hcontent, hlength⟩ := HttpRequest.residue_eq_of_untimed_eq hr
  by_cases hc : c.state = .kGotAll
  · rw [parseRequest_gotAll hc, parseRequest_gotAll (hstate ▸ hc)]
  · obtain ⟨p, hp⟩ := exists_parseRequest hc buf t
    have hreads := (parseRequest_eq_some_iff_reads hc).1 hp
    have hpar : Parallel c.request.content c.request.content c.request.contentLength
        c.request.contentLength (c, buf) (c', buf) :=
      ⟨hstate, rfl, HttpRequest.sameHead_of_untimed_eq hr, rfl, hcontent.symm, .inl hlength⟩
    obtain ⟨p', hp', hres⟩ := reads_parallel t' hpar hreads
    rw [hp, (parseRequest_eq_some_iff_reads (hstate ▸ hc)).2 hp', Option.map_some, Option.map_some,
      hres.untimed_eq]

end KamaHttp
