import KamaHttp.Http.HttpServer
import KamaHttp.Http.Message

/-!
# After a bad request

A connection that has answered 400 goes on receiving. Three of the parser's ways to fail leave it
in a position from which it never completes a request again (`Stuck`): a request line that is not
accepted and a Content-Length that is no number stay at the front of the buffer, and after an
exception of the callback the parser does not return. A header line without a colon and the blank
line of a POST or PUT without Content-Length are consumed, and the parser reads on behind them as if
nothing had happened (`BadHead`).

* `stuck_of_refused`: a request that is refused leaves the parser stuck, unless its header section
  is bad.
* `failStop_of_no_badHead`: in a run that never meets a bad header section, the callback is not
  invoked once 400 has been answered.
-/

namespace KamaHttp

open Search Loop HttpRequest HttpContext HttpServer

/-- The parser refuses a line without a colon in the header section of `r`: it is not blank, or it
ends the header section of a POST or PUT that has no Content-Length. -/
def Refused (r : HttpRequest) (line : Bytes) : Prop :=
  line ≠ [] ∨ ((r.method = .kPost ∨ r.method = .kPut) ∧ r.getHeader (bytes "Content-Length") = [])

/-- The buffer holds a bad header section: behind the request line, if it has not been read yet, and
field lines stands a line that is refused. -/
def BadHead (c : HttpContext) (buf : Bytes) : Prop :=
  ∃ fs line rest, findCRLF line = none ∧ 58 ∉ line ∧
    ((c.state = .kExpectHeaders ∧ buf = lines fs ++ (line ++ (crlf ++ rest)) ∧
        Refused (c.request.addFields fs) line) ∨
      ∃ l : RequestLine, c.state = .kExpectRequestLine ∧
        buf = l.text ++ (crlf ++ (lines fs ++ (line ++ (crlf ++ rest)))) ∧
        Refused ((l.fill c.request).addFields fs) line)

/-- The parser never completes a request again. -/
inductive Stuck : HttpContext → Bytes → Prop
  | requestLine {r buf line rest} (hb : findCRLF buf = some (line, rest))
      (hl : ∀ r, (processRequestLine r line).1 = false) : Stuck ⟨.kExpectRequestLine, r⟩ buf
  | contentLength {r buf rest e} (hb : findCRLF buf = some ([], rest))
      (hm : r.method = .kPost ∨ r.method = .kPut)
      (hc : r.getHeader (bytes "Content-Length") ≠ [])
      (hv : stoi (r.getHeader (bytes "Content-Length")) = .error e) : Stuck ⟨.kExpectHeaders, r⟩ buf
  | gotAll {r buf} : Stuck ⟨.kGotAll, r⟩ buf

variable {c : HttpContext} {buf : Bytes} {t : Timestamp} {p : ParseResult}

/-- Whether a request line is accepted does not depend on the request it fills. -/
theorem processRequestLine_eq_false {r : HttpRequest} {line : Bytes}
    (hline : findCRLF line = none) (h : (processRequestLine r line).1 = false) (r' : HttpRequest) :
    (processRequestLine r' line).1 = false := by
  by_contra hne
  obtain ⟨l, rfl⟩ := exists_requestLine hline (Bool.eq_true_of_not_eq_false hne)
  rw [processRequestLine_text] at h
  cases h

/-- **A parser that is stuck refuses whatever comes, and stays stuck.** -/
theorem Stuck.parseRequest (h : Stuck c buf) (s : Bytes)
    (hp : HttpContext.parseRequest c (buf ++ s) t = some p) :
    p.outcome ≠ .incomplete ∧ p.outcome ≠ .complete ∧ Stuck p.context p.unread := by
  cases h with
  | @requestLine r _ _ _ hb hl =>
    have hb' := findCRLF_append hb s
    have hi := (Iteration.badRequestLine (t := t) hb' (hl r)).parseIter_eq
    obtain rfl := (returns_iff_of_stop hi).1 ((parseRequest_eq_some_iff (by simp)).1 hp)
    exact ⟨by simp [Left.outcome], by simp [Left.outcome], .requestLine hb' hl⟩
  | contentLength hb hm hc hv =>
    have hb' := findCRLF_append hb s
    have hi := (Iteration.endBadLength (t := t) hb' hm hc hv).parseIter_eq
    obtain rfl := (returns_iff_of_stop hi).1 ((parseRequest_eq_some_iff (by simp)).1 hp)
    exact ⟨by simp [Left.outcome], by simp [Left.outcome], .contentLength hb' hm hc hv⟩
  | gotAll =>
    exact absurd rfl (HttpContext.state_ne_of_parseRequest hp)

theorem Refused.of_addFields_setReceiveTime {r : HttpRequest} {fs : List Field} {line : Bytes}
    (h : Refused ((r.setReceiveTime t).addFields fs) line) : Refused (r.addFields fs) line := by
  have hg : ∀ name, ((r.setReceiveTime t).addFields fs).getHeader name =
      (r.addFields fs).getHeader name := by
    intro name
    rw [getHeader_addFields, getHeader_addFields]
    rfl
  rwa [Refused, hg, addFields_method, setReceiveTime_method, ← addFields_method r fs] at h

/-- A bad header section behind what an iteration consumes is one before it. -/
theorem BadHead.of_parseIter {s s' : HttpContext × Bytes} (hi : parseIter t s = .next s')
    (h : BadHead s'.1 s'.2) : BadHead s.1 s.2 := by
  obtain ⟨fs, line, rest, hline, hcolon, h⟩ := h
  cases iteration_of_eq hi with
  | @requestLine _ _ _ rest' hb hl =>
    obtain ⟨l, rfl⟩ := exists_requestLine (isLine_of_findCRLF hb) hl
    rw [processRequestLine_text] at h
    rcases h with ⟨-, hrest, hr⟩ | ⟨_, hs, -⟩
    · obtain rfl : rest' = _ := hrest
      exact ⟨fs, line, rest, hline, hcolon,
        .inr ⟨l, rfl, eq_of_findCRLF hb, hr.of_addFields_setReceiveTime⟩⟩
    · cases hs
  | @header _ _ l rest' key value hb hl =>
    obtain ⟨rfl, hkey⟩ := breakOn_singleton_iff.1 hl
    rcases h with ⟨-, hrest, hr⟩ | ⟨_, hs, -⟩
    · obtain rfl : rest' = _ := hrest
      refine ⟨⟨key, value, hkey, isLine_of_findCRLF hb⟩ :: fs, line, rest, hline, hcolon,
        .inl ⟨rfl, ?_, hr⟩⟩
      rw [lines_cons_append]
      exact eq_of_findCRLF hb
    · cases hs
  | endBody hb hm hv hpos => rcases h with ⟨hs, -⟩ | ⟨_, hs, -⟩ <;> cases hs
  | gotAll => rcases h with ⟨hs, -⟩ | ⟨_, hs, -⟩ <;> cases hs

/-- **A request that is refused leaves the parser stuck**, unless its header section is bad. -/
theorem stuck_of_refused (hc : c.state ≠ .kGotAll) (hp : parseRequest c buf t = some p)
    (hbad : ¬ BadHead c buf) (hi : p.outcome ≠ .incomplete) (hd : p.outcome ≠ .complete) :
    Stuck p.context p.unread := by
  refine Returns.of_invariant (fun s => ¬ BadHead s.1 s.2)
    (Q := fun p => p.outcome ≠ .incomplete → p.outcome ≠ .complete → Stuck p.context p.unread)
    ((parseRequest_eq_some_iff hc).1 hp) hbad
    (fun s s' hs hnext hbad => hs (hbad.of_parseIter hnext)) (fun s p hs hstop hi hd => ?_) hi hd
  cases iteration_of_eq hstop with
  | noLine _ => exact absurd rfl hi
  | noHeader _ => exact absurd rfl hi
  | shortBody _ => exact absurd rfl hi
  | endPlain _ _ => exact absurd rfl hd
  | endZero _ _ _ _ => exact absurd rfl hd
  | body _ => exact absurd rfl hd
  | badRequestLine hb hl =>
    exact .requestLine hb (processRequestLine_eq_false (isLine_of_findCRLF hb) hl)
  | endBadLength hb hm hc hv => exact .contentLength hb hm hc hv
  | badHeader hb hl hne =>
    exact absurd ⟨[], _, _, isLine_of_findCRLF hb, breakOn_singleton_none.1 hl,
      .inl ⟨rfl, eq_of_findCRLF hb, .inl hne⟩⟩ hs
  | endNoLength hb hm hc =>
    exact absurd ⟨[], [], _, rfl, by simp, .inl ⟨rfl, eq_of_findCRLF hb, .inr ⟨hm, hc⟩⟩⟩ hs

/-- The field `Content-Length: 0`. -/
def contentLengthZero : Field :=
  ⟨bytes "Content-Length", bytes " 0", colon_not_mem_contentLength, by decide⟩

/-- With a Content-Length of zero and a blank line, any header section is complete. -/
theorem exists_complete (r : HttpRequest) (t : Timestamp) :
    ∃ q, HttpContext.parseRequest ⟨.kExpectHeaders, r⟩ (lines [contentLengthZero] ++ crlf) t =
      some q ∧ q.outcome = .complete := by
  have hblank : findCRLF crlf = some ([], []) := findCRLF_blank []
  have hv : stoi ((r.addFields [contentLengthZero]).getHeader (bytes "Content-Length")) =
      .ok 0 := by
    rw [getHeader_addFields]
    rfl
  have hreads : ∀ q, parseIter t (⟨.kExpectHeaders, r.addFields [contentLengthZero]⟩, crlf) =
      .stop q →
      HttpContext.parseRequest ⟨.kExpectHeaders, r⟩ (lines [contentLengthZero] ++ crlf) t =
        some q := fun q hi =>
    (parseRequest_eq_some_iff_reads (by simp)).2 ((reads_fields _).2 (.stop hi))
  by_cases hm : (r.addFields [contentLengthZero]).method = .kPost ∨
      (r.addFields [contentLengthZero]).method = .kPut
  · exact ⟨_, hreads _ (Iteration.endZero hblank hm hv rfl).parseIter_eq, rfl⟩
  · exact ⟨_, hreads _ (Iteration.endPlain hblank hm).parseIter_eq, rfl⟩

/-- **Behind a bad header section the parser reads on**: the line is consumed, and when nothing
stands behind it yet, what comes next can still complete the request. -/
theorem BadHead.reads_on (h : BadHead c buf) (t : Timestamp) :
    ∃ r rest, HttpContext.parseRequest c buf t = some ⟨.ok false, ⟨.kExpectHeaders, r⟩, rest⟩ ∧
      (rest = [] → ∃ q, HttpContext.parseRequest ⟨.kExpectHeaders, r⟩
        (rest ++ (lines [contentLengthZero] ++ crlf)) t = some q ∧ q.outcome = .complete) := by
  obtain ⟨fs, line, rest, hline, hcolon, h⟩ := h
  have hb : findCRLF (line ++ (crlf ++ rest)) = some (line, rest) := findCRLF_line hline rest
  have hrefused : ∀ r, Refused r line → (httpReader t).Reads ⟨.kExpectHeaders, r⟩
      (line ++ (crlf ++ rest)) ⟨.ok false, ⟨.kExpectHeaders, r⟩, rest⟩ := by
    intro r hr
    by_cases hne : line = []
    · subst hne
      obtain ⟨hm, hc⟩ := hr.resolve_left (by simp)
      exact .stop (Iteration.endNoLength (t := t) hb hm hc).parseIter_eq
    · have hb' := breakOn_singleton_none.2 hcolon
      exact .stop (Iteration.badHeader (t := t) hb hb' hne).parseIter_eq
  have hnext : ∀ r, rest = [] → ∃ q, HttpContext.parseRequest ⟨.kExpectHeaders, r⟩
      (rest ++ (lines [contentLengthZero] ++ crlf)) t = some q ∧ q.outcome = .complete := by
    rintro r rfl
    exact exists_complete r t
  obtain ⟨state, r₀⟩ := c
  rcases h with ⟨hstate, rfl, hr⟩ | ⟨l, hstate, rfl, hr⟩
  · obtain rfl : state = .kExpectHeaders := hstate
    have hreads := (reads_fields fs).2 (hrefused _ hr)
    exact ⟨_, rest, (parseRequest_eq_some_iff_reads (by simp)).2 hreads, hnext _⟩
  · obtain rfl : state = .kExpectRequestLine := hstate
    have hr' : Refused (((l.fill r₀).setReceiveTime t).addFields fs) line := by
      have h : Refused ((((l.fill r₀).setReceiveTime t).setReceiveTime
        (l.fill r₀).receiveTime).addFields fs) line := hr
      exact h.of_addFields_setReceiveTime
    have hreads := (reads_line_fields l fs).2 (hrefused _ hr')
    exact ⟨_, rest, (parseRequest_eq_some_iff_reads (by simp)).2 hreads, hnext _⟩

/-! ## Runs -/

namespace Action

def isCall : Action → Bool
  | .called _ => true
  | _ => false

def isBadRequest : Action → Bool
  | .badRequest _ => true
  | _ => false

end Action

/-- Once 400 has been answered, the callback is not invoked. -/
def FailStop (log : List Action) : Prop :=
  log.Pairwise fun a b => a.isBadRequest → ¬ b.isCall

instance (log : List Action) : Decidable (FailStop log) :=
  inferInstanceAs (Decidable (log.Pairwise fun a b => a.isBadRequest → ¬ b.isCall))

/-- What a run without bad header sections preserves: the callback was not invoked after an answer
of 400, and behind such an answer the parser is stuck. -/
structure FailStopInv {κ : Type*} (c : Connection κ) : Prop where
  failStop : FailStop c.log
  stuck : (∃ a ∈ c.log, a.isBadRequest) → Stuck c.context c.input

theorem failStop_append {log log' : List Action} (h : FailStop log) (h' : FailStop log')
    (hcall : (∃ a ∈ log, a.isBadRequest) → ∀ b ∈ log', ¬ b.isCall) : FailStop (log ++ log') :=
  List.pairwise_append.2 ⟨h, h', fun a ha b hb hbad => hcall ⟨a, ha, hbad⟩ b hb⟩

theorem not_isBadRequest_of_mem_reply {req : HttpRequest} {response : HttpResponse} {a : Action}
    (h : a ∈ .called req :: reply req response) : ¬ a.isBadRequest := by
  unfold reply at h
  split at h
  · simp only [List.mem_cons, List.not_mem_nil, or_false] at h
    rcases h with rfl | rfl | rfl <;> simp [Action.isBadRequest]
  · simp only [List.mem_cons, List.not_mem_nil, or_false] at h
    rcases h with rfl | rfl <;> simp [Action.isBadRequest]

theorem failStop_of_no_bad {log : List Action} (h : ∀ a ∈ log, ¬ a.isBadRequest) : FailStop log :=
  List.pairwise_of_forall_mem_list fun a ha _ _ hbad => absurd hbad (h a ha)

variable {κ : Type*} {httpCallback : HttpCallback κ}

/-- **One event on a buffer without a bad header section preserves the invariant.** -/
theorem FailStopInv.step {c c' : Connection κ} {data : Bytes} {t : Timestamp}
    (h : FailStopInv c) (hbad : ¬ BadHead c.context (c.input ++ data))
    (hon : onMessage httpCallback c (data, t) = some c') : FailStopInv c' := by
  have hstuck := fun hlog {p} hp => (h.stuck hlog).parseRequest (t := t) (p := p) data hp
  cases handled hon with
  | waits hp ho => exact ⟨h.failStop, fun hlog => absurd ho (hstuck hlog hp).1⟩
  | @refused p hp hi hd =>
    have hc := state_ne_of_parseRequest hp
    refine ⟨failStop_append h.failStop ?_ fun _ b hb => ?_, fun _ => ?_⟩
    · simp [FailStop, Action.isCall]
    · simp only [List.mem_cons, List.not_mem_nil, or_false] at hb
      rcases hb with rfl | rfl <;> simp [Action.isCall]
    · exact stuck_of_refused hc hp hbad hi hd
  | @served p response app hp ho hcb =>
    have hno : ¬ ∃ a ∈ c.log, a.isBadRequest := fun hlog => (hstuck hlog hp).2.1 ho
    refine ⟨failStop_append h.failStop (failStop_of_no_bad fun a ha =>
      not_isBadRequest_of_mem_reply ha) fun hlog => absurd hlog hno, fun ⟨a, ha, hb⟩ => ?_⟩
    rcases List.mem_append.1 ha with ha | ha
    · exact absurd ⟨a, ha, hb⟩ hno
    · exact absurd hb (not_isBadRequest_of_mem_reply ha)
  | @failed p e app hp ho hcb =>
    have hno : ¬ ∃ a ∈ c.log, a.isBadRequest := fun hlog => (hstuck hlog hp).2.1 ho
    obtain ⟨p', ⟨state, r⟩, unread⟩ := p
    obtain rfl : state = .kGotAll := (Left.outcome_eq_complete.1 ho).2
    refine ⟨?_, fun _ => .gotAll⟩
    simp only [badRequest, Connection.record, List.append_assoc]
    refine failStop_append h.failStop ?_ fun hlog => absurd hlog hno
    simp [FailStop, Action.isCall, Action.isBadRequest]

/-- **Fail-stop.** In a run of a connection whose events never meet a bad header section, in every
state reached, the callback has not been invoked after 400 was answered. -/
theorem failStop_of_no_badHead {c : Connection κ}
    (h : Reaches (HttpServer.system httpCallback)
      (fun c event => ¬ BadHead c.context (c.input ++ event.1)) c) : FailStop c.log := by
  refine (h.invariant (I := FailStopInv) ?_ ?_).failStop
  · rintro _ ⟨app, rfl⟩
    exact ⟨.nil, fun ⟨_, ha, _⟩ => by cases ha⟩
  · rintro c ⟨data, t⟩ c' hI hbad hon
    exact hI.step hbad hon

theorem not_badHead_of_badRequestLine {r : HttpRequest} {line rest : Bytes}
    (hb : findCRLF buf = some (line, rest)) (hl : (processRequestLine r line).1 = false) :
    ¬ BadHead ⟨.kExpectRequestLine, r⟩ buf := by
  rintro ⟨fs, bad, after, -, -, ⟨hs, -⟩ | ⟨l, -, rfl, -⟩⟩
  · cases hs
  · have hl' : findCRLF (l.text ++ (crlf ++ (lines fs ++ (bad ++ (crlf ++ after))))) =
        some (l.text, lines fs ++ (bad ++ (crlf ++ after))) := findCRLF_line l.isLine _
    rw [hl', Option.some.injEq] at hb
    obtain ⟨rfl, -⟩ := Prod.mk.inj hb
    rw [processRequestLine_text] at hl
    cases hl

/-- A request line that is no request line is answered 400, and so is what follows. -/
theorem failStop_of_no_badHead_badLine :
    ∃ c : Connection Unit, Reaches (HttpServer.system (handleRequest ⟨[], Router.empty⟩))
        (fun c event => ¬ BadHead c.context (c.input ++ event.1)) c ∧
      (∃ a ∈ c.log, a.isBadRequest) ∧ FailStop c.log := by
  have hline : findCRLF (bytes "bad\r\n") = some (bytes "bad", []) := by decide
  have hrun : Reaches (HttpServer.system (handleRequest ⟨[], Router.empty⟩))
      (fun c event => ¬ BadHead c.context (c.input ++ event.1))
      (badRequest (Connection.read (Connection.new ())
        ⟨.ok false, HttpContext.new, bytes "bad\r\n"⟩)) :=
    .step (.init ⟨(), rfl⟩) (e := (bytes "bad\r\n", 1))
      (not_badHead_of_badRequestLine hline (by decide)) rfl
  exact ⟨_, hrun, ⟨_, List.mem_cons_self, rfl⟩, failStop_of_no_badHead hrun⟩

/-- A header line without a colon is answered 400, and the blank line that comes next completes the
request: it is handed to the callback. -/
theorem called_after_badRequest :
    ∃ c, onMessages (handleRequest ⟨[], Router.empty⟩) (Connection.new ())
        [(bytes "GET / HTTP/1.1\r\nbad\r\n", 1), (bytes "\r\n", 2)] = some c ∧
      c.log.map Action.isBadRequest = [true, false, false, false, false] ∧
      c.log.map Action.isCall = [false, false, true, false, false] ∧
      c.calls.map HttpRequest.path = [bytes "/"] ∧ ¬ FailStop c.log :=
  ⟨_, rfl, rfl, rfl, rfl, by decide⟩

end KamaHttp
