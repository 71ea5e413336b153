import KamaHttp.Foundations.System
import KamaHttp.Http.Segmentation
import KamaHttp.Http.Router

/-!
# The server

What `HttpServer.cpp` does with the bytes that arrive on one connection without SSL. An event hands
`onMessage` the bytes behind those that are still in the connection's input buffer; it parses once,
answers a request that is complete through `httpCallback_`, and answers 400 to one that is not
accepted and to every exception. After a shutdown the connection still receives.

The callback of the constructor is `handleRequest`: the middlewares before, the router, the
middlewares after.

* `handled`: what one event does, exit by exit (`Handled`).
* `handleRequest_eq_ok`: `handleRequest` never throws.
-/

namespace KamaHttp

open HttpContext

/-- What a connection is seen to do: the callback is invoked, a response of `onRequest` or of
`onMessage` is sent, the connection is shut down. -/
inductive Action
  | called (req : HttpRequest)
  | replied (text : Bytes)
  | badRequest (text : Bytes)
  | shutdown
  deriving DecidableEq

/-- A connection: its context, the unread bytes of its input buffer, the state `κ` behind the
callback and what has been done so far. -/
structure Connection (κ : Type*) where
  context : HttpContext
  input : Bytes
  app : κ
  log : List Action

/-- `httpCallback_` on a request and the response it fills; it may throw. -/
abbrev HttpCallback (κ : Type*) :=
  HttpRequest → HttpResponse → κ → Except StdException HttpResponse × κ

namespace Connection

variable {κ : Type*}

/-- `onConnection`: a connection begins with a fresh context. -/
def new (app : κ) : Connection κ := ⟨HttpContext.new, [], app, []⟩

def record (c : Connection κ) (actions : List Action) : Connection κ :=
  { c with log := c.log ++ actions }

/-- The context and the buffer as `parseRequest` leaves them. -/
def read (c : Connection κ) (p : ParseResult) : Connection κ :=
  { c with context := p.context, input := p.unread }

@[simp] theorem read_context (c : Connection κ) (p : ParseResult) :
    (c.read p).context = p.context := rfl

/-- The requests that were handed to the callback. -/
def calls (c : Connection κ) : List HttpRequest :=
  c.log.filterMap fun
    | .called req => some req
    | _ => none

end Connection

namespace HttpServer

variable {κ : Type*}

/-- The reasons `onRequest` knows. -/
def reason (code : ℤ) : Bytes :=
  if code = 200 then bytes "OK"
  else if code = 301 then bytes "Moved Permanently"
  else if code = 302 then bytes "Found"
  else if code = 400 then bytes "Bad Request"
  else if code = 403 then bytes "Forbidden"
  else if code = 404 then bytes "Not Found"
  else if code = 500 then bytes "Internal Server Error"
  else bytes "OK"

/-- Whether the request asks for the connection to be closed. -/
def close (req : HttpRequest) : Bool :=
  req.getHeader (bytes "Connection") = bytes "close" ||
    (req.version = bytes "HTTP/1.0" && req.getHeader (bytes "Connection") ≠ bytes "Keep-Alive")

/-- `onRequest`, between the callback and the sending: length, connection and status line. -/
def finish (req : HttpRequest) (response : HttpResponse) : HttpResponse :=
  let ver :=
    if req.version ≠ bytes "HTTP/1.0" ∧ req.version ≠ bytes "HTTP/1.1" then bytes "HTTP/1.1"
    else req.version
  let response :=
    if response.getHeader (bytes "Content-Length") = [] ∧
        response.getHeader (bytes "Transfer-Encoding") = [] then
      response.addHeader (bytes "Content-Length") (decimal response.body.length)
    else response
  let response :=
    if req.version = bytes "HTTP/1.0" ∧
        req.getHeader (bytes "Connection") ≠ bytes "Keep-Alive" then
      let response := response.setCloseConnection true
      if response.getHeader (bytes "Connection") = [] then
        response.addHeader (bytes "Connection") (bytes "close")
      else response
    else response
  response.setStatusLine ver response.statusCode (reason response.statusCode)

/-- `onRequest`: the callback is invoked and its response sent. An exception of the callback is
passed on. -/
def onRequest (httpCallback : HttpCallback κ) (req : HttpRequest) (c : Connection κ) :
    Option StdException × Connection κ :=
  let c := c.record [.called req]
  match httpCallback req (HttpResponse.new (close req)) c.app with
  | (.error e, app) => (some e, { c with app := app })
  | (.ok response, app) =>
    let response := finish req response
    let c := { c with app := app }.record [.replied response.appendToBuffer]
    (none, if response.closeConnection then c.record [.shutdown] else c)

/-- The answer to a request that is not accepted. -/
def badRequest (c : Connection κ) : Connection κ :=
  c.record [.badRequest (bytes "HTTP/1.1 400 Bad Request\r\n\r\n"), .shutdown]

/-- `onMessage`, or nothing when the call does not return. -/
def onMessage (httpCallback : HttpCallback κ) (c : Connection κ) :
    Bytes × Timestamp → Option (Connection κ)
  | (data, receiveTime) =>
    match parseRequest c.context (c.input ++ data) receiveTime with
    | none => none
    | some p =>
      let c := c.read p
      match p.ret with
      | .raised _ => some (badRequest c)
      | .ok b =>
        let c := if b then c else badRequest c
        if c.context.gotAll then
          match onRequest httpCallback c.context.request c with
          | (none, c) => some { c with context := c.context.reset }
          | (some _, c) => some (badRequest c)
        else some c

/-- The runs of a connection, event by event. -/
def system (httpCallback : HttpCallback κ) : System (Connection κ) (Bytes × Timestamp) where
  init c := ∃ app, c = Connection.new app
  step c e c' := onMessage httpCallback c e = some c'

/-- The events one after the other, or nothing when one of them does not return. -/
def onMessages (httpCallback : HttpCallback κ) (c : Connection κ)
    (events : List (Bytes × Timestamp)) : Option (Connection κ) :=
  events.foldlM (onMessage httpCallback) c

/-! ## One event -/

/-- What is sent and done behind a response. -/
def reply (req : HttpRequest) (response : HttpResponse) : List Action :=
  .replied (finish req response).appendToBuffer ::
    if (finish req response).closeConnection then [.shutdown] else []

/-- The exits of `onMessage`. -/
inductive Handled (httpCallback : HttpCallback κ) (c : Connection κ) (data : Bytes)
    (t : Timestamp) : Connection κ → Prop
  | waits {p} (hp : parseRequest c.context (c.input ++ data) t = some p)
      (ho : p.outcome = .incomplete) : Handled httpCallback c data t (c.read p)
  | refused {p} (hp : parseRequest c.context (c.input ++ data) t = some p)
      (hi : p.outcome ≠ .incomplete) (hc : p.outcome ≠ .complete) :
      Handled httpCallback c data t (badRequest (c.read p))
  | served {p response app} (hp : parseRequest c.context (c.input ++ data) t = some p)
      (ho : p.outcome = .complete)
      (hcb : httpCallback p.context.request (HttpResponse.new (close p.context.request)) c.app =
        (.ok response, app)) :
      Handled httpCallback c data t
        ⟨p.context.reset, p.unread, app,
          c.log ++ .called p.context.request :: reply p.context.request response⟩
  | failed {p e app} (hp : parseRequest c.context (c.input ++ data) t = some p)
      (ho : p.outcome = .complete)
      (hcb : httpCallback p.context.request (HttpResponse.new (close p.context.request)) c.app =
        (.error e, app)) :
      Handled httpCallback c data t
        (badRequest ⟨p.context, p.unread, app, c.log ++ [.called p.context.request]⟩)

/-- Only a request that is complete leaves the parser in `kGotAll`. -/
theorem state_ne_of_outcome_ne {c : HttpContext} {buf : Bytes} {t : Timestamp} {p : ParseResult}
    (h : parseRequest c buf t = some p) (hp : p.outcome ≠ .complete) :
    p.context.state ≠ .kGotAll := by
  have hc := state_ne_of_parseRequest h
  refine Loop.Returns.of_invariant (fun s => s.1.state ≠ .kGotAll)
    (Q := fun p => p.outcome ≠ .complete → p.context.state ≠ .kGotAll)
    ((parseRequest_eq_some_iff hc).1 h) hc (fun s s' hs hi => (parseIter_next hs hi).1)
    (fun s p hs hi hp => ?_) hp
  cases iteration_of_eq hi <;> simp_all [Left.outcome]

/-- `onRequest` with a callback that returns. -/
theorem onRequest_of_ok {httpCallback : HttpCallback κ} {req : HttpRequest} {c : Connection κ}
    {response : HttpResponse} {app : κ}
    (h : httpCallback req (HttpResponse.new (close req)) c.app = (.ok response, app)) :
    onRequest httpCallback req c =
      (none, ⟨c.context, c.input, app, c.log ++ .called req :: reply req response⟩) := by
  have h' : httpCallback req (HttpResponse.new (close req)) (c.record [.called req]).app =
      (.ok response, app) := h
  simp only [onRequest, h', reply]
  split <;> simp [Connection.record]

/-- `onRequest` with a callback that throws. -/
theorem onRequest_of_error {httpCallback : HttpCallback κ} {req : HttpRequest} {c : Connection κ}
    {e : StdException} {app : κ}
    (h : httpCallback req (HttpResponse.new (close req)) c.app = (.error e, app)) :
    onRequest httpCallback req c =
      (some e, ⟨c.context, c.input, app, c.log ++ [.called req]⟩) := by
  have h' : httpCallback req (HttpResponse.new (close req)) (c.record [.called req]).app =
      (.error e, app) := h
  simp only [onRequest, h']
  rfl

/-- What one event does. -/
theorem handled {httpCallback : HttpCallback κ} {c c' : Connection κ} {data : Bytes}
    {t : Timestamp} (h : onMessage httpCallback c (data, t) = some c') :
    Handled httpCallback c data t c' := by
  simp only [onMessage] at h
  rcases hp : parseRequest c.context (c.input ++ data) t with _ | p
  · simp [hp] at h
  rcases hret : p.ret with b | e
  · cases b with
    | false =>
      have ho : p.outcome = .rejected := by simp [Left.outcome, hret]
      have hstate := state_ne_of_outcome_ne hp (by simp [ho])
      have hgot : (badRequest (c.read p)).context.gotAll = false := decide_eq_false hstate
      simp only [hp, hret, Bool.false_eq_true, if_false, hgot, Option.some.injEq] at h
      exact h ▸ .refused hp (by simp [ho]) (by simp [ho])
    | true =>
      by_cases hstate : p.context.state = .kGotAll
      · have ho : p.outcome = .complete := Left.outcome_eq_complete.2 ⟨hret, hstate⟩
        have hgot : p.context.gotAll = true := decide_eq_true hstate
        simp only [hp, hret, if_true, Connection.read_context, hgot] at h
        rcases hcb : httpCallback p.context.request (HttpResponse.new (close p.context.request))
          c.app with ⟨e | response, app⟩
        · rw [onRequest_of_error (c := c.read p) hcb, Option.some.injEq] at h
          exact h ▸ .failed hp ho hcb
        · rw [onRequest_of_ok (c := c.read p) hcb, Option.some.injEq] at h
          exact h ▸ .served hp ho hcb
      · have ho : p.outcome = .incomplete := Left.outcome_eq_incomplete.2 ⟨hret, hstate⟩
        have hgot : (c.read p).context.gotAll = false := decide_eq_false hstate
        simp only [hp, hret, if_true, hgot, Bool.false_eq_true, if_false, Option.some.injEq] at h
        exact h ▸ .waits hp ho
  · have ho : p.outcome = .exception e := by simp [Left.outcome, hret]
    simp only [hp, hret, Option.some.injEq] at h
    exact h ▸ .refused hp (by simp [ho]) (by simp [ho])

theorem onMessages_concat (httpCallback : HttpCallback κ) (c : Connection κ)
    (events : List (Bytes × Timestamp)) (event : Bytes × Timestamp) :
    onMessages httpCallback c (events ++ [event]) =
      (onMessages httpCallback c events).bind fun c => onMessage httpCallback c event := by
  simp only [onMessages, List.foldlM_append, List.foldlM_cons, List.foldlM_nil, bind_pure]
  rfl

/-- An event on a connection whose parser has not stopped in `kGotAll` returns. -/
theorem exists_onMessage (httpCallback : HttpCallback κ) {c : Connection κ}
    (hc : c.context.state ≠ .kGotAll) (data : Bytes) (t : Timestamp) :
    ∃ c', onMessage httpCallback c (data, t) = some c' := by
  obtain ⟨p, hp⟩ := exists_parseRequest hc (c.input ++ data) t
  rw [← Option.isSome_iff_exists]
  simp only [onMessage, hp]
  cases p.ret with
  | raised e => rfl
  | ok b =>
    dsimp only
    generalize (if b then c.read p else badRequest (c.read p)) = c'
    by_cases hgot : c'.context.gotAll = true
    · simp only [hgot, if_true]
      split <;> rfl
    · simp only [hgot]
      rfl

end HttpServer

/-! ## The callback of the server -/

/-- What `handleRequest` uses of the server. -/
structure HttpServer (σ : Type*) where
  middlewares : List (Middleware σ)
  router : Router σ

namespace HttpServer

open MiddlewareChain

variable {σ : Type*}

/-- The catch clauses of `handleRequest`: a thrown response is the answer, an exception gives 500
with its text. -/
def caught (resp : HttpResponse) : Thrown → HttpResponse
  | .response r => r
  | .exception e => (resp.setStatusCode 500).setBody e.what

/-- The response to a request without a route. -/
def notFound (resp : HttpResponse) : HttpResponse :=
  ((resp.setStatusCode 404).setStatusMessage (bytes "Not Found")).setCloseConnection true

/-- `handleRequest`. -/
def handleRequest (server : HttpServer σ) : HttpCallback σ := fun req resp w =>
  match processBefore server.middlewares req w with
  | (.error x, w) => (.ok (caught resp x), w)
  | (.ok req, w) =>
    match server.router.route req resp w with
    | (_, ⟨resp, some x⟩, w) => (.ok (caught resp x), w)
    | (found, ⟨resp, none⟩, w) =>
      match processAfter server.middlewares (if found then resp else notFound resp) w with
      | (⟨resp, some x⟩, w) => (.ok (caught resp x), w)
      | (⟨resp, none⟩, w) => (.ok resp, w)

/-- **`handleRequest` never throws.** -/
theorem handleRequest_eq_ok (server : HttpServer σ) (req : HttpRequest) (resp : HttpResponse)
    (w : σ) : ∃ resp' w', server.handleRequest req resp w = (.ok resp', w') := by
  unfold handleRequest
  split
  · exact ⟨_, _, rfl⟩
  · split
    · exact ⟨_, _, rfl⟩
    · split <;> exact ⟨_, _, rfl⟩

/-- What every hook and every registered function preserves, `handleRequest` preserves. -/
theorem handleRequest_preserves {server : HttpServer σ} {I : σ → Prop}
    (hms : ∀ m ∈ server.middlewares, Preserves I m)
    (hf : ∀ f, server.router.Registers f → ∀ req resp w, I w → I (f req resp w).2)
    {req : HttpRequest} {resp : HttpResponse} {w : σ} (hw : I w) :
    I (server.handleRequest req resp w).2 := by
  have hbefore := processBefore_preserves req hms hw
  unfold handleRequest
  rcases hb : processBefore server.middlewares req w with ⟨x | req', w₁⟩
  · rwa [hb] at hbefore
  rw [hb] at hbefore
  have hroute : I (server.router.route req' resp w₁).2.2 := Router.route_preserves hf hbefore
  rcases hr : server.router.route req' resp w₁ with ⟨found, ⟨resp', _ | x⟩, w₂⟩
  · rw [hr] at hroute
    have hafter := processAfter_preserves (if found then resp' else notFound resp') hms hroute
    simp only [hr]
    rcases ha : processAfter server.middlewares (if found then resp' else notFound resp') w₂ with
      ⟨⟨resp'', _ | x⟩, w₃⟩ <;> rwa [ha] at hafter
  · rw [hr] at hroute
    simpa only [hr] using hroute

end HttpServer

end KamaHttp
