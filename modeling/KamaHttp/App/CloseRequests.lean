import KamaHttp.App.Guards
import KamaHttp.Http.CorsMiddleware
import KamaHttp.Http.Exits

/-!
# Requests that ask for the connection to be closed

`onRequest` decides before it calls anything whether the connection is to be closed, and keeps that
in the response. A hook or handler that throws a response puts another one in its place.

* `closes_of_leavesClose`: a request that asks for it has the connection closed, if every part that
  is called on its way leaves the decision alone.
* `closes_of_respects`: middlewares and handlers that always do honour it, in any chain and with any
  routes.
* `not_closes_of_limited`, `not_closes_of_blocked`: a request that is turned down does not have it
  closed.
-/

namespace KamaHttp

open HttpServer MiddlewareChain

variable {σ : Type*} {server : HttpServer σ} {req : HttpRequest} {w : σ}

/-- A request that asks for it has the connection closed if the response that is left has the flag,
or `onRequest` sets it again. -/
theorem closes_iff_closeConnection (hclose : close req = true) {c : Connection σ}
    {r : HttpResponse} (hr : (server.handleRequest req (HttpResponse.new true) c.app).1 = .ok r) :
    Closes server.handleRequest req c ↔ Downgrades req ∨ r.closeConnection := by
  have h : server.handleRequest req (HttpResponse.new (close req)) c.app =
      (.ok r, (server.handleRequest req (HttpResponse.new true) c.app).2) := by
    rw [hclose, ← hr]
  rw [closes_iff_of_ok h, closeConnection_finish]
  simp

/-- Every part that is called on the way of the request leaves the decision to close alone: what a
hook `before` throws has the flag, and the handler and each hook `after`, called with a response
that has it, leave it there and throw only responses that have it. -/
structure LeavesClose (server : HttpServer σ) (req : HttpRequest) (w : σ) : Prop where
  before : ∀ m req' w' r w₁, CallsBefore server.middlewares req w m req' w' →
    m.before req' w' = (.error (.response r), w₁) → r.closeConnection
  handler : ∀ req' w', processBefore server.middlewares req w = (.ok req', w') →
    (server.router.route req' (HttpResponse.new true) w').2.1.Leads
      (fun r => r.closeConnection) fun r => r.closeConnection
  after : ∀ given w' m r w₁, Given server req (HttpResponse.new true) w given w' →
    CallsAfter server.middlewares.reverse given w' m r w₁ → r.closeConnection →
    (m.after r w₁).1.Leads (fun r => r.closeConnection) fun r => r.closeConnection

/-- The response that is left has the flag. -/
theorem LeavesClose.closeConnection (h : LeavesClose server req w) :
    ∀ r, (server.handleRequest req (HttpResponse.new true) w).1 = .ok r → r.closeConnection := by
  refine (handleRequest_leads_iff fun _ _ => Iff.rfl).2
    ⟨fun m req' w' x w₁ hcall hm => ?_, fun req' w' hb => ?_, fun given w' hgiven => ?_⟩
  · cases x with
    | response r => exact h.before m req' w' r w₁ hcall hm
    | exception e => rfl
  · exact (h.handler req' w' hb).mono fun _ _ => trivial
  · refine leads_runAfter (fun m r w₁ => h.after given w' m r w₁ hgiven) ?_
    cases hgiven with
    | @mk req' w₁ found left w₂ hb hr =>
      have hroute := h.handler _ _ hb
      rw [hr] at hroute
      cases found
      · rfl
      · exact hroute

/-- The hooks respect the decision to close, in every state. -/
abbrev Middleware.RespectsClose (m : Middleware σ) : Prop :=
  m.Respects (fun _ => True) (fun r => r.closeConnection) fun _ => True

abbrev Handler.RespectsClose (f : Handler σ) : Prop :=
  Handler.Respects (fun _ => True) (fun r => r.closeConnection) (fun _ => True) f

/-- The middleware for other origins respects it: what it throws is a response that closes. -/
theorem corsMiddleware_respectsClose (config : CorsConfig) :
    (corsMiddleware config : Middleware σ).RespectsClose :=
  corsMiddleware_respects
    (fun request _ _ => CorsMiddleware.closeConnection_handlePreflightRequest config request _)
    (fun _ _ _ h => (CorsMiddleware.closeConnection_addCorsHeaders ..).trans h)

/-- **When the wish to close is honoured.** Whatever the chain, the routes and the state: a request
that asks for the connection to be closed is told so and has it shut down if it is one of HTTP/1.0
that does not ask to keep it, or every part that is called on its way leaves the decision alone. -/
theorem closes_of_leavesClose {c : Connection σ} (hclose : close req = true)
    (h : Downgrades req ∨ LeavesClose server req c.app) :
    Closes server.handleRequest req c := by
  obtain ⟨r, app, hr⟩ := server.handleRequest_eq_ok req (HttpResponse.new true) c.app
  have hr : (server.handleRequest req (HttpResponse.new true) c.app).1 = .ok r := by rw [hr]
  exact (closes_iff_closeConnection hclose hr).2 (h.imp id fun h => h.closeConnection r hr)

/-- A request of HTTP/1.1 that asks for the connection to be closed. -/
def closeRequest : HttpRequest :=
  { HttpRequest.new with
    method := .kGet
    path := bytes "/healthz"
    version := bytes "HTTP/1.1"
    headers := (∅ : StringMap).insert (bytes "Connection") (bytes "close") }

def freeLimiter : RateLimitMiddleware Unit := ⟨openLimiter, true⟩

theorem freeLimiter_before (request : HttpRequest) (w : Metrics × Unit) :
    freeLimiter.middleware.before request w = (.ok request, w) := rfl

/-- A limiter on each side of the middleware for other origins, and a handler. -/
def freeServer : HttpServer (Metrics × Unit) :=
  ⟨[freeLimiter.middleware, corsMiddleware .defaultConfig, freeLimiter.middleware],
    { Router.empty with handlers := fun _ _ => some fun _ resp w =>
      (.returns ((resp.setStatusCode 200).setBody (bytes "ok")), w) }⟩

theorem mem_freeServer {m : Middleware (Metrics × Unit)} (h : m ∈ freeServer.middlewares) :
    m = freeLimiter.middleware ∨ m = corsMiddleware .defaultConfig := by
  simp only [freeServer, List.mem_cons, List.not_mem_nil, or_false] at h
  tauto

theorem leavesClose_freeServer (req : HttpRequest) (w : Metrics × Unit) :
    LeavesClose freeServer req w where
  before m req' w' r w₁ hcall hm := by
    rcases mem_freeServer hcall.mem with rfl | rfl
    · rw [freeLimiter_before] at hm
      cases hm
    · exact ((corsMiddleware_respectsClose _).before req' w' trivial trivial).2.2 r (by rw [hm])
  handler _ _ _ := rfl
  after given w' m r w₁ _ hcall hr := by
    rcases mem_freeServer (List.mem_reverse.1 hcall.mem) with rfl | rfl
    · exact hr
    · exact ((corsMiddleware_respectsClose _).after r w₁ hr trivial).leads

theorem closes_of_leavesClose_freeServer :
    close closeRequest = true ∧ ¬ Downgrades closeRequest ∧
      Closes freeServer.handleRequest closeRequest (Connection.new ({}, ())) :=
  ⟨by decide +kernel, by decide +kernel,
    closes_of_leavesClose (by decide +kernel) (.inr (leavesClose_freeServer _ _))⟩

/-- A limiter that allows nothing. -/
def closedLimiter : RateLimitMiddleware Unit := ⟨⟨fun _ t => (false, t)⟩, true⟩

/-- The limiter turns the request down: the client is told that the connection is kept, and nothing
is shut down. -/
theorem limited_request_kept :
    let server : HttpServer (Metrics × Unit) := ⟨[closedLimiter.middleware], Router.empty⟩
    let c := Connection.new (({}, ()) : Metrics × Unit)
    close closeRequest = true ∧
      (onRequest server.handleRequest closeRequest c).2.log = [.called closeRequest,
        .replied (bytes "HTTP/1.1 403 Forbidden\r\nConnection: Keep-Alive\r\n" ++
          bytes "Content-Length: 12\r\nRetry-After: 1\r\n\r\nrate limited")] ∧
      ¬ Closes server.handleRequest closeRequest c := by
  intro server c
  have hlog : (onRequest server.handleRequest closeRequest c).2.log = [.called closeRequest,
      .replied (bytes "HTTP/1.1 403 Forbidden\r\nConnection: Keep-Alive\r\n" ++
        bytes "Content-Length: 12\r\nRetry-After: 1\r\n\r\nrate limited")] := by
    decide +kernel
  refine ⟨by decide +kernel, hlog, ?_⟩
  rintro ⟨text, -, h⟩
  rw [hlog] at h
  simp [c, Connection.new] at h

/-! ## Components that leave the decision alone -/

/-- **Middlewares and handlers that respect the wish to close honour it**, in any chain, with any
routes, and on every path. -/
theorem closes_of_respects (hms : ∀ m ∈ server.middlewares, m.RespectsClose)
    (hf : ∀ f, server.router.Registers f → Handler.RespectsClose f) (hclose : close req = true)
    (c : Connection σ) : Closes server.handleRequest req c := by
  obtain ⟨r, app, h⟩ := server.handleRequest_eq_ok req (HttpResponse.new true) c.app
  have hr : r.closeConnection = true :=
    (handleRequest_respects hms hf (fun _ _ _ => trivial) (fun _ _ hr => hr) (fun _ _ => rfl)
      trivial rfl trivial).2 r (by rw [h])
  exact (closes_iff_closeConnection hclose (by rw [h])).2 (.inr hr)

/-! ## Components that do not -/

/-- A response without the flag that a hook throws takes the place of the one with the decision. -/
theorem not_closes_of_throws (hclose : close req = true) (hdown : ¬ Downgrades req)
    {c : Connection σ} {r : HttpResponse}
    (h : Throws server req (HttpResponse.new true) c.app r) (hr : r.closeConnection = false) :
    ¬ Closes server.handleRequest req c := by
  rw [closes_iff_closeConnection hclose (handleRequest_of_throws h), hr]
  simp [hdown]

/-- **A request that the limiter turns down is answered as if it had not asked**: in HTTP/1.1 the
client is told that the connection is kept, and it is. -/
theorem not_closes_of_limited {τ : Type*} {server : HttpServer (Metrics × τ)}
    {m : RateLimitMiddleware τ} {front back : List (Middleware (Metrics × τ))}
    (hchain : server.middlewares = front ++ m.middleware :: back) {req req' : HttpRequest}
    {c : Connection (Metrics × τ)} {w : Metrics × τ} (hclose : close req = true)
    (hdown : ¬ Downgrades req) (hfront : processBefore front req c.app = (.ok req', w))
    (hlimited : (m.limiter.allow (RateLimitMiddleware.clientOf req') w.2).1 = false) :
    ¬ Closes server.handleRequest req c := by
  have hm := m.before_of_limited hlimited
  exact not_closes_of_throws hclose hdown (throws_of_before hchain hfront hm) rfl

/-- **So is a request that is on the blacklist.** -/
theorem not_closes_of_blocked {m : BlacklistMiddleware} {front back : List (Middleware σ)}
    (hchain : server.middlewares = front ++ m.middleware :: back) {req' : HttpRequest}
    {c : Connection σ} {w : σ} (hclose : close req = true) (hdown : ¬ Downgrades req)
    (hfront : processBefore front req c.app = (.ok req', w)) (hblocked : m.blocks req' = true) :
    ¬ Closes server.handleRequest req c := by
  have hm := m.before_of_blocked hblocked w
  exact not_closes_of_throws hclose hdown (throws_of_before hchain hfront hm) rfl

end KamaHttp
