import KamaHttp.App.CloseRequests

/-!
# Which responses name an origin

`CorsMiddleware` adds its headers in its hook `after`. That hook is called where a request is routed
and its handler returns, and where the hooks behind it in the chain return. Every other response
names an origin only if the part that made it put one there.

* `carriesOrigin_of_covers`: which responses name an origin.
* `reachesCors_of_carriesOrigin`: if the response names one, the way to the middleware was clear.
* `not_carriesOrigin_of_limited`, `not_carriesOrigin_of_blocked`: a request that is turned down is
  answered without an origin.
-/

namespace KamaHttp

open HttpServer MiddlewareChain CorsMiddleware

variable {σ : Type*}

/-- The response has the header `Access-Control-Allow-Origin`. -/
def CarriesOrigin (r : HttpResponse) : Prop :=
  bytes "Access-Control-Allow-Origin" ∈ r.headers

instance (r : HttpResponse) : Decidable (CarriesOrigin r) := inferInstanceAs (Decidable (_ ∈ _))

theorem CarriesOrigin.addHeader {r : HttpResponse} (h : CarriesOrigin r) (key value : Bytes) :
    CarriesOrigin (r.addHeader key value) := mem_addHeader.2 (.inr h)

theorem CarriesOrigin.setStatusCode {r : HttpResponse} (h : CarriesOrigin r)
    (code : ℤ) : CarriesOrigin (r.setStatusCode code) := by
  rw [CarriesOrigin, HttpResponse.setStatusCode_headers]
  exact h

theorem carriesOrigin_addCorsHeaders (config : CorsConfig) (r : HttpResponse) (origin : Bytes) :
    CarriesOrigin (addCorsHeaders config r origin) := by
  have horigin : CarriesOrigin (r.addHeader (bytes "Access-Control-Allow-Origin") origin) :=
    mem_addHeader.2 (.inl rfl)
  have hif : ∀ (p : Prop) [Decidable p] (r : HttpResponse) (key value : Bytes), CarriesOrigin r →
      CarriesOrigin (if p then r.addHeader key value else r) := by
    intro p _ r key value h
    split
    · exact h.addHeader key value
    · exact h
  exact (hif _ _ _ _ (hif _ _ _ _ (hif _ _ _ _ horigin))).addHeader _ _

/-- The chain around the middleware for other origins. -/
structure CorsChain (server : HttpServer σ) where
  config : CorsConfig
  front : List (Middleware σ)
  back : List (Middleware σ)
  origins : config.allowedOrigins ≠ []
  chain : server.middlewares = front ++ corsMiddleware config :: back

/-- No part that is called on the way to the middleware ends it with a response that has no origin:
not a hook `before`, nor the handler, nor a hook `after` behind the middleware, neither with a
response that it throws nor with an exception. -/
structure ReachesCors {server : HttpServer σ} (x : CorsChain server) (req : HttpRequest)
    (resp : HttpResponse) (w : σ) : Prop where
  before : ∀ m req' w' thrown w₁, CallsBefore server.middlewares req w m req' w' →
    m.before req' w' = (.error thrown, w₁) → CarriesOrigin (caught resp thrown)
  handler : ∀ req' w', processBefore server.middlewares req w = (.ok req', w') →
    (server.router.route req' resp w').2.1.Leads (fun _ => True) CarriesOrigin
  back : ∀ given w' m r w₁, Given server req resp w given w' →
    CallsAfter x.back.reverse given w' m r w₁ →
    (m.after r w₁).1.Leads (fun _ => True) CarriesOrigin

/-- And each hook `after` in front of the middleware, called with a response that has the header,
leaves it there and throws only responses that have it. -/
structure CoversOrigin {server : HttpServer σ} (x : CorsChain server) (req : HttpRequest)
    (resp : HttpResponse) (w : σ) : Prop extends ReachesCors x req resp w where
  front : ∀ given w' left w₁ m r w₂, Given server req resp w given w' →
    runAfter x.back.reverse given w' = (⟨left, none⟩, w₁) →
    CallsAfter x.front.reverse (addCorsHeaders x.config left (answeredOrigin x.config)) w₁ m r w₂ →
    CarriesOrigin r → (m.after r w₂).1.Leads CarriesOrigin CarriesOrigin

/-- The hooks `after`, around the middleware. -/
theorem runAfter_chain {server : HttpServer σ} (x : CorsChain server) (given : HttpResponse)
    (w : σ) :
    runAfter server.middlewares.reverse given w =
      match runAfter x.back.reverse given w with
      | (⟨left, none⟩, w) =>
        runAfter x.front.reverse (addCorsHeaders x.config left (answeredOrigin x.config)) w
      | answer => answer := by
  have hreverse : server.middlewares.reverse =
      x.back.reverse ++ corsMiddleware x.config :: x.front.reverse := by
    simp [x.chain]
  rw [hreverse, runAfter_append]
  rcases runAfter x.back.reverse given w with ⟨⟨left, _ | thrown⟩, w'⟩
  · have hafter : (corsMiddleware x.config).after left w' =
      (.returns (addCorsHeaders x.config left (answeredOrigin x.config)), w') :=
      after_eq x.origins left w'
    simp only [runAfter, hafter, Answer.returns]
  · rfl

/-- **Which responses name an origin.** Whatever the other middlewares, the routes and the state:
the response that `handleRequest` leaves has the header, if no part that is called on the way to the
middleware ends it without one and the hooks in front of it keep it. -/
theorem carriesOrigin_of_covers {server : HttpServer σ} (x : CorsChain server) {req : HttpRequest}
    {resp : HttpResponse} {w : σ} (h : CoversOrigin x req resp w) :
    ∀ r, (server.handleRequest req resp w).1 = .ok r → CarriesOrigin r := by
  refine (handleRequest_leads_iff fun _ _ => Iff.rfl).2
    ⟨h.before, h.handler, fun given w' hgiven => ?_⟩
  have hback : (runAfter x.back.reverse given w').1.Leads (fun _ => True) CarriesOrigin :=
    leads_runAfter (fun m r w₁ hcall _ => h.back given w' m r w₁ hgiven hcall) trivial
  rw [runAfter_chain x]
  rcases hrun : runAfter x.back.reverse given w' with ⟨⟨left, _ | thrown⟩, w₁⟩
  · exact leads_runAfter (fun m r w₂ => h.front given w' left w₁ m r w₂ hgiven hrun)
      (carriesOrigin_addCorsHeaders x.config left (answeredOrigin x.config))
  · rw [hrun] at hback
    cases thrown <;> exact hback

def freeChain : CorsChain freeServer :=
  ⟨.defaultConfig, [freeLimiter.middleware], [freeLimiter.middleware], by decide, rfl⟩

theorem coversOrigin_freeServer : CoversOrigin freeChain closeRequest (HttpResponse.new true)
    ({}, ()) where
  before m req' w' thrown w₁ hcall hm := by
    rcases mem_freeServer hcall.mem with rfl | rfl
    · rw [freeLimiter_before] at hm
      cases hm
    · simp only [corsMiddleware, CorsMiddleware.before] at hm
      split at hm
      · obtain rfl := Except.error.inj (Prod.mk.inj hm).1
        rw [caught, handlePreflightRequest_default]
        exact (carriesOrigin_addCorsHeaders ..).setStatusCode 204
      · cases hm
  handler _ _ _ := trivial
  back given w' m r w₁ _ hcall := by
    obtain rfl := List.mem_singleton.1 hcall.mem
    trivial
  front given w' left w₁ m r w₂ _ _ hcall hr := by
    obtain rfl := List.mem_singleton.1 hcall.mem
    exact hr

theorem carriesOrigin_of_covers_freeServer :
    closeRequest.method ≠ .kOptions ∧ ∃ r,
      (freeServer.handleRequest closeRequest (HttpResponse.new true) ({}, ())).1 = .ok r ∧
        CarriesOrigin r :=
  ⟨by decide, _, rfl, carriesOrigin_of_covers freeChain coversOrigin_freeServer _ rfl⟩

/-- The middleware, and behind it a limiter that allows nothing. -/
def limitedServer : HttpServer (Metrics × Unit) :=
  ⟨[corsMiddleware .defaultConfig, closedLimiter.middleware], Router.empty⟩

def limitedChain : CorsChain limitedServer :=
  ⟨.defaultConfig, [], [closedLimiter.middleware], by decide, rfl⟩

/-- The limiter throws its response before any hook `after` is called. -/
theorem limited_without_origin : ∃ r,
    (limitedServer.handleRequest closeRequest (HttpResponse.new true) ({}, ())).1 = .ok r ∧
      r.statusCode = 403 ∧ ¬ CarriesOrigin r ∧
      ¬ ∀ (server : HttpServer (Metrics × Unit)) (_ : CorsChain server) (req : HttpRequest)
          (resp : HttpResponse) (w : Metrics × Unit), req.method ≠ .kOptions →
          ∀ r, (server.handleRequest req resp w).1 = .ok r → CarriesOrigin r := by
  have hlimited : (limitedServer.handleRequest closeRequest (HttpResponse.new true) ({}, ())).1 =
      .ok RateLimitMiddleware.limited := rfl
  have hnot : ¬ CarriesOrigin RateLimitMiddleware.limited := by decide
  exact ⟨RateLimitMiddleware.limited, hlimited, rfl, hnot, fun h => hnot <|
    h limitedServer limitedChain closeRequest (HttpResponse.new true) ({}, ()) (by decide) _
      hlimited⟩

/-- **A way that is not clear leaves a response without an origin**: if the response names one, no
part that was called on the way to the middleware ended it without one. -/
theorem reachesCors_of_carriesOrigin {server : HttpServer σ} (x : CorsChain server)
    {req : HttpRequest} {resp : HttpResponse} {w : σ}
    (h : ∀ r, (server.handleRequest req resp w).1 = .ok r → CarriesOrigin r) :
    ReachesCors x req resp w := by
  obtain ⟨hbefore, hhandler, hafter⟩ := (handleRequest_leads_iff fun _ _ => Iff.rfl).1 h
  refine ⟨hbefore, hhandler, fun given w' m r w₁ hgiven hcall => ?_⟩
  rcases hm : (m.after r w₁).1 with ⟨left, _ | thrown⟩
  · trivial
  · have hrun := hcall.throws (by rw [hm])
    have hleads := hafter given w' hgiven
    rw [runAfter_chain x] at hleads
    rcases hback : runAfter x.back.reverse given w' with ⟨answer, w₂⟩
    rw [hback, hm] at hrun
    obtain rfl : answer = .throws left thrown := hrun
    rw [hback] at hleads
    cases thrown <;> exact hleads

/-! ## Responses without an origin -/

variable {server : HttpServer σ} {req : HttpRequest} {resp r : HttpResponse} {w : σ}

/-- A response that is thrown is sent as it was thrown. -/
theorem carriesOrigin_iff_of_throws {thrown : HttpResponse}
    (h : Throws server req resp w thrown) (hr : (server.handleRequest req resp w).1 = .ok r) :
    CarriesOrigin r ↔ CarriesOrigin thrown := by
  obtain rfl := Except.ok.inj ((handleRequest_of_throws h).symm.trans hr)
  rfl

/-- **A request that the limiter turns down is answered without an origin**, wherever it stands. -/
theorem not_carriesOrigin_of_limited {τ : Type*} {server : HttpServer (Metrics × τ)}
    {m : RateLimitMiddleware τ} {front back : List (Middleware (Metrics × τ))}
    (hchain : server.middlewares = front ++ m.middleware :: back) {req req' : HttpRequest}
    {w w' : Metrics × τ} (hfront : processBefore front req w = (.ok req', w'))
    (hlimited : (m.limiter.allow (RateLimitMiddleware.clientOf req') w'.2).1 = false)
    (hr : (server.handleRequest req resp w).1 = .ok r) : ¬ CarriesOrigin r := by
  have hm := m.before_of_limited hlimited
  rw [carriesOrigin_iff_of_throws (throws_of_before hchain hfront hm) hr]
  decide

/-- **So is a request that is on the blacklist.** -/
theorem not_carriesOrigin_of_blocked {m : BlacklistMiddleware} {front back : List (Middleware σ)}
    (hchain : server.middlewares = front ++ m.middleware :: back) {req' : HttpRequest} {w' : σ}
    (hfront : processBefore front req w = (.ok req', w')) (hblocked : m.blocks req' = true)
    (hr : (server.handleRequest req resp w).1 = .ok r) : ¬ CarriesOrigin r := by
  have hm := m.before_of_blocked hblocked w'
  rw [carriesOrigin_iff_of_throws (throws_of_before hchain hfront hm) hr]
  decide

end KamaHttp
