import KamaHttp.App.Main
import KamaHttp.Http.Connections
import KamaHttp.Http.FailedHandlers

/-!
# Line breaks in the headers of responses

What a client sends comes back in headers in two places: the URL that a link redirects to, and the
origin of a preflight request. The URL has passed the validator, which takes no white space. The
origin is a header of the request as the parser reads it, and that ends a line only at the pair of
CR and LF.

* `main_unbroken`: what the hooks and handlers of `main` keep of responses without breaks.
* `sent_unbroken_iff`: in which runs no header has a break.
-/

namespace KamaHttp

open HttpServer MemoryStore MiddlewareChain

variable {τ : Type*}

/-- Neither CR nor LF. -/
def NoBreak (v : Bytes) : Prop := 13 ∉ v ∧ 10 ∉ v

instance (v : Bytes) : Decidable (NoBreak v) := inferInstanceAs (Decidable (_ ∧ _))

/-- No header of the response has a break in its value. -/
def Unbroken (r : HttpResponse) : Prop := ∀ f ∈ r.headersVector, NoBreak f.2

instance (r : HttpResponse) : Decidable (Unbroken r) := inferInstanceAs (Decidable (∀ _ ∈ _, _))

/-- The request is no preflight request with a break in its origin. -/
def PlainOrigin (req : HttpRequest) : Prop :=
  req.method = .kOptions → NoBreak (req.getHeader (bytes "Origin"))

theorem Unbroken.addHeader {r : HttpResponse} (h : Unbroken r) (key : Bytes) {value : Bytes}
    (hvalue : NoBreak value) : Unbroken (r.addHeader key value) := by
  intro f hf
  rcases mem_headersVector_addHeader hf with rfl | hf
  · exact hvalue
  · exact h f hf

theorem Unbroken.setStatusCode {r : HttpResponse} (h : Unbroken r) (code : ℤ) :
    Unbroken (r.setStatusCode code) := by
  intro f hf
  rw [mem_headersVector, HttpResponse.setStatusCode_headers] at hf
  exact h f (mem_headersVector.2 hf)

theorem unbroken_new (close : Bool) : Unbroken (HttpResponse.new close) := by
  intro f hf
  simp [mem_headersVector, HttpResponse.new] at hf

/-- A numeral has no break. -/
theorem noBreak_decimal (z : ℤ) : NoBreak (decimal z) :=
  ⟨not_mem_decimal (by decide) z, not_mem_decimal (by decide) z⟩

/-- `onRequest` adds no break. -/
theorem Unbroken.finish {r : HttpResponse} (h : Unbroken r) (req : HttpRequest) :
    Unbroken (HttpServer.finish req r) := by
  intro f hf
  rw [mem_headersVector, getElem?_headers_finish] at hf
  split at hf
  · exact Option.some.inj hf ▸ noBreak_decimal _
  split at hf
  · exact Option.some.inj hf ▸ (by decide : NoBreak (bytes "close"))
  · exact h f (mem_headersVector.2 hf)

/-- A URL that is valid has no break. -/
theorem noBreak_of_valid {u : Bytes} (h : UrlValidator.valid u) : NoBreak u := by
  obtain ⟨scheme, rest, rfl, hscheme, -, hrest⟩ := UrlValidator.valid_iff.1 h
  have hspace : ∀ b, isspace b = true → toLower b = b → b ∉ scheme ++ rest := by
    intro b hspace hlower hb
    rcases List.mem_append.1 hb with hb | hb
    · have hmem := List.mem_map_of_mem (f := toLower) hb
      rw [hlower] at hmem
      have hplain : (scheme.map toLower).all fun b => !isspace b := by
        rcases hscheme with h | h <;> rw [h] <;> rfl
      have hb := List.all_eq_true.1 hplain b hmem
      rw [hspace] at hb
      cases hb
    · rw [hrest b hb] at hspace
      cases hspace
  exact ⟨hspace 13 rfl rfl, hspace 10 rfl rfl⟩

/-! ## The hooks and handlers of `main` -/

/-- Every URL in the store is valid. -/
def ValidUrls (kv : KVStore mainShards) : Prop :=
  ∀ i id url, kv.get i id = some url → UrlValidator.valid url

/-- The headers for other origins have no break if the origin has none. -/
theorem Unbroken.addCorsHeaders {r : HttpResponse} (h : Unbroken r) {origin : Bytes}
    (horigin : NoBreak origin) :
    Unbroken (CorsMiddleware.addCorsHeaders .defaultConfig r origin) := by
  have hmethods : NoBreak (CorsMiddleware.join CorsConfig.defaultConfig.allowedMethods
      (bytes ", ")) := by decide
  have hheaders : NoBreak (CorsMiddleware.join CorsConfig.defaultConfig.allowedHeaders
      (bytes ", ")) := by decide
  rw [CorsMiddleware.addCorsHeaders_default]
  exact (((h.addHeader _ horigin).addHeader _ hmethods).addHeader _ hheaders).addHeader _
    (noBreak_decimal _)

/-- The answer to a preflight request has no break if its origin has none. -/
theorem unbroken_handlePreflightRequest {req : HttpRequest} (h : PlainOrigin req)
    (hoptions : req.method = .kOptions) :
    Unbroken (CorsMiddleware.handlePreflightRequest .defaultConfig req
      (HttpResponse.new true)) := by
  rw [CorsMiddleware.handlePreflightRequest_default]
  exact ((unbroken_new true).addCorsHeaders (h hoptions)).setStatusCode 204

theorem cors_unbroken {I : Metrics × Shared τ → Prop} :
    (corsMiddleware .defaultConfig : Middleware (Metrics × Shared τ)).Respects PlainOrigin
      Unbroken I := by
  refine corsMiddleware_respects (fun _ h hoptions => unbroken_handlePreflightRequest h hoptions)
    fun r origin horigin hr => hr.addCorsHeaders ?_
  rw [List.mem_singleton.1 horigin]
  decide

theorem ValidUrls.set {kv : KVStore mainShards} (h : ValidUrls kv) (i : Fin mainShards)
    (id : Bytes) {url : Bytes} (hurl : UrlValidator.valid url) : ValidUrls (kv.set i id url) := by
  intro i' id' url' hget
  rw [KVStore.get_set] at hget
  split at hget
  · exact Option.some.inj hget ▸ hurl
  · exact h i' id' url' hget

/-- `ShortenHandler::handle` sets one header, to a constant, and stores valid URLs only. -/
theorem shorten_unbroken :
    Handler.Respects PlainOrigin Unbroken (fun st => ValidUrls st.store)
      (ShortenHandler.handle (memoryStore mainShards)) := by
  intro req resp st _ hresp hst
  have hjson : Unbroken (resp.setContentType (bytes "application/json")) :=
    hresp.addHeader _ (by decide)
  unfold ShortenHandler.handle
  cases hp : parseJson req.getBody with
  | none => exact .returns hjson hst
  | some p =>
    obtain ⟨url, ttl⟩ := p
    by_cases hv : UrlValidator.valid url
    · simp only [hv, if_true]
      rcases attempts_cases url ttl resp 5 st with ⟨hans, hstore, -⟩ | ⟨id, hans, hadds⟩
      · exact .of_eq hans hresp (hstore ▸ hst)
      · exact .of_eq hans hjson (hadds.store ▸ hst.set _ id hv)
    · simp only [hv]
      exact .returns hjson hst

/-- `RedirectHandler::handle` sets the header `Location` to a URL of the store. -/
theorem redirect_unbroken :
    Handler.Respects PlainOrigin Unbroken (fun st => ValidUrls st.store)
      (RedirectHandler.handle (memoryStore mainShards)) := by
  intro req resp st _ hresp hst
  unfold RedirectHandler.handle
  dsimp only
  split_ifs
  · exact .returns hresp hst
  · exact .returns hresp hst
  have hget : (memoryStore mainShards).get (req.getPathParameters (bytes "param1")) st.store =
    (.ok (find st.store (req.getPathParameters (bytes "param1"))), st.store) := rfl
  rw [RedirectHandler.lookup, hget]
  cases hfound : find st.store (req.getPathParameters (bytes "param1")) with
  | none => exact .returns hresp hst
  | some url =>
    have hurl : NoBreak url := noBreak_of_valid (hst _ _ url hfound)
    have hmoved : Unbroken (RedirectHandler.moved url resp) :=
      Unbroken.addHeader (Unbroken.addHeader hresp _ hurl) _ (by decide)
    exact .returns hmoved hst

/-- What is registered in the routes. -/
theorem routes_unbroken {f : Handler (State (KVStore mainShards))}
    (hf : (routes (memoryStore mainShards)).Registers f) :
    Handler.Respects PlainOrigin Unbroken (fun st => ValidUrls st.store) f := by
  have hmetrics : Handler.Respects PlainOrigin Unbroken
      (fun st : State (KVStore mainShards) => ValidUrls st.store) MetricsHandler.handle :=
    fun req resp st _ hresp hst => .returns (hresp.addHeader _ (by decide)) hst
  have hhealth : Handler.Respects PlainOrigin Unbroken
      (fun st : State (KVStore mainShards) => ValidUrls st.store) HealthHandler.handle :=
    fun req resp st _ hresp hst => .returns hresp hst
  cases hf with
  | handler h =>
    simp only [routes] at h
    split_ifs at h <;> cases h
    · exact shorten_unbroken
    · exact hmetrics
    · exact hhealth
  | callback h => cases h
  | regexHandler h =>
    obtain rfl := List.mem_singleton.1 h
    exact redirect_unbroken
  | regexCallback h => cases h

/-- **The hooks and handlers of `main` break no header**, if the request is no preflight request
with a break in its origin and the store has valid URLs only. -/
theorem main_unbroken (limiter : RateLimiter τ) {req : HttpRequest} {resp : HttpResponse}
    {w : World (Shared τ)} (hreq : PlainOrigin req) (hresp : Unbroken resp)
    (hw : RestOf (fun s => ValidUrls s.kv) w) :
    RestOf (fun s => ValidUrls s.kv) ((mainServer limiter).server.handleRequest req resp w).2 ∧
      ∀ r, ((mainServer limiter).server.handleRequest req resp w).1 = .ok r → Unbroken r := by
  refine handleRequest_respects (P := PlainOrigin) ?_ ?_ ?_ (fun r e hr => hr) (fun r hr => hr)
    hreq hresp hw
  · exact mainServer_respects limiter (fun _ _ hs => hs)
      (Unbroken.addHeader (unbroken_new false) _ (by decide)) (unbroken_new false) cors_unbroken
  · intro f hf
    obtain ⟨g, hg, rfl⟩ := Router.exists_of_registers_onRest hf
    obtain ⟨g, hroute, rfl⟩ := Router.exists_of_registers_map hg
    exact Handler.onRest_respects (I := fun s : Shared τ => ValidUrls s.kv)
      (Handler.onShared_respects (routes_unbroken hroute))
  · exact fun groups r hr => Router.extractPathParameters_keeps (fun _ _ _ h => h) groups hr

/-! ## The runs of the server -/

/-- A preflight request is answered by the first middleware of the chain. -/
theorem handleRequest_of_preflight (limiter : RateLimiter τ) {req : HttpRequest}
    (hoptions : req.method = .kOptions) (resp : HttpResponse) (w : World (Shared τ)) :
    (mainServer limiter).server.handleRequest req resp w =
      (.ok (CorsMiddleware.handlePreflightRequest .defaultConfig req (HttpResponse.new true)),
        w) := by
  have hbefore : processBefore (mainServer limiter).server.middlewares req w =
      (.error (.response (CorsMiddleware.handlePreflightRequest .defaultConfig req
        (HttpResponse.new true))), w) := by
    simp only [CachingServer.server, mainServer, List.map_cons, processBefore,
      Component.middleware, World.onRest, corsMiddleware, CorsMiddleware.before, hoptions, if_true]
  simp only [handleRequest, hbefore, caught]

/-- The headers of that answer name the origin. -/
theorem getElem?_origin_addCorsHeaders (r : HttpResponse) (origin : Bytes) :
    (CorsMiddleware.addCorsHeaders .defaultConfig r origin).headers[
      bytes "Access-Control-Allow-Origin"]? = some origin := by
  have hmethods : bytes "Access-Control-Allow-Origin" ≠ bytes "Access-Control-Allow-Methods" := by
    decide
  have hheaders : bytes "Access-Control-Allow-Origin" ≠ bytes "Access-Control-Allow-Headers" := by
    decide
  have hage : bytes "Access-Control-Allow-Origin" ≠ bytes "Access-Control-Max-Age" := by decide
  rw [CorsMiddleware.addCorsHeaders_default, getElem?_headers_addHeader, if_neg hage,
    getElem?_headers_addHeader, if_neg hheaders, getElem?_headers_addHeader, if_neg hmethods,
    getElem?_headers_addHeader, if_pos rfl]

/-- A break in the origin of a preflight request is sent back. -/
theorem not_unbroken_of_preflight {req : HttpRequest} (h : ¬ PlainOrigin req) :
    ¬ Unbroken (finish req (CorsMiddleware.handlePreflightRequest .defaultConfig req
      (HttpResponse.new true))) := by
  have hlength : bytes "Access-Control-Allow-Origin" ≠ bytes "Content-Length" := by decide
  have hconnection : bytes "Access-Control-Allow-Origin" ≠ bytes "Connection" := by decide
  have horigin : (finish req (CorsMiddleware.handlePreflightRequest .defaultConfig req
      (HttpResponse.new true))).headers[bytes "Access-Control-Allow-Origin"]? =
      some (req.getHeader (bytes "Origin")) := by
    rw [getElem?_headers_finish, if_neg fun hc => hlength hc.1, if_neg fun hc => hconnection hc.1,
      CorsMiddleware.handlePreflightRequest_default, HttpResponse.setStatusCode_headers,
      getElem?_origin_addCorsHeaders]
  intro hunbroken
  have hmem := (mem_headersVector (f := (_, _))).2 horigin
  exact h fun _ => hunbroken _ hmem

/-- What the callback makes of a request. -/
theorem callback_unbroken_iff (limiter : RateLimiter τ) (req : HttpRequest)
    {w : World (Shared τ)} (hw : RestOf (fun s => ValidUrls s.kv) w) :
    let result := (mainServer limiter).server.handleRequest req (HttpResponse.new (close req)) w
    RestOf (fun s => ValidUrls s.kv) result.2 ∧
      ∀ r, result.1 = .ok r → (Unbroken (finish req r) ↔ PlainOrigin req) := by
  intro result
  by_cases hreq : PlainOrigin req
  · obtain ⟨hrest, hresponse⟩ := main_unbroken limiter hreq (unbroken_new (close req)) hw
    exact ⟨hrest, fun r hr => ⟨fun _ => hreq, fun _ => (hresponse r hr).finish req⟩⟩
  · have hoptions : req.method = .kOptions := by
      by_contra hne
      exact hreq fun h => absurd h hne
    have hresult := handleRequest_of_preflight limiter hoptions (HttpResponse.new (close req)) w
    rw [show result = _ from hresult]
    refine ⟨hw, fun r hr => ?_⟩
    rw [← Except.ok.inj hr]
    exact ⟨fun h => absurd h (not_unbroken_of_preflight hreq), fun h => absurd h hreq⟩

/-- **When no header has a break.** In every run of the server, whatever bytes arrive on whatever
connections: no response that has been sent has a CR or an LF in the value of a header exactly if no
preflight request that has been answered has one in its origin. -/
theorem sent_unbroken_iff (limiter : RateLimiter τ) {s : Connections (World (Shared τ))}
    (h : Reaches (Connections.system (mainServer limiter).server.handleRequest Starts) Always s) :
    (∀ x ∈ s.sent, Unbroken x.2) ↔ ∀ x ∈ s.sent, PlainOrigin x.1 := by
  have hstarts : ∀ w : World (Shared τ), Starts w → RestOf (fun s => ValidUrls s.kv) w := by
    intro w hw
    refine ⟨fun i k => by rw [hw.caches i, CacheStore.content_new], fun i id url hget => ?_⟩
    rw [hw.kv, KVStore.get_new] at hget
    cases hget
  have hsent := (Connections.of_reaches (R := fun req r => Unbroken r ↔ PlainOrigin req) hstarts
    (fun req w hw => callback_unbroken_iff limiter req hw) h).2
  exact forall₂_congr hsent

/-- A server that has received nothing. -/
def startServer : Connections (World (Shared Unit)) :=
  ⟨fun _ => (HttpContext.new, []), startWorld, []⟩

/-- The preflight requests from an origin that a fresh connection answers, with the responses. -/
def preflights (origin : Bytes) : List (HttpRequest × HttpResponse) :=
  responded (mainServer openLimiter).server.handleRequest (startServer.connection 0)
    (bytes "OPTIONS / HTTP/1.1\r\nOrigin: " ++ origin ++ bytes "\r\n\r\n", 0)

/-- There is a run in which nothing else is answered. -/
theorem exists_reaches_preflights (origin : Bytes) : ∃ s, Reaches
    (Connections.system (mainServer openLimiter).server.handleRequest Starts) Always s ∧
      s.sent = preflights origin := by
  have hstart : Reaches (Connections.system (mainServer openLimiter).server.handleRequest Starts)
    Always startServer := .init ⟨fun _ => rfl, starts_startWorld, rfl⟩
  have hnew : (startServer.connection 0).context.state ≠ .kGotAll := by decide
  obtain ⟨c, hc⟩ := exists_onMessage (mainServer openLimiter).server.handleRequest hnew
    (bytes "OPTIONS / HTTP/1.1\r\nOrigin: " ++ origin ++ bytes "\r\n\r\n") 0
  exact ⟨_, .step (e := .received 0 _ 0) hstart trivial ⟨c, hc, rfl⟩, rfl⟩

theorem preflight_unbroken : ∃ s, Reaches
    (Connections.system (mainServer openLimiter).server.handleRequest Starts) Always s ∧
      s.sent.length = 1 ∧ ∀ x ∈ s.sent, Unbroken x.2 := by
  obtain ⟨s, hs, hsent⟩ := exists_reaches_preflights (bytes "http://a")
  refine ⟨s, hs, ?_, (sent_unbroken_iff openLimiter hs).2 ?_⟩
  · rw [hsent]
    decide +kernel
  · rw [hsent]
    have hplain : ∀ x ∈ preflights (bytes "http://a"),
      NoBreak (x.1.getHeader (bytes "Origin")) := by decide +kernel
    exact fun x hx _ => hplain x hx

/-- An origin with a line feed inside: the response has a line more than headers. -/
theorem preflight_broken : ∃ s, Reaches
    (Connections.system (mainServer openLimiter).server.handleRequest Starts) Always s ∧
      ∃ x ∈ s.sent, x.2.statusCode = 204 ∧ x.2.getHeader (bytes "Access-Control-Allow-Origin") =
        bytes "a\nSet-Cookie: b=c" ∧ ¬ Unbroken x.2 := by
  obtain ⟨s, hs, hsent⟩ := exists_reaches_preflights (bytes "a\nSet-Cookie: b=c")
  refine ⟨s, hs, ?_⟩
  rw [hsent]
  decide +kernel

end KamaHttp
