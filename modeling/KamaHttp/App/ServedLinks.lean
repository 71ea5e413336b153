import KamaHttp.App.Main
import KamaHttp.Http.Clients

/-!
# Links through the server

Bytes arrive on any connections of the server that `main` assembles, with one I/O thread. Behind the
parsers stand the middlewares, which turn requests down or add headers to the responses, and behind
these the handlers, on one store and one filter.

* `handle_spec`: what a request comes to: it is turned down, or served.
* `Linked.handle`, `linked_of_handsOut`: a request keeps the links, and adds the one it hands out.
* `links_served`: in the order of all requests, an identifier that is handed out redirects from then
  on, and is not handed out again.
-/

namespace KamaHttp

open HttpServer MemoryStore MiddlewareChain

variable {τ : Type*}

/-! ## The middlewares -/

/-- A response of the limiter or of the blacklist. -/
def TurnedDown (r : HttpResponse) : Prop :=
  (r.statusCode = 403 ∧ r.body = bytes "rate limited") ∨
    (r.statusCode = 400 ∧ r.body = bytes "blocked by blacklist")

/-- The response says what was given: the code, the body, and where the resource is. -/
structure Repeats (given r : HttpResponse) : Prop where
  code : r.statusCode = given.statusCode
  body : r.body = given.body
  location : r.getHeader (bytes "Location") = given.getHeader (bytes "Location")

theorem Repeats.refl (r : HttpResponse) : Repeats r r := ⟨rfl, rfl, rfl⟩

theorem Repeats.addHeader {given r : HttpResponse} (h : Repeats given r) {key : Bytes}
    (hkey : bytes "Location" ≠ key) (value : Bytes) : Repeats given (r.addHeader key value) := by
  refine ⟨h.code, h.body, ?_⟩
  rw [HttpResponse.getHeader_addHeader, if_neg hkey]
  exact h.location

/-- The headers for other origins are added beside what the response says. -/
theorem Repeats.addCorsHeaders {given r : HttpResponse} (h : Repeats given r) (origin : Bytes) :
    Repeats given (CorsMiddleware.addCorsHeaders .defaultConfig r origin) := by
  rw [CorsMiddleware.addCorsHeaders_default]
  exact (((h.addHeader (by decide) _).addHeader (by decide) _).addHeader (by decide) _).addHeader
    (by decide) _

theorem TurnedDown.code_ne {r : HttpResponse} (h : TurnedDown r) : r.statusCode ≠ 200 := by
  rcases h with ⟨hcode, -⟩ | ⟨hcode, -⟩ <;> rw [hcode] <;> decide

theorem Repeats.turnedDown {given r : HttpResponse} (h : Repeats given r) (hg : TurnedDown given) :
    TurnedDown r := by
  rw [TurnedDown, h.code, h.body]
  exact hg

theorem MiddlewareChain.processAfter_keeps {σ : Type*} {ms : List (Middleware σ)}
    {Q : HttpResponse → Prop} {I : σ → Prop} {response : HttpResponse} {w : σ}
    (hms : ∀ m ∈ ms, ∀ response w, Q response → I w → Answer.Respects Q I (m.after response w))
    (hresp : Q response) (hw : I w) : Answer.Respects Q I (processAfter ms response w) := by
  have h := runAfter_respects (fun m hm => hms m (List.mem_reverse.1 hm)) hresp hw
  rw [processAfter]
  split
  · rename_i ha
    rw [ha] at h
    exact ⟨h.state, h.left, fun r hr => by cases hr⟩
  · exact h

variable (limiter : RateLimiter τ)

/-- **Behind the handler** the hooks leave what the response says, and the rest of the world. -/
theorem processAfter_repeats (given : HttpResponse) (w : World (Shared τ)) :
    Answer.Respects (Repeats given) (fun w' => w'.app = w.app)
      (processAfter (mainServer limiter).server.middlewares given w) := by
  refine processAfter_keeps (fun m hm r w' hr hw' => ?_) (.refl given) rfl
  obtain ⟨c, hc, rfl⟩ := List.mem_map.1 hm
  cases c with
  | cacheAdapter a => exact .returns hr ((a.app_after r w').trans hw')
  | other m =>
    rcases other_mem_mainServer hc with rfl | rfl | rfl
    · exact .of_eq rfl (hr.addCorsHeaders (bytes "*")) hw'
    · exact .returns hr hw'
    · exact .returns hr hw'

/-- No hook before the handler fails. -/
theorem before_ne_exception {m : Middleware (World (Shared τ))}
    (hm : m ∈ (mainServer limiter).server.middlewares) (req : HttpRequest) (w : World (Shared τ))
    (e : StdException) : (m.before req w).1 ≠ .error (.exception e) := by
  obtain ⟨c, hc, rfl⟩ := List.mem_map.1 hm
  cases c with
  | cacheAdapter a =>
    simp only [Component.middleware, CacheAdapter.middleware, CacheAdapter.before]
    split <;> simp
  | other m =>
    simp only [Component.middleware, World.onRest]
    rcases other_mem_mainServer hc with rfl | rfl | rfl
    · simp only [corsMiddleware, CorsMiddleware.before]
      split <;> simp
    · simp only [RateLimitMiddleware.middleware, RateLimitMiddleware.before]
      split <;> simp
    · simp only [BlacklistMiddleware.middleware, BlacklistMiddleware.before]
      split <;> simp

theorem MiddlewareChain.processBefore_ne_exception {σ : Type*} {ms : List (Middleware σ)}
    {e : StdException} (hms : ∀ m ∈ ms, ∀ request w, (m.before request w).1 ≠ .error (.exception e))
    (request : HttpRequest) (w : σ) : (processBefore ms request w).1 ≠ .error (.exception e) := by
  induction ms generalizing request w with
  | nil => exact fun h => by cases h
  | cons m ms ih =>
    have hm := hms m (by simp) request w
    rw [processBefore]
    rcases hb : m.before request w with ⟨x | request', w'⟩
    · rw [hb] at hm
      exact hm
    · exact ih (fun m' hm' => hms m' (by simp [hm'])) request' w'

/-- The store and the filter are those of another world. -/
structure SameLinks (w w' : World (Shared τ)) : Prop where
  kv : w'.app.kv = w.app.kv
  bloom : w'.app.bloom = w.app.bloom

/-- **Before the handler** a request that is no preflight request passes, or is turned down. -/
theorem processBefore_spec {w : World (Shared τ)} (hw : CachesEmpty w) (req : HttpRequest) :
    (∃ r w', processBefore (mainServer limiter).server.middlewares req w =
        (.error (.response r), w') ∧ SameLinks w w' ∧ (req.method ≠ .kOptions → TurnedDown r)) ∨
      ∃ w', processBefore (mainServer limiter).server.middlewares req w = (.ok req, w') ∧
        SameLinks w w' := by
  have hcors : (corsMiddleware .defaultConfig : Middleware (Metrics × Shared τ)).Respects
      (· = req) (fun r => req.method ≠ .kOptions → TurnedDown r)
      fun x => x.2.kv = w.app.kv ∧ x.2.bloom = w.app.bloom := by
    refine corsMiddleware_respects (fun request hreq hoptions hne => ?_)
      fun r origin _ hr hne => (((Repeats.refl r).addCorsHeaders origin)).turnedDown (hr hne)
    exact absurd (hreq ▸ hoptions) hne
  obtain ⟨⟨-, hkv, hbloom⟩, -, hthrown⟩ := processBefore_respects (mainServer_respects limiter
    (I := fun s => s.kv = w.app.kv ∧ s.bloom = w.app.bloom) (fun _ _ hs => hs)
    (fun _ => .inl ⟨rfl, rfl⟩) (fun _ => .inr ⟨rfl, rfl⟩) hcors) rfl ⟨hw, rfl, rfl⟩
  rcases hb : processBefore (mainServer limiter).server.middlewares req w with
    ⟨(r | e) | req', w'⟩
  · rw [hb] at hkv hbloom hthrown
    exact .inl ⟨r, w', rfl, ⟨hkv, hbloom⟩, hthrown r rfl⟩
  · refine absurd (by rw [hb]) (MiddlewareChain.processBefore_ne_exception (e := e)
      (fun m hm request w => before_ne_exception limiter hm request w e) req w)
  · rw [hb] at hkv hbloom
    obtain ⟨rfl, -⟩ := of_processBefore_filters (mainServer_filters limiter) hb
    exact .inr ⟨w', rfl, hkv, hbloom⟩

/-! ## One request -/

/-- The routes, on the world: they are those of the shortener on its part of it. -/
theorem route_mainServer_eq (req : HttpRequest) (resp : HttpResponse) (w : World (Shared τ)) :
    let r := serve mainShards (req, resp) (w.app.state w.metrics)
    (mainServer limiter).server.router.route req resp w =
      (r.1.1, r.1.2, { w with
        metrics := r.2.metrics.getD w.metrics
        app := { w.app with
          kv := r.2.store, bloom := r.2.bloom.getD w.app.bloom, dist := r.2.dist } }) := by
  have hworld := (mainServer limiter).router.route_map Handler.onRest
    (fun w : World (Shared τ) => (w.metrics, w.app))
    (fun w x => { w with metrics := x.1, app := x.2 }) (fun _ _ _ _ => rfl) (fun _ => rfl)
    req resp w
  have hshared := (routes (memoryStore mainShards)).route_map Handler.onShared
    (fun w : Metrics × Shared τ => w.2.state w.1)
    (fun w st => (st.metrics.getD w.1,
      { w.2 with kv := st.store, bloom := st.bloom.getD w.2.bloom, dist := st.dist }))
    (fun _ _ _ _ => rfl) (fun _ => rfl) req resp (w.metrics, w.app)
  have hrouter : (mainServer limiter).server.router =
      (mainServer limiter).router.map Handler.onRest := rfl
  rw [hrouter, hworld, show (mainServer limiter).router =
    (routes (memoryStore mainShards)).map Handler.onShared from rfl, hshared]
  rfl

/-- What is found, and what becomes of the filter. -/
theorem route_mainServer_found (req : HttpRequest) (resp : HttpResponse) (w : World (Shared τ)) :
    ((mainServer limiter).server.router.route req resp w).1 =
        (serve mainShards (req, resp) (w.app.state w.metrics)).1.1 ∧
      some ((mainServer limiter).server.router.route req resp w).2.2.app.bloom =
        (serve mainShards (req, resp) (w.app.state w.metrics)).2.bloom := by
  rw [route_mainServer_eq]
  refine ⟨rfl, ?_⟩
  show some (Option.getD (serve mainShards (req, resp) (w.app.state w.metrics)).2.bloom
    w.app.bloom) = _
  have hsome : (serve mainShards (req, resp) (w.app.state w.metrics)).2.bloom.isSome := by
    rcases serve_cases (req, resp) (w.app.state w.metrics) with ⟨-, hbloom, -⟩ |
      ⟨-, id, url, ttl, -, -, hadds⟩
    · rw [hbloom]
      rfl
    · rw [hadds.bloom]
      rfl
  obtain ⟨b, hb⟩ := Option.isSome_iff_exists.1 hsome
  rw [hb]
  rfl

/-- A request is served in a state of the shortener: what its handler leaves is sent, but for
headers. -/
structure Serves (req : HttpRequest) (w w' : World (Shared τ)) (r : HttpResponse)
    (st : State (KVStore mainShards)) : Prop where
  store : st.store = w.app.kv
  bloom : st.bloom = some w.app.bloom
  kv : w'.app.kv = (serve mainShards (req, .new (close req)) st).2.store
  bloom' : some w'.app.bloom = (serve mainShards (req, .new (close req)) st).2.bloom
  repeats : (serve mainShards (req, .new (close req)) st).1.1 = true →
    (serve mainShards (req, .new (close req)) st).1.2.thrown = none →
      Repeats (serve mainShards (req, .new (close req)) st).1.2.response r

/-- **What a request comes to**: it is turned down, or served. -/
theorem handle_spec {w : World (Shared τ)} (hw : CachesEmpty w) (req : HttpRequest) :
    ∃ r w', (mainServer limiter).handle req w = (.ok r, w') ∧ CachesEmpty w' ∧
      (SameLinks w w' ∧ (req.method ≠ .kOptions → TurnedDown r) ∨ ∃ st, Serves req w w' r st) := by
  have hempty := (handle_cases limiter hw req).1
  rcases processBefore_spec limiter hw req with ⟨r, w', hb, hsame, hdown⟩ | ⟨w₁, hb, hsame⟩
  · have heq : (mainServer limiter).handle req w = (.ok r, w') := by
      simp only [CachingServer.handle, handleRequest, hb, caught]
    rw [heq] at hempty
    exact ⟨r, w', heq, hempty, .inl ⟨hsame, hdown⟩⟩
  have hroute := route_mainServer limiter req (.new (close req)) w₁
  have hfound := route_mainServer_found limiter req (.new (close req)) w₁
  rcases hr : (mainServer limiter).server.router.route req (.new (close req)) w₁ with
    ⟨found, ⟨left, _ | x⟩, w₂⟩
  · rw [hr] at hroute hfound
    have hafter := processAfter_repeats limiter (if found then left else notFound left) w₂
    have hserves : ∀ r w', w'.app = w₂.app → Repeats (if found then left else notFound left) r →
        Serves req w w' r (w₁.app.state w₁.metrics) := by
      intro r w' happ hrepeats
      refine ⟨hsame.kv, congrArg some hsame.bloom, ?_, ?_, fun htrue _ => ?_⟩
      · rw [happ]
        exact hroute.2
      · rw [happ]
        exact hfound.2
      · rw [← hfound.1] at htrue
        rw [← hroute.1]
        rwa [if_pos htrue] at hrepeats
    rcases ha : processAfter (mainServer limiter).server.middlewares
      (if found then left else notFound left) w₂ with ⟨⟨r, _ | r' | e⟩, w₃⟩
    · have heq : (mainServer limiter).handle req w = (.ok r, w₃) := by
        simp only [CachingServer.handle, handleRequest, hb, hr, ha]
      rw [heq] at hempty
      rw [ha] at hafter
      exact ⟨r, w₃, heq, hempty, .inr ⟨_, hserves r w₃ hafter.state hafter.left⟩⟩
    · have heq : (mainServer limiter).handle req w = (.ok r', w₃) := by
        simp only [CachingServer.handle, handleRequest, hb, hr, ha, caught]
      rw [heq] at hempty
      rw [ha] at hafter
      exact ⟨r', w₃, heq, hempty, .inr ⟨_, hserves r' w₃ hafter.state (hafter.thrown r' rfl)⟩⟩
    · exact absurd (by rw [ha]) (processAfter_ne_exception (e := e) _ _ w₂)
  · rw [hr] at hroute hfound
    have heq : (mainServer limiter).handle req w = (.ok (caught left x), w₂) := by
      simp only [CachingServer.handle, handleRequest, hb, hr]
    rw [heq] at hempty
    refine ⟨caught left x, w₂, heq, hempty, .inr ⟨w₁.app.state w₁.metrics, hsame.kv,
      congrArg some hsame.bloom, hroute.2, hfound.2, fun _ hnone => ?_⟩⟩
    rw [← hroute.1] at hnone
    cases hnone

/-! ## Links -/

/-- The request is answered with an identifier for the URL in its body. -/
structure HandsOut (x : HttpRequest × HttpResponse) (id url : Bytes) : Prop where
  shorten : IsShorten x.1
  parsed : ∃ ttl, parseJson x.1.getBody = some (url, ttl)
  code : x.2.statusCode = 200
  body : x.2.body = bytes "\x7b\"id\":\"" ++ id ++ bytes "\"\x7d"

/-- The response redirects to the URL. -/
structure LeadsTo (url : Bytes) (r : HttpResponse) : Prop where
  code : r.statusCode = 301
  location : r.getHeader (bytes "Location") = url

/-- The identifier is one that is drawn, and a link of the shortener. -/
structure Linked (id url : Bytes) (w : World (Shared τ)) : Prop where
  shortId : IsShortId id
  link : Link id url (w.app.state w.metrics)

/-- The attempts to shorten throw nothing, as the store does not. -/
theorem thrown_attempts {shards : ℕ+} (url : Bytes) (ttl : ℤ) (resp : HttpResponse) (n : ℕ)
    (st : State (KVStore shards)) :
    (ShortenHandler.attempts (memoryStore shards) url ttl resp n st).1.thrown = none := by
  rcases attempts_cases url ttl resp n st with ⟨hans, -, -⟩ | ⟨id, hans, -⟩ <;> rw [hans] <;> rfl

theorem thrown_shorten {shards : ℕ+} (req : HttpRequest) (resp : HttpResponse)
    (st : State (KVStore shards)) :
    (ShortenHandler.handle (memoryStore shards) req resp st).1.thrown = none := by
  unfold ShortenHandler.handle
  rcases parseJson req.getBody with _ | ⟨url, ttl⟩
  · rfl
  · dsimp only
    split
    · exact thrown_attempts url ttl resp 5 st
    · rfl

variable {limiter} {req : HttpRequest} {w w' : World (Shared τ)} {r : HttpResponse}
  {id id' url url' : Bytes} {st : State (KVStore mainShards)}

/-- A link depends on the store and the filter alone. -/
theorem Link.congr {shards : ℕ+} {st st' : State (KVStore shards)} (h : Link id url st)
    (hstore : st'.store = st.store) (hbloom : st'.bloom = st.bloom) : Link id url st' :=
  ⟨by rw [hstore]; exact h.found, by rw [hbloom]; exact h.passes⟩

theorem Serves.linked (h : Serves req w w' r st) (hlinked : Linked id url w) :
    Linked id url w' ∧ Link id url st := by
  have hst : Link id url st := hlinked.link.congr h.store h.bloom
  exact ⟨⟨hlinked.shortId, (hst.serve (req, .new (close req))).congr h.kv h.bloom'⟩, hst⟩

/-- A link redirects, unless the request is turned down. -/
theorem Serves.leadsTo (h : Serves req w w' r st) (hlinked : Linked id url w)
    (hreq : IsRedirect id req) : LeadsTo url r := by
  obtain ⟨hfound, hthrown, hcode, hlocation⟩ :=
    (h.linked hlinked).2.redirects (r := (req, .new (close req))) hlinked.shortId hreq
  have hrepeats := h.repeats hfound hthrown
  exact ⟨hrepeats.code.trans hcode, hrepeats.location.trans hlocation⟩

/-- An identifier that is handed out was free, and is a link from then on. -/
theorem Serves.handsOut (h : Serves req w w' r st) (hout : HandsOut (req, r) id url) :
    find w.app.kv id = none ∧ Linked id url w' := by
  have hserve := serve_of_isShorten (r := (req, .new (close req))) hout.shorten st
  have hrepeats := h.repeats (by rw [hserve]) (by rw [hserve]; exact thrown_shorten ..)
  have hanswers : AnswersId id (serve mainShards (req, .new (close req)) st).1 :=
    ⟨by rw [hserve], by rw [hserve]; exact thrown_shorten .., hrepeats.code.symm.trans hout.code,
      hrepeats.body.symm.trans hout.body⟩
  obtain ⟨ttl, hparsed⟩ := hout.parsed
  have hadds := adds_of_answersId (r := (req, .new (close req))) hout.shorten hparsed hanswers
  refine ⟨?_, hadds.shortId, hadds.link.congr h.kv h.bloom'⟩
  rw [← h.store]
  exact hadds.free

/-- A request that hands out an identifier is served. -/
theorem HandsOut.not_turnedDown (h : HandsOut (req, r) id url) :
    ¬ (req.method ≠ .kOptions → TurnedDown r) := by
  intro hdown
  have hmethod : req.method = .kPost := h.shorten.1
  exact (hdown (by rw [hmethod]; decide)).code_ne h.code

/-- **A request keeps every link**: it is not handed out again, and redirects. -/
theorem Linked.handle (h : Linked id url w) (hw : CachesEmpty w)
    (heq : (mainServer limiter).handle req w = (.ok r, w')) :
    Linked id url w' ∧ (∀ url', ¬ HandsOut (req, r) id url') ∧
      (IsRedirect id req → LeadsTo url r ∨ TurnedDown r) := by
  obtain ⟨r₁, w₁, heq₁, -, hspec⟩ := handle_spec limiter hw req
  rw [heq₁] at heq
  cases heq
  rcases hspec with ⟨hsame, hdown⟩ | ⟨st, hserves⟩
  · refine ⟨⟨h.shortId, h.link.congr hsame.kv (congrArg some hsame.bloom)⟩,
      fun url' hout => hout.not_turnedDown hdown, fun hreq => .inr (hdown ?_)⟩
    rw [hreq.1]
    decide
  · refine ⟨(hserves.linked h).1, fun url' hout => ?_, fun hreq => .inl (hserves.leadsTo h hreq)⟩
    have hfound : find w.app.kv id = some url := h.link.found
    rw [(hserves.handsOut hout).1] at hfound
    cases hfound

/-- **An identifier that is handed out is a link.** -/
theorem linked_of_handsOut (hw : CachesEmpty w)
    (heq : (mainServer limiter).handle req w = (.ok r, w')) (hout : HandsOut (req, r) id url) :
    Linked id url w' := by
  obtain ⟨r₁, w₁, heq₁, -, hspec⟩ := handle_spec limiter hw req
  rw [heq₁] at heq
  cases heq
  rcases hspec with ⟨-, hdown⟩ | ⟨st, hserves⟩
  · exact absurd hdown hout.not_turnedDown
  · exact (hserves.handsOut hout).2

/-! ## All requests -/

/-- What an exchange says of a later one: an identifier that it hands out is not handed out again,
and requests for it are redirected, or turned down. -/
def Binds (earlier later : HttpRequest × HttpResponse) : Prop :=
  ∀ id url, HandsOut earlier id url → (∀ url', ¬ HandsOut later id url') ∧
    (IsRedirect id later.1 → LeadsTo url later.2 ∨ TurnedDown later.2)

/-- The exchanges on all connections, in the order of the requests. -/
def exchanges (limiter : RateLimiter τ) (order : List (ℕ × Intake)) (w : World (Shared τ)) :
    List (ℕ × (HttpRequest × HttpResponse)) :=
  ((exchange (mainServer limiter).server).tagged.answers order w).flatten

/-- A request of an exchange is handled. -/
theorem exchange_mainServer (limiter : RateLimiter τ) (hw : CachesEmpty w) (intake : Intake) :
    CachesEmpty (exchange (mainServer limiter).server intake w).2 ∧
      ((exchange (mainServer limiter).server intake w).1 = [] ∧
          (exchange (mainServer limiter).server intake w).2 = w ∨
        ∃ req r w', (mainServer limiter).handle req w = (.ok r, w') ∧
          exchange (mainServer limiter).server intake w = ([(req, r)], w')) := by
  cases intake with
  | refused => exact ⟨hw, .inl ⟨rfl, rfl⟩⟩
  | request req =>
    obtain ⟨r, w', heq, hempty, -⟩ := handle_spec limiter hw req
    have hexchange : exchange (mainServer limiter).server (.request req) w =
        ([(req, r)], w') := by
      rw [CachingServer.handle] at heq
      simp only [exchange, heq]
    rw [hexchange]
    exact ⟨hempty, .inr ⟨req, r, w', heq, rfl⟩⟩

theorem pairwise_exchanges (limiter : RateLimiter τ) (hw : CachesEmpty w)
    (order : List (ℕ × Intake)) :
    (exchanges limiter order w).Pairwise fun earlier later => Binds earlier.2 later.2 := by
  refine Machine.pairwise_answers (I := CachesEmpty)
    (K := fun x w => ∀ id url, HandsOut x.2 id url → Linked id url w) ?_ ?_ ?_ hw order
  · exact fun c w hw => (exchange_mainServer limiter hw c.2).1
  · rintro ⟨i, intake⟩ w hw
    obtain ⟨-, ⟨hnil, -⟩ | ⟨req, r, w', heq, hexchange⟩⟩ := exchange_mainServer limiter hw intake
    · simp only [Machine.tagged, hnil]
      exact ⟨.nil, fun a ha => by cases ha⟩
    · simp only [Machine.tagged, hexchange]
      refine ⟨List.pairwise_singleton .., fun a ha => ?_⟩
      obtain rfl := List.mem_singleton.1 ha
      exact fun id url hout => linked_of_handsOut hw heq hout
  · rintro a ⟨i, intake⟩ w hw ha
    obtain ⟨-, ⟨hnil, hsame⟩ | ⟨req, r, w', heq, hexchange⟩⟩ :=
      exchange_mainServer limiter hw intake
    · simp only [Machine.tagged, hnil, hsame]
      exact ⟨ha, fun b hb => by cases hb⟩
    · simp only [Machine.tagged, hexchange]
      refine ⟨fun id url hout => ((ha id url hout).handle hw heq).1, fun b hb id url hout => ?_⟩
      obtain rfl := List.mem_singleton.1 hb
      exact ((ha id url hout).handle hw heq).2

theorem Starts.cachesEmpty (h : Starts w) : CachesEmpty w := fun i k => by
  rw [h.caches i, CacheStore.content_new]

open Serving in
/-- **Bytes on any connections**: there is an order of all requests, in which those of each
connection are the ones its bytes alone make, such that the server answers one after the other, and
sends the responses on the connections of their requests, up to the first that shuts one down. -/
theorem exists_exchanges (limiter : RateLimiter τ) (w : World (Shared τ))
    (events : List (ℕ × (Bytes × Timestamp))) :
    ∃ s order, events.foldlM (arrive (mainServer limiter).server.handleRequest) (new w) = some s ∧
      (∀ i, receive.feed (onKey i events) (HttpContext.new, []) =
        some (s.conns i, onKey i order)) ∧
      ∀ i reqs, onKey i order = reqs.map .request →
        (onKey i (exchanges limiter order w)).map Prod.fst = reqs ∧
          sentText (onKey i s.log) =
            (delivered (onKey i (exchanges limiter order w))).flatMap exchangeText := by
  have hok := (mainServer limiter).server.handleRequest_eq_ok
  obtain ⟨s, hs⟩ := exists_run (s := new w) hok (fun i h => by cases h) events
  obtain ⟨order, hfeed, -, hlog⟩ := run_eq hok hs
  refine ⟨s, order, hs, FrontEnd.feed_keyed hfeed, fun i reqs hreqs => ?_⟩
  rw [hlog]
  exact sentText_onKey _ hreqs w

/-- A request to shorten on one connection, cut in two, and a redirect on another. -/
def linkEvents : List (ℕ × (Bytes × Timestamp)) :=
  [(0, (bytes "POST /api/shorten HTTP/1.1\r\nContent-Length: 18\r\n\r\n\x7b\"url\":", 1)),
    (0, (bytes "\"http://a\"\x7d", 2)), (1, (bytes "GET /s/0000000 HTTP/1.1\r\n\r\n", 3))]

example : (linkEvents.foldlM (Serving.arrive (mainServer openLimiter).server.handleRequest)
    (Serving.new startWorld)).map (fun s => s.log.filterMap fun
      | (i, .replied text) => some (i, text.take 15)
      | _ => none) =
    some [(0, bytes "HTTP/1.1 200 OK"), (1, bytes "HTTP/1.1 301 Mo")] := by
  decide +kernel

end KamaHttp
