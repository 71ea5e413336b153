import KamaHttp.App.CacheAdapter
import KamaHttp.App.Guards
import KamaHttp.App.Links
import KamaHttp.Http.CorsMiddleware
import KamaHttp.Http.Dispatch

/-!
# The server of the shortener

What `main` puts together in a build without Redis: the middlewares for other origins, for the
limit, for the blacklist and for the cache, and the four routes over the store in memory.

* `build_mainRegistrations`: the routes are those that `main` registers.
* `handle_cases`: what a request does to the store.
-/

namespace KamaHttp

open MemoryStore MiddlewareChain

variable {τ : Type*}

/-- `SHARDS`. -/
def mainShards : ℕ+ := 8

/-- What the limiter and the handlers keep beside the counters. -/
structure Shared (τ : Type*) where
  limiter : τ
  kv : KVStore mainShards
  bloom : Bloom
  dist : ℕ → Fin 62

/-- The state of the handlers, with the filter and the counters. -/
def Shared.state (s : Shared τ) (metrics : Metrics) : State (KVStore mainShards) :=
  ⟨s.kv, some s.bloom, some metrics, s.dist⟩

/-- A limiter, on its part of what is shared. -/
def RateLimiter.onShared (limiter : RateLimiter τ) : RateLimiter (Shared τ) where
  allow key s := ((limiter.allow key s.limiter).1,
    { s with limiter := (limiter.allow key s.limiter).2 })

/-- A handler of the shortener, on its part of what is shared. -/
def Handler.onShared (f : Handler (State (KVStore mainShards))) : Handler (Metrics × Shared τ) :=
  fun req resp w =>
    let r := f req resp (w.2.state w.1)
    (r.1, r.2.metrics.getD w.1,
      { w.2 with kv := r.2.store, bloom := r.2.bloom.getD w.2.bloom, dist := r.2.dist })

/-- The patterns of `main`. -/
def mainBlacklist : BlacklistMiddleware := ⟨[bytes "javascript:", bytes "data:"]⟩

/-- The adapter of `main`, with a policy of 64 MiB and 300 seconds. -/
def mainCache : CacheAdapter := ⟨{ memoryCapacityBytes := 64 * 2 ^ 20, ttl := 300 }, 0, true⟩

/-- The filter of `main`, before anything is added. -/
def mainBloom : Bloom := .new (2 ^ 20) (Nat.two_pow_pos 20)

/-- The middlewares and the routes of `main`. -/
def mainServer (limiter : RateLimiter τ) : CachingServer (Shared τ) where
  chain :=
    [.other (corsMiddleware .defaultConfig),
      .other (RateLimitMiddleware.middleware ⟨limiter.onShared, true⟩),
      .other mainBlacklist.middleware,
      .cacheAdapter mainCache]
  router := (routes (memoryStore mainShards)).map Handler.onShared

section Registrations

variable {κ : Type*} (S : IStore κ)

/-- The registrations of `main`. -/
def mainRegistrations : List (Registration (Handler (State κ))) :=
  [.registerHandler .kPost (bytes "/api/shorten") (ShortenHandler.handle S),
    .addRegexHandler .kGet (bytes "^/s/([A-Za-z0-9_-]\x7b3,64\x7d)$") (RedirectHandler.handle S),
    .registerHandler .kGet (bytes "/metrics") MetricsHandler.handle,
    .registerHandler .kGet (bytes "/healthz") HealthHandler.handle]

/-- The router that `main` builds has the routes of the shortener. -/
theorem build_mainRegistrations {compile : RegexCompiler}
    (hcompile : compile (bytes "^^/s/([A-Za-z0-9_-]\x7b3,64\x7d)$$") = some shortPath) :
    Registration.build compile id (mainRegistrations S) = routes S := by
  have htext : Router.convertToRegex (bytes "^/s/([A-Za-z0-9_-]\x7b3,64\x7d)$") =
      bytes "^^/s/([A-Za-z0-9_-]\x7b3,64\x7d)$$" := by
    rfl
  have hroute : ∀ f : Handler (State κ),
      Router.regexRoute compile .kGet (bytes "^/s/([A-Za-z0-9_-]\x7b3,64\x7d)$") f =
        [⟨.kGet, shortPath, f⟩] := fun f => by
    rw [Router.regexRoute, htext, hcompile]
  have hhandlers : ∀ m p,
      (Registration.build compile id (mainRegistrations S)).handlers m p =
        (routes S).handlers m p := fun m p => by
    by_cases hshorten : m = .kPost ∧ p = bytes "/api/shorten"
    · obtain ⟨rfl, rfl⟩ := hshorten
      rfl
    by_cases hmetrics : m = .kGet ∧ p = bytes "/metrics"
    · obtain ⟨rfl, rfl⟩ := hmetrics
      rfl
    · simp only [Registration.build, mainRegistrations, List.foldl_cons, List.foldl_nil,
        Registration.register, Router.registerHandler, Router.addRegexHandler, Router.empty,
        routes, hshorten, hmetrics, if_false, id]
  have hregex : (Registration.build compile id (mainRegistrations S)).regexHandlers =
      (routes S).regexHandlers := hroute _
  exact Router.ext (funext₂ hhandlers) rfl hregex rfl

end Registrations

/-- The world before the first request: the stores and the counters are empty. -/
structure Starts (w : World (Shared τ)) : Prop where
  caches : ∀ i, w.caches i = .new mainCache.policy.memoryCapacityBytes
  metrics : w.metrics = {}
  kv : w.app.kv = .new mainShards
  bloom : w.app.bloom = mainBloom

/-- A world before the first request, with a generator that draws zeros. -/
def startWorld : World (Shared Unit) where
  caches _ := .new mainCache.policy.memoryCapacityBytes
  metrics := {}
  readings _ := 0
  app := ⟨(), .new mainShards, mainBloom, fun _ => ⟨0, Nat.succ_pos 61⟩⟩

theorem starts_startWorld : Starts startWorld := ⟨fun _ => rfl, rfl, rfl, rfl⟩

/-! ## What a request does to the store -/

/-- The routes, on the world: they are those of the shortener on its part of it. -/
theorem route_mainServer (limiter : RateLimiter τ) (req : HttpRequest) (resp : HttpResponse)
    (w : World (Shared τ)) :
    ((mainServer limiter).server.router.route req resp w).2.1 =
        (serve mainShards (req, resp) (w.app.state w.metrics)).1.2 ∧
      ((mainServer limiter).server.router.route req resp w).2.2.app.kv =
        (serve mainShards (req, resp) (w.app.state w.metrics)).2.store := by
  have hworld := (mainServer limiter).router.route_map Handler.onRest
    (fun w : World (Shared τ) => (w.metrics, w.app))
    (fun w x => { w with metrics := x.1, app := x.2 }) (fun _ _ _ _ => rfl) (fun _ => rfl)
    req resp w
  have hshared := (routes (memoryStore mainShards)).route_map Handler.onShared
    (fun w : Metrics × Shared τ => w.2.state w.1)
    (fun w st => (st.metrics.getD w.1,
      { w.2 with kv := st.store, bloom := st.bloom.getD w.2.bloom, dist := st.dist }))
    (fun _ _ _ _ => rfl) (fun _ => rfl) req resp (w.metrics, w.app)
  have hrouter : (mainServer limiter).server.router =
      (mainServer limiter).router.map Handler.onRest := rfl
  rw [hrouter, hworld, show (mainServer limiter).router =
    (routes (memoryStore mainShards)).map Handler.onShared from rfl, hshared]
  exact ⟨rfl, rfl⟩

/-- The middlewares of `main` beside the cache. -/
theorem other_mem_mainServer {limiter : RateLimiter τ} {m : Middleware (Metrics × Shared τ)}
    (h : .other m ∈ (mainServer limiter).chain) :
    m = corsMiddleware .defaultConfig ∨
      m = RateLimitMiddleware.middleware ⟨limiter.onShared, true⟩ ∨
      m = mainBlacklist.middleware := by
  simpa only [mainServer, List.mem_cons, Component.other.injEq, reduceCtorEq, List.not_mem_nil,
    or_false] using h

/-- The middlewares of `main` let requests pass as they are, or throw. -/
theorem mainServer_filters (limiter : RateLimiter τ) :
    ∀ m ∈ (mainServer limiter).server.middlewares, Filters m := by
  intro m hm
  obtain ⟨c, hc, rfl⟩ := List.mem_map.1 hm
  refine Component.filters fun m hm => ?_
  subst hm
  rcases other_mem_mainServer hc with rfl | rfl | rfl
  · exact corsMiddleware_filters _
  · exact RateLimitMiddleware.filters _
  · exact mainBlacklist.filters

/-- What the middlewares of `main` respect: the limiter changes its own part of what is shared, and
the responses that are thrown are those to a preflight request and to one that is turned down. -/
theorem mainServer_respects {P : HttpRequest → Prop} {Q : HttpResponse → Prop}
    {I : Shared τ → Prop} (limiter : RateLimiter τ)
    (hlimiter : ∀ s l, I s → I { s with limiter := l }) (hlimited : Q RateLimitMiddleware.limited)
    (hblocked : Q BlacklistMiddleware.blocked)
    (hcors : (corsMiddleware .defaultConfig : Middleware (Metrics × Shared τ)).Respects P Q
      fun x => I x.2) :
    ∀ m ∈ (mainServer limiter).server.middlewares, m.Respects P Q (RestOf I) := by
  intro m hm
  obtain ⟨c, hc, rfl⟩ := List.mem_map.1 hm
  refine Component.respects fun m hm => ?_
  subst hm
  rcases other_mem_mainServer hc with rfl | rfl | rfl
  · exact hcors
  · exact RateLimitMiddleware.respects _ (fun key s hs => hlimiter s _ hs) hlimited
  · exact mainBlacklist.respects hblocked

/-- A request that was not on the blacklist has the URL in its body, and the store has the URL under
an identifier that was free. -/
structure Stores (req : HttpRequest) (id url : Bytes) (kv kv' : KVStore mainShards) : Prop where
  passed : mainBlacklist.blocks req = false
  parsed : ∃ ttl, parseJson req.getBody = some (url, ttl)
  valid : UrlValidator.valid url
  shortId : IsShortId id
  free : find kv id = none
  store : kv' = kv.set (shard mainShards id) id url

/-- What the route of a request does to the store. -/
theorem route_stores (limiter : RateLimiter τ) {req : HttpRequest}
    (hpassed : mainBlacklist.blocks req = false) (resp : HttpResponse) (w : World (Shared τ)) :
    let kv' := ((mainServer limiter).server.router.route req resp w).2.2.app.kv
    kv' = w.app.kv ∨ ∃ id url, Stores req id url w.app.kv kv' := by
  intro kv'
  have hkv : kv' = (serve mainShards (req, resp) (w.app.state w.metrics)).2.store :=
    (route_mainServer limiter req resp w).2
  rcases serve_cases (req, resp) (w.app.state w.metrics) with
    ⟨hstore, -, -⟩ | ⟨hshorten, id, url, ttl, hparsed, -, hadds⟩
  · exact .inl (hkv.trans hstore)
  · have hvalid : UrlValidator.valid url := by
      have hhandler := hadds
      rw [serve_of_isShorten hshorten] at hhandler
      exact hhandler.valid hparsed
    exact .inr ⟨id, url, hpassed, ⟨ttl, hparsed⟩, hvalid, hadds.shortId, hadds.free,
      hkv.trans hadds.store⟩

/-- **What a request does to the store**: nothing, or it stores a URL that was vetted. -/
theorem handle_cases (limiter : RateLimiter τ) {w : World (Shared τ)} (hw : CachesEmpty w)
    (req : HttpRequest) :
    let w' := ((mainServer limiter).handle req w).2
    CachesEmpty w' ∧
      (w'.app.kv = w.app.kv ∨ ∃ id url, Stores req id url w.app.kv w'.app.kv) := by
  intro w'
  have hrespects : ∀ kv, ∀ m ∈ (mainServer limiter).server.middlewares,
      m.Respects (fun _ => True) (fun _ => True) (RestOf fun s => s.kv = kv) := fun kv =>
    mainServer_respects limiter (fun _ _ hs => hs) trivial trivial
      (corsMiddleware_respects (fun _ _ _ => trivial) fun _ _ _ _ => trivial)
  have hbefore : RestOf (fun s => s.kv = w.app.kv)
      (processBefore (mainServer limiter).server.middlewares req w).2 :=
    (processBefore_respects (hrespects w.app.kv) trivial ⟨hw, rfl⟩).1
  rcases (mainServer limiter).server.handleRequest_state req
    (HttpResponse.new (HttpServer.close req)) w with ⟨x, hb⟩ | ⟨req', w₁, hb, hstate⟩
  · rw [hb] at hbefore
    exact ⟨hbefore.1, .inl hbefore.2⟩
  rw [hb] at hbefore
  obtain ⟨rfl, hpassed⟩ := of_processBefore_filters (mainServer_filters limiter) hb
  obtain ⟨w₀, hlet⟩ := hpassed (Component.other mainBlacklist.middleware).middleware
    (List.mem_map_of_mem (by simp [mainServer]))
  have hblocks : mainBlacklist.blocks req' = false :=
    BlacklistMiddleware.blocks_of_before (w := (w₀.metrics, w₀.app)) hlet
  have hroute := route_stores limiter hblocks (HttpResponse.new (HttpServer.close req')) w₁
  have hcaches : CachesEmpty ((mainServer limiter).server.router.route req'
      (HttpResponse.new (HttpServer.close req')) w₁).2.2 := by
    refine Router.route_preserves (fun f hf req resp w hw => ?_) hbefore.1
    obtain ⟨g, -, rfl⟩ := Router.exists_of_registers_onRest hf
    exact hw
  rw [hbefore.2] at hroute
  generalize ((mainServer limiter).server.router.route req'
    (HttpResponse.new (HttpServer.close req')) w₁).2.2 = w₂ at hroute hcaches hstate
  have hstate' : RestOf (fun s => s.kv = w₂.app.kv) w' := by
    rcases hstate with hstate | ⟨given, hstate⟩
    · rw [show w' = w₂ from hstate]
      exact ⟨hcaches, rfl⟩
    · rw [show w' = _ from hstate]
      exact (processAfter_respects (hrespects _) trivial ⟨hcaches, rfl⟩).state
  refine ⟨hstate'.1, ?_⟩
  rw [hstate'.2]
  exact hroute

/-- A handler of the shortener respects on the world what it respects on its part of it. -/
theorem Handler.onShared_respects {P : HttpRequest → Prop} {Q : HttpResponse → Prop}
    {I : KVStore mainShards → Prop} {f : Handler (State (KVStore mainShards))}
    (hf : Handler.Respects P Q (fun st => I st.store) f) :
    Handler.Respects P Q (fun x : Metrics × Shared τ => I x.2.kv) f.onShared := by
  intro req resp w hreq hresp hw
  have h := hf req resp (w.2.state w.1) hreq hresp hw
  exact ⟨h.state, h.left, h.thrown⟩

end KamaHttp
