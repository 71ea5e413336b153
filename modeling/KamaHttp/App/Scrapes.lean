import KamaHttp.App.ServedLinks
import KamaHttp.Foundations.Exposition

/-!
# What a scrape shows

`GET /metrics` through the server that `main` assembles. The text is read back as the counters, and
the counters are the numbers of the responses of each kind that were made before, on all
connections.

* `samples_prometheus`: the text is read as the counters.
* `handle_tallied`: what a request adds to the counters, told by its response.
* `scrapes_served`: what the scrapes show, in the order of all requests.
-/

namespace KamaHttp

open Exposition HttpServer MemoryStore MiddlewareChain Search

/-! ## The text -/

namespace Metrics

/-- The lines of the text. -/
def lines (m : Metrics) : List Line :=
  [.comment (bytes " HELP url_shortener_store_get_hit Store GET hits"),
    .comment (bytes " TYPE url_shortener_store_get_hit counter"),
    .sample (bytes "url_shortener_store_get_hit") m.storeGetHit,
    .comment (bytes " HELP url_shortener_store_get_miss Store GET misses"),
    .comment (bytes " TYPE url_shortener_store_get_miss counter"),
    .sample (bytes "url_shortener_store_get_miss") m.storeGetMiss,
    .comment (bytes " HELP url_shortener_store_setnx_ok Store SETNX successes"),
    .comment (bytes " TYPE url_shortener_store_setnx_ok counter"),
    .sample (bytes "url_shortener_store_setnx_ok") m.storeSetnxOk,
    .comment (bytes " HELP url_shortener_store_setnx_conflict Store SETNX conflicts"),
    .comment (bytes " TYPE url_shortener_store_setnx_conflict counter"),
    .sample (bytes "url_shortener_store_setnx_conflict") m.storeSetnxConflict,
    .comment (bytes " HELP url_shortener_shorten_ok Total shorten success"),
    .comment (bytes " TYPE url_shortener_shorten_ok counter"),
    .sample (bytes "url_shortener_shorten_ok") m.shortenOk,
    .comment (bytes " HELP url_shortener_redirect_ok Total redirects"),
    .comment (bytes " TYPE url_shortener_redirect_ok counter"),
    .sample (bytes "url_shortener_redirect_ok") m.redirectOk,
    .sample (bytes "url_shortener_redirect_miss") m.redirectMiss,
    .sample (bytes "url_shortener_shorten_bad") m.shortenBad,
    .sample (bytes "url_shortener_ratelimit_drops") m.ratelimitDrops,
    .sample (bytes "url_shortener_cache_hits") m.cacheHits,
    .sample (bytes "url_shortener_cache_sets") m.cacheSets]

/-- The counters, by their names. -/
def table (m : Metrics) : List (Bytes × ℕ) := m.lines.flatMap Line.sample?

theorem line_eq (name : String) (value : ℕ) :
    line name value = (Line.sample (bytes name) value).text ++ [10] := by
  simp [line, Line.text]

theorem comment_eq (text : String) :
    (Line.comment (bytes text)).text ++ [10] = bytes ("#" ++ text ++ "\n") := by
  simp [bytes, Line.text]

theorem prometheus_eq (m : Metrics) : m.prometheus = render m.lines := by
  simp only [lines, render, List.flatMap_cons, List.flatMap_nil, comment_eq, String.reduceAppend]
  unfold prometheus
  simp only [line_eq, List.append_assoc, List.append_nil]

theorem lines_wellFormed (m : Metrics) : ∀ l ∈ m.lines, l.WellFormed := by
  simp only [lines, List.forall_mem_cons, List.not_mem_nil, false_implies, implies_true, and_true]
  simp only [Line.WellFormed]
  and_intros <;> decide +kernel

/-- **The text is read as the counters.** -/
theorem samples_prometheus (m : Metrics) : samples m.prometheus = some m.table := by
  rw [prometheus_eq, samples_render m.lines_wellFormed, table]

end Metrics

/-! ## What a response counts for -/

instance : DecidablePred TurnedDown := fun _ => inferInstanceAs (Decidable ((_ ∧ _) ∨ (_ ∧ _)))

instance : DecidablePred IsShorten := fun _ => inferInstanceAs (Decidable (_ ∧ _))

/-- The request of a scrape. -/
def IsScrape (req : HttpRequest) : Prop := req.method = .kGet ∧ req.path = bytes "/metrics"

namespace Exchange

/-- A URL was shortened. -/
def Shortened (x : HttpRequest × HttpResponse) : Prop := IsShorten x.1 ∧ x.2.statusCode = 200

/-- A request to shorten had no valid URL. -/
def Rejected (x : HttpRequest × HttpResponse) : Prop :=
  IsShorten x.1 ∧ x.2.statusCode = 400 ∧ ¬ TurnedDown x.2

/-- A request was redirected. -/
def Moved (x : HttpRequest × HttpResponse) : Prop := x.2.statusCode = 301

/-- A request was for an identifier that is not known. -/
def Missed (x : HttpRequest × HttpResponse) : Prop :=
  x.1.method = .kGet ∧ (shortPath x.1.path).isSome ∧ x.2.statusCode = 404

/-- The limiter turned a request down. -/
def Limited (x : HttpRequest × HttpResponse) : Prop := x.2.statusCode = 403

/-- A request passed all hooks, and was routed. -/
def Served (x : HttpRequest × HttpResponse) : Prop := x.1.method ≠ .kOptions ∧ ¬ TurnedDown x.2

instance : DecidablePred Shortened := fun _ => inferInstanceAs (Decidable (_ ∧ _))
instance : DecidablePred Rejected := fun _ => inferInstanceAs (Decidable (_ ∧ _ ∧ _))
instance : DecidablePred Moved := fun _ => inferInstanceAs (Decidable (_ = _))
instance : DecidablePred Missed := fun _ => inferInstanceAs (Decidable (_ ∧ _ ∧ _))
instance : DecidablePred Limited := fun _ => inferInstanceAs (Decidable (_ = _))
instance : DecidablePred Served := fun _ => inferInstanceAs (Decidable (_ ∧ _))

end Exchange

open Exchange

/-- What an exchange adds to the counters. -/
structure Tallied (x : HttpRequest × HttpResponse) (m m' : Metrics) : Prop where
  shortenOk : m'.shortenOk = m.shortenOk + if Shortened x then 1 else 0
  shortenBad : m'.shortenBad = m.shortenBad + if Rejected x then 1 else 0
  redirectOk : m'.redirectOk = m.redirectOk + if Moved x then 1 else 0
  redirectMiss : m'.redirectMiss = m.redirectMiss + if Missed x then 1 else 0
  ratelimitDrops : m'.ratelimitDrops = m.ratelimitDrops + if Limited x then 1 else 0
  cacheHits : m'.cacheHits = m.cacheHits
  cacheSets : m'.cacheSets = m.cacheSets + if Exchange.Served x then 1 else 0
  storeGetHit : m'.storeGetHit = m.storeGetHit + if Moved x then 1 else 0
  storeGetMiss : m.storeGetMiss ≤ m'.storeGetMiss ∧
    m'.storeGetMiss ≤ m.storeGetMiss + if Missed x then 1 else 0
  storeSetnxOk : m'.storeSetnxOk = m.storeSetnxOk + if Shortened x then 1 else 0
  storeSetnxConflict : m.storeSetnxConflict ≤ m'.storeSetnxConflict ∧
    m'.storeSetnxConflict ≤ m.storeSetnxConflict + if IsShorten x.1 then 5 else 0

/-- The counters behind exchanges, but for what no response tells: which of the unknown identifiers
the filter turned down, and how many identifiers were taken. -/
structure Shows (past : List (HttpRequest × HttpResponse)) (m : Metrics) : Prop where
  shortenOk : m.shortenOk = past.countP (Shortened ·)
  shortenBad : m.shortenBad = past.countP (Rejected ·)
  redirectOk : m.redirectOk = past.countP (Moved ·)
  redirectMiss : m.redirectMiss = past.countP (Missed ·)
  ratelimitDrops : m.ratelimitDrops = past.countP (Limited ·)
  cacheHits : m.cacheHits = 0
  cacheSets : m.cacheSets = past.countP (Exchange.Served ·)
  storeGetHit : m.storeGetHit = past.countP (Moved ·)
  storeGetMiss : m.storeGetMiss ≤ past.countP (Missed ·)
  storeSetnxOk : m.storeSetnxOk = past.countP (Shortened ·)
  storeSetnxConflict : m.storeSetnxConflict ≤ 5 * past.countP (IsShorten ·.1)

section Tallies

variable {past : List (HttpRequest × HttpResponse)} {x : HttpRequest × HttpResponse}
  {m m' : Metrics}

theorem shows_nil : Shows [] {} := ⟨rfl, rfl, rfl, rfl, rfl, rfl, rfl, rfl, le_rfl, rfl, le_rfl⟩

/-- **An exchange more is shown.** -/
theorem Shows.tallied (h : Shows past m) (hx : Tallied x m m') : Shows (past ++ [x]) m' where
  shortenOk := by simp [hx.shortenOk, h.shortenOk, List.countP_singleton]
  shortenBad := by simp [hx.shortenBad, h.shortenBad, List.countP_singleton]
  redirectOk := by simp [hx.redirectOk, h.redirectOk, List.countP_singleton]
  redirectMiss := by simp [hx.redirectMiss, h.redirectMiss, List.countP_singleton]
  ratelimitDrops := by simp [hx.ratelimitDrops, h.ratelimitDrops, List.countP_singleton]
  cacheHits := hx.cacheHits.trans h.cacheHits
  cacheSets := by simp [hx.cacheSets, h.cacheSets, List.countP_singleton]
  storeGetHit := by simp [hx.storeGetHit, h.storeGetHit, List.countP_singleton]
  storeGetMiss := by
    have hle := h.storeGetMiss
    have hup := hx.storeGetMiss.2
    simp only [List.countP_append, List.countP_singleton, decide_eq_true_eq]
    omega
  storeSetnxOk := by simp [hx.storeSetnxOk, h.storeSetnxOk, List.countP_singleton]
  storeSetnxConflict := by
    have hle := h.storeSetnxConflict
    have hup := hx.storeSetnxConflict.2
    simp only [List.countP_append, List.countP_singleton, decide_eq_true_eq]
    split at hup <;> simp_all <;> omega

end Tallies

/-! ## What the handlers count -/

section Handlers

variable {shards : ℕ+} {st : State (KVStore shards)} {m : Metrics}

/-- What the attempts to shorten count: the identifiers that are taken, and then a success if one is
free. -/
theorem attempts_metrics (url : Bytes) (ttl : ℤ) (resp : HttpResponse) (n : ℕ)
    (hm : st.metrics = some m) :
    let a := ShortenHandler.attempts (memoryStore shards) url ttl resp n st
    ∃ taken ≤ n, (∃ id, a.1 = .returns (ShortenHandler.created id resp) ∧
        a.2.metrics = some { m with
          shortenOk := m.shortenOk + 1
          storeSetnxOk := m.storeSetnxOk + 1
          storeSetnxConflict := m.storeSetnxConflict + taken }) ∨
      (a.1 = .returns ((resp.setStatusCode 500).setBody (bytes "exhausted id retries")) ∧
        a.2.metrics = some { m with storeSetnxConflict := m.storeSetnxConflict + taken }) := by
  induction n generalizing st m with
  | zero => exact ⟨0, le_rfl, .inr ⟨rfl, hm⟩⟩
  | succ n ih =>
    unfold ShortenHandler.attempts
    simp only [setNX_eq]
    cases hf : find st.store (ShortId.random 7 st.dist).1 with
    | none =>
      simp only [Option.isSome_none, Bool.false_eq_true, if_false]
      exact ⟨0, Nat.zero_le _, .inl ⟨_, rfl, by simp [State.count, hm]⟩⟩
    | some v =>
      simp only [Option.isSome_some, if_true]
      have hm' : (State.count { st with dist := (ShortId.random 7 st.dist).2 } fun m =>
          { m with storeSetnxConflict := m.storeSetnxConflict + 1 }).metrics =
            some { m with storeSetnxConflict := m.storeSetnxConflict + 1 } := by
        simp [State.count, hm]
      obtain ⟨taken, hle, hcases⟩ := ih hm'
      refine ⟨taken + 1, Nat.succ_le_succ hle, ?_⟩
      simpa only [Nat.add_assoc, Nat.add_comm 1 taken] using hcases

/-- A request that is routed counts for what its response says, if the counters go up with the code
of the response. -/
structure RouteTallied (req : HttpRequest) (given : HttpResponse) (m m' : Metrics) : Prop where
  tallied : ∀ r, Repeats given r → req.method ≠ .kOptions →
    Tallied (req, r) m { m' with cacheSets := m'.cacheSets + 1 }
  scrape : IsScrape req → given.statusCode = 200 ∧ given.body = m.prometheus

theorem not_isScrape_of_isShorten {req : HttpRequest} (h : IsShorten req) : ¬ IsScrape req := by
  intro hscrape
  rw [IsScrape, h.1] at hscrape
  exact absurd hscrape.1 (by decide)

theorem shorten_tallied {req : HttpRequest} (hreq : IsShorten req) (resp : HttpResponse)
    (hm : st.metrics = some m) :
    let a := ShortenHandler.handle (memoryStore shards) req resp st
    ∃ m', a.2.metrics = some m' ∧ a.1.thrown = none ∧
      RouteTallied req a.1.response m m' := by
  have hscrape := not_isScrape_of_isShorten hreq
  have hget : req.method ≠ .kGet := by rw [hreq.1]; decide
  have hinvalid : ∃ m', (st.count fun m => { m with shortenBad := m.shortenBad + 1 }).metrics =
      some m' ∧ (Answer.returns (ShortenHandler.invalidUrl resp)).thrown = none ∧
        RouteTallied req (ShortenHandler.invalidUrl resp) m m' := by
    refine ⟨{ m with shortenBad := m.shortenBad + 1 }, by simp [State.count, hm], rfl, ?_,
      fun h => absurd h hscrape⟩
    intro r hr hmethod
    have hcode : r.statusCode = 400 := hr.code
    have hbody : r.body ≠ bytes "blocked by blacklist" := by
      rw [hr.body]
      show bytes "\x7b\"error\":\"invalid url\"\x7d" ≠ _
      decide
    constructor <;>
      simp [Shortened, Rejected, Moved, Missed, Limited, Exchange.Served, TurnedDown, hcode, hbody,
        hreq, hmethod]
  unfold ShortenHandler.handle
  dsimp only
  split
  · exact hinvalid
  split
  · rename_i url ttl hparsed hvalid
    obtain ⟨taken, hle, ⟨id, hanswer, hm'⟩ | ⟨hanswer, hm'⟩⟩ :=
      attempts_metrics url ttl resp 5 hm
    · refine ⟨_, hm', by rw [hanswer]; rfl, ?_, fun h => absurd h hscrape⟩
      intro r hr hmethod
      have hcode : r.statusCode = 200 := by
        rw [hr.code, hanswer]
        rfl
      constructor <;>
        simp [Shortened, Rejected, Moved, Missed, Limited, Exchange.Served, TurnedDown, hcode, hreq,
          hmethod, hle]
    · refine ⟨_, hm', by rw [hanswer]; rfl, ?_, fun h => absurd h hscrape⟩
      intro r hr hmethod
      have hcode : r.statusCode = 500 := by
        rw [hr.code, hanswer]
        rfl
      constructor <;>
        simp [Shortened, Rejected, Moved, Missed, Limited, Exchange.Served, TurnedDown, hcode, hreq,
          hmethod, hle]
  · exact hinvalid

theorem not_isShorten_of_get {req : HttpRequest} (h : req.method = .kGet) : ¬ IsShorten req := by
  intro hshorten
  rw [IsShorten, h] at hshorten
  exact absurd hshorten.1 (by decide)

/-- What a lookup counts: a redirect, or a miss. -/
theorem redirect_tallied {req req' : HttpRequest} (hmethod : req.method = .kGet)
    (hpath : (shortPath req.path).isSome)
    (hid : req'.getPathParameters (bytes "param1") ≠ []) (resp : HttpResponse)
    (hm : st.metrics = some m) :
    let a := RedirectHandler.handle (memoryStore shards) req' resp st
    ∃ m', a.2.metrics = some m' ∧ a.1.thrown = none ∧ RouteTallied req a.1.response m m' := by
  have hshorten := not_isShorten_of_get hmethod
  have hscrape : ¬ IsScrape req := by
    rintro ⟨-, h⟩
    rw [h] at hpath
    exact absurd hpath (by decide)
  have hmissed {m' : Metrics} (hmiss : m' = { m with
      redirectMiss := m.redirectMiss + 1, storeGetMiss := m'.storeGetMiss })
      (hle : m.storeGetMiss ≤ m'.storeGetMiss ∧ m'.storeGetMiss ≤ m.storeGetMiss + 1) :
      RouteTallied req (RedirectHandler.notFound resp) m m' := by
    refine ⟨fun r hr _ => ?_, fun h => absurd h hscrape⟩
    have hcode : r.statusCode = 404 := hr.code
    rw [hmiss]
    constructor <;>
      simp [Shortened, Rejected, Moved, Missed, Limited, Exchange.Served, TurnedDown, hcode,
        hshorten, hmethod, hpath, hle]
  have hmoved (url : Bytes) : RouteTallied req (RedirectHandler.moved url resp) m
      { m with redirectOk := m.redirectOk + 1, storeGetHit := m.storeGetHit + 1 } := by
    refine ⟨fun r hr _ => ?_, fun h => absurd h hscrape⟩
    have hcode : r.statusCode = 301 := hr.code
    constructor <;>
      simp [Shortened, Rejected, Moved, Missed, Limited, Exchange.Served, TurnedDown, hcode,
        hshorten, hmethod]
  unfold RedirectHandler.handle
  simp only [hid, if_false]
  split
  · exact ⟨{ m with redirectMiss := m.redirectMiss + 1 }, by simp [State.count, hm], rfl,
      hmissed rfl ⟨le_rfl, Nat.le_succ _⟩⟩
  · have hget : (memoryStore shards).get (req'.getPathParameters (bytes "param1")) st.store =
        (.ok (find st.store (req'.getPathParameters (bytes "param1"))), st.store) := rfl
    rw [RedirectHandler.lookup, hget]
    cases find st.store (req'.getPathParameters (bytes "param1")) with
    | none =>
      exact ⟨{ m with redirectMiss := m.redirectMiss + 1, storeGetMiss := m.storeGetMiss + 1 },
        by simp [State.count, hm], rfl, hmissed rfl ⟨Nat.le_succ _, le_rfl⟩⟩
    | some url => exact ⟨_, by simp [State.count, hm], rfl, hmoved url⟩

/-- **What a routed request counts**, and what a scrape is given. -/
theorem serve_tallied (req : HttpRequest) (resp : HttpResponse) (hm : st.metrics = some m) :
    let a := serve shards (req, resp) st
    ∃ m', a.2.metrics = some m' ∧ a.1.2.thrown = none ∧
      RouteTallied req (if a.1.1 then a.1.2.response else notFound a.1.2.response) m m' := by
  by_cases hshorten : IsShorten req
  · rw [serve_of_isShorten (r := (req, resp)) hshorten]
    exact shorten_tallied hshorten resp hm
  by_cases hlookup : req.method = .kGet ∧ (shortPath req.path).isSome
  · obtain ⟨hmethod, hpath⟩ := hlookup
    obtain ⟨groups, hgroups⟩ := Option.isSome_iff_exists.1 hpath
    obtain ⟨-, id, rfl, hid⟩ := eq_of_shortPath hgroups
    have hparam : (Router.extractPathParameters [id] req).getPathParameters (bytes "param1") ≠
        [] := by
      rw [extractPathParameters_singleton]
      simpa [HttpRequest.setPathParameters, HttpRequest.getPathParameters] using hid
    rw [serve, route_redirect (memoryStore shards) resp st hmethod hgroups]
    exact redirect_tallied hmethod hpath hparam resp hm
  have hfind : Router.findRoute (routes (memoryStore shards)).regexHandlers req = none := by
    rw [Router.findRoute, List.findSome?_eq_none_iff]
    intro route hroute
    obtain rfl := List.mem_singleton.1 hroute
    split
    · rename_i hmethod
      rcases hpath : shortPath req.path with _ | groups
      · exact congrArg (Option.map _) hpath
      · exact absurd ⟨hmethod.symm, by rw [hpath]; rfl⟩ hlookup
    · rfl
  have hcallbacks : (routes (memoryStore shards)).callbacks req.method req.path = none := rfl
  have hregex : Router.findRoute (routes (memoryStore shards)).regexCallbacks req = none := rfl
  simp only [serve, Router.route, handlers_of_not_shorten _ hshorten, hcallbacks, hfind, hregex]
  by_cases hmetrics : req.method = .kGet ∧ req.path = bytes "/metrics"
  · rw [if_pos hmetrics]
    refine ⟨m, hm, rfl, fun r hr hmethod => ?_, fun _ => ⟨rfl, ?_⟩⟩
    · have hcode : r.statusCode = 200 := hr.code
      constructor <;>
        simp [Shortened, Rejected, Moved, Missed, Limited, Exchange.Served, TurnedDown, hcode,
          hshorten, hmethod]
    · show (st.metrics.getD {}).prometheus = _
      rw [hm]
      rfl
  rw [if_neg hmetrics]
  by_cases hhealth : req.method = .kGet ∧ req.path = bytes "/healthz"
  · rw [if_pos hhealth]
    refine ⟨m, hm, rfl, fun r hr hmethod => ?_, fun h => absurd h hmetrics⟩
    have hcode : r.statusCode = 200 := hr.code
    constructor <;>
      simp [Shortened, Rejected, Moved, Missed, Limited, Exchange.Served, TurnedDown, hcode,
        hshorten, hmethod]
  · rw [if_neg hhealth]
    refine ⟨m, hm, rfl, fun r hr hmethod => ?_, fun h => absurd h hmetrics⟩
    have hcode : r.statusCode = 404 := hr.code
    constructor <;>
      simp [Shortened, Rejected, Moved, Missed, Limited, Exchange.Served, TurnedDown, hcode,
        hshorten, hmethod, hlookup]

end Handlers

/-! ## What a request counts -/

section Requests

variable {τ : Type*} (limiter : RateLimiter τ) {w : World (Shared τ)}

/-- An adapter with an empty store counts no hit. -/
theorem CachesEmpty.metrics_before (hw : CachesEmpty w) (a : CacheAdapter) (req : HttpRequest) :
    ∃ w', a.before req w = (.ok req, w') ∧ w'.metrics = w.metrics := by
  have hpass := (hw.adapter_before a req).1
  simp only [CacheAdapter.before] at hpass ⊢
  split at hpass
  · cases hpass
  · exact ⟨_, rfl, rfl⟩

/-- **What the hooks before the handler count**: a request that the limiter turns down. -/
theorem processBefore_tallied (hw : CachesEmpty w) (req : HttpRequest) :
    (∃ r w', processBefore (mainServer limiter).server.middlewares req w =
        (.error (.response r), w') ∧ Tallied (req, r) w.metrics w'.metrics ∧ r.statusCode ≠ 200) ∨
      ∃ w', processBefore (mainServer limiter).server.middlewares req w = (.ok req, w') ∧
        req.method ≠ .kOptions ∧ w'.metrics = w.metrics := by
  have hchain : (mainServer limiter).server.middlewares =
      [(Component.other (corsMiddleware .defaultConfig)).middleware,
        (Component.other (RateLimitMiddleware.middleware ⟨limiter.onShared, true⟩)).middleware,
        (Component.other mainBlacklist.middleware).middleware, mainCache.middleware] := rfl
  simp only [hchain, processBefore, Component.middleware, World.onRest, corsMiddleware,
    CorsMiddleware.before]
  by_cases hoptions : req.method = .kOptions
  · -- a preflight request, from any origin
    left
    simp only [if_pos hoptions]
    have hcode : (CorsMiddleware.handlePreflightRequest .defaultConfig req
        (.new true)).statusCode = 204 := rfl
    refine ⟨_, _, rfl, ?_, by rw [hcode]; decide⟩
    constructor <;>
      simp [Shortened, Rejected, Moved, Missed, Limited, Exchange.Served, IsShorten, hcode,
        hoptions]
  simp only [if_neg hoptions, RateLimitMiddleware.middleware, RateLimitMiddleware.before]
  rcases limiter.onShared.allow (RateLimitMiddleware.clientOf req) w.app with ⟨_ | _, app⟩
  · -- a client that has come too often
    left
    have hcode : RateLimitMiddleware.limited.statusCode = 403 := rfl
    have hbody : RateLimitMiddleware.limited.body = bytes "rate limited" := rfl
    refine ⟨_, _, rfl, ?_, by rw [hcode]; decide⟩
    constructor <;>
      simp [Shortened, Rejected, Moved, Missed, Limited, Exchange.Served, TurnedDown, hcode, hbody,
        RateLimitMiddleware.countDrop]
  simp only [BlacklistMiddleware.middleware, BlacklistMiddleware.before]
  by_cases hblocks : mainBlacklist.blocks req
  · -- a request on the blacklist
    left
    have hcode : BlacklistMiddleware.blocked.statusCode = 400 := rfl
    have hbody : BlacklistMiddleware.blocked.body = bytes "blocked by blacklist" := rfl
    simp only [if_pos hblocks]
    refine ⟨_, _, rfl, ?_, by rw [hcode]; decide⟩
    constructor <;>
      simp [Shortened, Rejected, Moved, Missed, Limited, Exchange.Served, TurnedDown, hcode, hbody]
  · right
    simp only [if_neg hblocks, CacheAdapter.middleware]
    obtain ⟨w', hbefore, hmetrics⟩ :=
      CachesEmpty.metrics_before (w := { w with metrics := w.metrics, app := app }) hw mainCache req
    simp only [hbefore]
    exact ⟨w', rfl, hoptions, hmetrics⟩

/-- The hooks behind the handler count an entry, and leave what the response says. -/
theorem processAfter_tallied (given : HttpResponse) (w : World (Shared τ)) :
    ∃ r w', processAfter (mainServer limiter).server.middlewares given w = (.returns r, w') ∧
      Repeats given r ∧ w'.metrics = { w.metrics with cacheSets := w.metrics.cacheSets + 1 } := by
  have hchain : (mainServer limiter).server.middlewares.reverse =
      [mainCache.middleware, (Component.other mainBlacklist.middleware).middleware,
        (Component.other (RateLimitMiddleware.middleware ⟨limiter.onShared, true⟩)).middleware,
        (Component.other (corsMiddleware .defaultConfig)).middleware] := rfl
  refine ⟨_, (mainCache.after given w).2, ?_, (Repeats.refl given).addCorsHeaders (bytes "*"), rfl⟩
  rw [processAfter, hchain]
  rfl

/-- **What a request counts**, told by its response; and a scrape shows the counters before it. -/
theorem handle_tallied (hw : CachesEmpty w) (req : HttpRequest) :
    ∃ r w', (mainServer limiter).handle req w = (.ok r, w') ∧ CachesEmpty w' ∧
      Tallied (req, r) w.metrics w'.metrics ∧
      (IsScrape req → r.statusCode = 200 → r.body = w.metrics.prometheus) := by
  have hempty := (handle_cases limiter hw req).1
  rcases processBefore_tallied limiter hw req with ⟨r, w', hb, htallied, hcode⟩ |
    ⟨w₁, hb, hmethod, hmetrics⟩
  · have heq : (mainServer limiter).handle req w = (.ok r, w') := by
      simp only [CachingServer.handle, handleRequest, hb, caught]
    rw [heq] at hempty
    exact ⟨r, w', heq, hempty, htallied, fun _ h => absurd h hcode⟩
  obtain ⟨found, answer, w₂, hrouted, hroute⟩ : ∃ found answer w₂,
      (mainServer limiter).server.router.route req (.new (close req)) w₁ =
        (found, .returns answer, w₂) ∧
      RouteTallied req (if found then answer else notFound answer) w₁.metrics w₂.metrics := by
    have hm : (w₁.app.state w₁.metrics).metrics = some w₁.metrics := rfl
    obtain ⟨m', hm', hnone, hroute⟩ : ∃ m',
        (serve mainShards (req, .new (close req)) (w₁.app.state w₁.metrics)).2.metrics = some m' ∧
        _ ∧ _ := serve_tallied req (.new (close req)) hm
    rw [route_mainServer_eq]
    generalize serve mainShards (req, .new (close req)) (w₁.app.state w₁.metrics) = a at *
    obtain ⟨⟨found, answer, thrown⟩, st⟩ := a
    obtain rfl : thrown = none := hnone
    obtain rfl : st.metrics.getD w₁.metrics = m' := by rw [show st.metrics = some m' from hm']; rfl
    exact ⟨found, answer, _, rfl, hroute⟩
  obtain ⟨r, w₃, hafter, hrepeats, hsets⟩ :=
    processAfter_tallied limiter (if found then answer else notFound answer) w₂
  have heq : (mainServer limiter).handle req w = (.ok r, w₃) := by
    simp only [CachingServer.handle, handleRequest, hb, hrouted, hafter, Answer.returns]
  rw [heq] at hempty
  rw [← hmetrics]
  refine ⟨r, w₃, heq, hempty, ?_, fun hscrape _ => ?_⟩
  · rw [hsets]
    exact hroute.tallied r hrepeats hmethod
  · rw [hrepeats.body]
    exact (hroute.scrape hscrape).2

end Requests

/-! ## All requests -/

variable {τ : Type*} {w : World (Shared τ)}

/-- An exchange keeps what the counters show, and a scrape shows them. -/
theorem exchange_shows (limiter : RateLimiter τ) (c : ℕ × Intake)
    (past : List (ℕ × (HttpRequest × HttpResponse)))
    (hw : CachesEmpty w ∧ Shows (past.map Prod.snd) w.metrics) :
    let e := (exchange (mainServer limiter).server).tagged c w
    (CachesEmpty e.2 ∧ Shows ((past ++ e.1).map Prod.snd) e.2.metrics) ∧
      ∀ u a v, e.1 = u ++ a :: v → IsScrape a.2.1 → a.2.2.statusCode = 200 →
        ∃ m, samples a.2.2.body = some m.table ∧ Shows ((past ++ u).map Prod.snd) m := by
  obtain ⟨i, intake⟩ := c
  cases intake with
  | refused =>
    refine ⟨by simpa [Machine.tagged, exchange] using hw, fun u a v h => ?_⟩
    simp [Machine.tagged, exchange] at h
  | request req =>
    obtain ⟨r, w', heq, hempty, htallied, hscrape⟩ := handle_tallied limiter hw.1 req
    rw [CachingServer.handle] at heq
    simp only [Machine.tagged, exchange, heq]
    refine ⟨⟨hempty, ?_⟩, fun u a v h hget hcode => ?_⟩
    · simpa using hw.2.tallied htallied
    · have hsingle : u = [] ∧ a = (i, (req, r)) := by
        cases u with
        | nil => exact ⟨rfl, (List.cons.inj h).1.symm⟩
        | cons b u => simp at h
      obtain ⟨rfl, rfl⟩ := hsingle
      refine ⟨w.metrics, ?_, by simpa using hw.2⟩
      rw [hscrape hget hcode]
      exact w.metrics.samples_prometheus

/-- The requests of `linkEvents`, and then a scrape. -/
def scrapeEvents : List (ℕ × (Bytes × Timestamp)) :=
  linkEvents ++ [(2, (bytes "GET /metrics HTTP/1.1\r\n\r\n", 4))]

example : ([(0, (bytes "GET /s/0000000 HTTP/1.1\r\n\r\n", 1)),
      (2, (bytes "GET /metrics HTTP/1.1\r\n\r\n", 2))].foldlM
    (Serving.arrive (mainServer openLimiter).server.handleRequest) (Serving.new startWorld)).map
      (fun s => (s.log.filterMap fun
        | (2, .replied text) => past (bytes "\r\n\r\n") text
        | _ => none).map samples) =
    some [some (Metrics.table { redirectMiss := 1, cacheSets := 1 })] := by
  decide +kernel

end KamaHttp
