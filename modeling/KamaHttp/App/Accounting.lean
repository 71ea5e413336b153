import KamaHttp.App.Main
import KamaHttp.App.RateLimitRedis
import KamaHttp.Foundations.Machine

/-!
# What the counters count

The server that `main` assembles, over any store and with either limiter: the adapter of the cache
and the handlers share the counters. Beside them, the entries that the adapter writes are counted.

* `shorten_counts`, `redirect_counts`: the counters that a handler increments.
* `handle_counts`: what a request does to the counters.
* `accounted_along_iff`: the runs that keep the accounts.
-/

namespace KamaHttp

open MiddlewareChain

/-! ## The assembled server -/

/-- A limiter: it lets requests pass as they are, and counts those that it turns down. -/
structure Limiter (τ : Type*) where
  before : HttpRequest → Metrics × τ → Except Thrown HttpRequest × (Metrics × τ)
  filters : ∀ request w r, (before request w).1 = .ok r → r = request
  counts : ∀ request w, ∃ drops, (before request w).2.1 = { w.1 with ratelimitDrops := drops }

namespace Limiter

variable {τ : Type*}

/-- The limiter in memory. -/
def inMemory (m : RateLimitMiddleware τ) : Limiter τ where
  before := m.before
  filters := m.filters
  counts request w := by
    unfold RateLimitMiddleware.before RateLimitMiddleware.countDrop
    split
    · exact ⟨w.1.ratelimitDrops, rfl⟩
    · dsimp only
      split
      · exact ⟨_, rfl⟩
      · exact ⟨w.1.ratelimitDrops, rfl⟩

/-- The limiter that counts in Redis, with the seconds of the clock. -/
def inRedis (m : RateLimitRedis)
    (cmd : List Bytes → τ → Except StdException (Option RedisReply) × τ) (seconds : τ → ℕ) :
    Limiter τ where
  before request w := m.before cmd (seconds w.2) request w
  filters request w r h := by
    unfold RateLimitRedis.before at h
    dsimp only at h
    split at h
    · cases h
    split at h
    · cases h
    split at h
    · cases h
    · exact (Except.ok.inj h).symm
  counts request w := by
    unfold RateLimitRedis.before RateLimitRedis.countDrop
    dsimp only
    split
    · exact ⟨w.1.ratelimitDrops, rfl⟩
    split
    · exact ⟨w.1.ratelimitDrops, rfl⟩
    split
    · dsimp only
      split
      · exact ⟨_, rfl⟩
      · exact ⟨w.1.ratelimitDrops, rfl⟩
    · exact ⟨w.1.ratelimitDrops, rfl⟩

end Limiter

/-- What is kept beside the counters: what the limiter and the store share, the filter, the draws,
and how many entries the adapter has written to the store of the cache. -/
structure Kept (τ : Type*) where
  shared : τ
  bloom : Bloom
  dist : ℕ → Fin 62
  written : ℕ

variable {τ : Type*}

/-- The state of the handlers. -/
def Kept.state (k : Kept τ) (metrics : Metrics) : State τ :=
  ⟨k.shared, some k.bloom, some metrics, k.dist⟩

/-- The hooks of a limiter, on its part of what is kept. -/
def Limiter.middleware (limiter : Limiter τ) : Middleware (Metrics × Kept τ) where
  before request w :=
    let r := limiter.before request (w.1, w.2.shared)
    (r.1, (r.2.1, { w.2 with shared := r.2.2 }))
  after response w := (.returns response, w)

/-- A handler of the shortener, on its part of what is kept. -/
def Handler.onKept (f : Handler (State τ)) : Handler (Metrics × Kept τ) := fun req resp w =>
  let r := f req resp (w.2.state w.1)
  (r.1, (r.2.metrics.getD w.1,
    { w.2 with shared := r.2.store, bloom := r.2.bloom.getD w.2.bloom, dist := r.2.dist }))

/-- The hooks of an adapter, with the number of entries that it writes. -/
def CacheAdapter.counted (a : CacheAdapter) : Middleware (World (Kept τ)) where
  before := a.before
  after response w :=
    let (now, w₁) := w.readClock
    let stores := (w₁.cache a.policy a.store).stores HttpRequest.new response now
    let (answer, w₂) := a.after response w
    (answer, { w₂ with app.written := w₂.app.written + if stores then 1 else 0 })

/-- An entry that is counted as written is one that the hook hands to `set`. -/
theorem CacheAdapter.counted_written (a : CacheAdapter) (response : HttpResponse)
    (w : World (Kept τ)) :
    let now := w.readClock.1
    let cache := w.readClock.2.cache a.policy a.store
    let w' := (a.counted.after response w).2
    (w'.caches a.store = cache.store.set (CacheMiddleware.makeKey HttpRequest.new a.policy)
        (CacheMiddleware.pack response now a.policy) ∧ w'.app.written = w.app.written + 1) ∨
      (w'.caches a.store = w.caches a.store ∧ w'.app.written = w.app.written) := by
  intro now cache w'
  have hafter := cache.after_eq HttpRequest.new response now
  have hcaches : w'.caches a.store = (cache.after HttpRequest.new response now).store := by
    simp only [w', CacheAdapter.counted, CacheAdapter.after, CacheAdapter.countSet]
    split <;> exact Function.update_self ..
  have hwritten : w'.app.written =
      w.app.written + if cache.stores HttpRequest.new response now then 1 else 0 := by
    simp only [w', CacheAdapter.counted, CacheAdapter.after, CacheAdapter.countSet]
    split <;> rfl
  rw [hcaches, hafter, hwritten]
  split
  · exact .inl ⟨rfl, rfl⟩
  · exact .inr ⟨rfl, rfl⟩

/-- The server that `main` assembles. -/
def assembled (S : IStore τ) (limiter : Limiter τ) : HttpServer (World (Kept τ)) where
  middlewares :=
    [(Component.other (corsMiddleware .defaultConfig)).middleware,
      (Component.other limiter.middleware).middleware,
      (Component.other mainBlacklist.middleware).middleware, mainCache.counted]
  router := ((routes S).map Handler.onKept).map Handler.onRest

/-! ## What goes up -/

/-- By how much counters go up. -/
structure Increments where
  shortenOk : ℕ := 0
  shortenBad : ℕ := 0
  redirectOk : ℕ := 0
  redirectMiss : ℕ := 0
  storeSetnxOk : ℕ := 0
  cacheSets : ℕ := 0

/-- The counters go up by these numbers. -/
structure Metrics.Rises (m m' : Metrics) (d : Increments) : Prop where
  shortenOk : m'.shortenOk = m.shortenOk + d.shortenOk
  shortenBad : m'.shortenBad = m.shortenBad + d.shortenBad
  redirectOk : m'.redirectOk = m.redirectOk + d.redirectOk
  redirectMiss : m'.redirectMiss = m.redirectMiss + d.redirectMiss
  storeSetnxOk : m'.storeSetnxOk = m.storeSetnxOk + d.storeSetnxOk
  cacheSets : m'.cacheSets = m.cacheSets + d.cacheSets

theorem Metrics.Rises.refl (m : Metrics) : m.Rises m {} := ⟨rfl, rfl, rfl, rfl, rfl, rfl⟩

theorem Metrics.Rises.trans {m m' m'' : Metrics} {d : Increments} (h : m.Rises m' {})
    (h' : m'.Rises m'' d) : m.Rises m'' d where
  shortenOk := h'.shortenOk.trans (congrArg (· + d.shortenOk) h.shortenOk)
  shortenBad := h'.shortenBad.trans (congrArg (· + d.shortenBad) h.shortenBad)
  redirectOk := h'.redirectOk.trans (congrArg (· + d.redirectOk) h.redirectOk)
  redirectMiss := h'.redirectMiss.trans (congrArg (· + d.redirectMiss) h.redirectMiss)
  storeSetnxOk := h'.storeSetnxOk.trans (congrArg (· + d.storeSetnxOk) h.storeSetnxOk)
  cacheSets := h'.cacheSets.trans (congrArg (· + d.cacheSets) h.cacheSets)

/-- An entry more is counted. -/
theorem Metrics.Rises.sets {m m₁ m' : Metrics} {d : Increments} (h : m.Rises m₁ d)
    (h' : m₁.Rises m' { cacheSets := 1 }) :
    m.Rises m' { d with cacheSets := d.cacheSets + 1 } where
  shortenOk := h'.shortenOk.trans h.shortenOk
  shortenBad := h'.shortenBad.trans h.shortenBad
  redirectOk := h'.redirectOk.trans h.redirectOk
  redirectMiss := h'.redirectMiss.trans h.redirectMiss
  storeSetnxOk := h'.storeSetnxOk.trans h.storeSetnxOk
  cacheSets := h'.cacheSets.trans (congrArg (· + 1) h.cacheSets)

/-- The counter of the identifiers that were taken does not matter. -/
theorem Metrics.Rises.of_conflict {m m' : Metrics} {d : Increments} {conflicts : ℕ}
    (h : Metrics.Rises { m with storeSetnxConflict := conflicts } m' d) : m.Rises m' d :=
  ⟨h.shortenOk, h.shortenBad, h.redirectOk, h.redirectMiss, h.storeSetnxOk, h.cacheSets⟩

/-! ## What the handlers count -/

section Handlers

variable (S : IStore τ)

/-- One of the identifiers that are drawn is stored. -/
def Succeeds (url : Bytes) (ttl : ℤ) : ℕ → τ → (ℕ → Fin 62) → Prop
  | 0, _, _ => False
  | n + 1, store, dist =>
    match S.setNX (ShortId.random 7 dist).1 url ttl store with
    | (.error _, _) => False
    | (.ok true, _) => True
    | (.ok false, store) => Succeeds url ttl n store (ShortId.random 7 dist).2

/-- A URL that is valid is not stored: the identifiers that are drawn are taken, or the store
throws. -/
def GivesUp (req : HttpRequest) (st : State τ) : Prop :=
  ∃ url ttl, parseJson req.getBody = some (url, ttl) ∧ UrlValidator.valid url ∧
    ¬ Succeeds S url ttl 5 st.store st.dist

theorem State.metrics_count (st : State τ) {m : Metrics} (hm : st.metrics = some m)
    (f : Metrics → Metrics) : (st.count f).metrics = some (f m) := by
  rw [State.count, hm]
  rfl

/-- What the attempts count: a success, with the call of the store that made it. -/
theorem attempts_counts (url : Bytes) (ttl : ℤ) (resp : HttpResponse) (n : ℕ) {st : State τ}
    {m : Metrics} (hm : st.metrics = some m) :
    let r := ShortenHandler.attempts S url ttl resp n st
    ∃ m', r.2.metrics = some m' ∧
      ((Succeeds S url ttl n st.store st.dist ∧
          (∃ id, r.1 = .returns (ShortenHandler.created id resp)) ∧
          m.Rises m' { shortenOk := 1, storeSetnxOk := 1 }) ∨
        (¬ Succeeds S url ttl n st.store st.dist ∧ m.Rises m' {})) := by
  induction n generalizing st m with
  | zero => exact ⟨m, hm, .inr ⟨id, .refl m⟩⟩
  | succ n ih =>
    simp only [ShortenHandler.attempts, Succeeds]
    rcases S.setNX (ShortId.random 7 st.dist).1 url ttl st.store with ⟨e | _ | _, store⟩
    · exact ⟨m, hm, .inr ⟨id, .refl m⟩⟩
    · obtain ⟨m', hm', hcases⟩ := ih (State.metrics_count
        { st with store, dist := (ShortId.random 7 st.dist).2 } hm fun m =>
          { m with storeSetnxConflict := m.storeSetnxConflict + 1 })
      exact ⟨m', hm', hcases.imp (fun h => ⟨h.1, h.2.1, h.2.2.of_conflict⟩)
        fun h => ⟨h.1, h.2.of_conflict⟩⟩
    · refine ⟨_, State.metrics_count _ hm _, .inl ⟨trivial, ⟨_, rfl⟩, ?_⟩⟩
      exact ⟨rfl, rfl, rfl, rfl, rfl, rfl⟩

/-- **What a shorten request counts**: a success or a failure, unless it gives up. -/
theorem shorten_counts (req : HttpRequest) (resp : HttpResponse) {st : State τ} {m : Metrics}
    (hm : st.metrics = some m) :
    let r := ShortenHandler.handle S req resp st
    ∃ m', r.2.metrics = some m' ∧
      ((GivesUp S req st ∧ m.Rises m' {}) ∨
        (¬ GivesUp S req st ∧ r.1.thrown = none ∧
          ((m.Rises m' { shortenOk := 1, storeSetnxOk := 1 } ∧ r.1.response.statusCode = 200) ∨
            (m.Rises m' { shortenBad := 1 } ∧ r.1.response.statusCode = 400)))) := by
  have hinvalid : (∀ url ttl, parseJson req.getBody = some (url, ttl) →
      ¬ UrlValidator.valid url) → ¬ GivesUp S req st := by
    rintro h ⟨url, ttl, hparse, hvalid, -⟩
    exact h url ttl hparse hvalid
  have hbad : ∃ m', (st.count fun m => { m with shortenBad := m.shortenBad + 1 }).metrics =
      some m' ∧ m.Rises m' { shortenBad := 1 } :=
    ⟨_, State.metrics_count _ hm _, ⟨rfl, rfl, rfl, rfl, rfl, rfl⟩⟩
  obtain ⟨m', hm', hrises⟩ := hbad
  simp only [ShortenHandler.handle]
  rcases hparse : parseJson req.getBody with _ | ⟨url, ttl⟩
  · refine ⟨m', hm', .inr ⟨hinvalid fun url ttl h => ?_, rfl, .inr ⟨hrises, rfl⟩⟩⟩
    rw [hparse] at h
    cases h
  dsimp only
  split
  · rename_i hvalid
    obtain ⟨m', hm', ⟨hsucceeds, ⟨id, hanswer⟩, hrises⟩ | ⟨hnot, hrises⟩⟩ :=
      attempts_counts S url ttl resp 5 hm
    · refine ⟨m', hm', .inr ⟨?_, by rw [hanswer]; rfl, .inl ⟨hrises, by rw [hanswer]; rfl⟩⟩⟩
      rintro ⟨url', ttl', hparse', -, hnot⟩
      obtain ⟨rfl, rfl⟩ := Prod.mk.inj (Option.some.inj (hparse.symm.trans hparse'))
      exact hnot hsucceeds
    · exact ⟨m', hm', .inl ⟨⟨url, ttl, hparse, hvalid, hnot⟩, hrises⟩⟩
  · rename_i hvalid
    refine ⟨m', hm', .inr ⟨hinvalid fun url' ttl' h => ?_, rfl, .inr ⟨hrises, rfl⟩⟩⟩
    obtain ⟨rfl, rfl⟩ := Prod.mk.inj (Option.some.inj (hparse.symm.trans h))
    exact hvalid

/-- **What a redirect counts**: if it returns, that it was found or that it was missed. -/
theorem redirect_counts (req : HttpRequest) (resp : HttpResponse) {st : State τ} {m : Metrics}
    (hm : st.metrics = some m) (hid : req.getPathParameters (bytes "param1") ≠ []) :
    let r := RedirectHandler.handle S req resp st
    ∃ m', r.2.metrics = some m' ∧
      ((r.1.thrown ≠ none ∧ m.Rises m' {}) ∨
        (r.1.thrown = none ∧
          (m.Rises m' { redirectOk := 1 } ∨ m.Rises m' { redirectMiss := 1 }))) := by
  simp only [RedirectHandler.handle, if_neg hid]
  split
  · refine ⟨_, State.metrics_count _ hm _, .inr ⟨rfl, .inr ?_⟩⟩
    exact ⟨rfl, rfl, rfl, rfl, rfl, rfl⟩
  · unfold RedirectHandler.lookup
    rcases S.get (req.getPathParameters (bytes "param1")) st.store with ⟨e | _ | v, store⟩
    · exact ⟨m, hm, .inl ⟨Option.some_ne_none (Thrown.exception e), .refl m⟩⟩
    · refine ⟨_, State.metrics_count _ hm _, .inr ⟨rfl, .inr ?_⟩⟩
      exact ⟨rfl, rfl, rfl, rfl, rfl, rfl⟩
    · refine ⟨_, State.metrics_count _ hm _, .inr ⟨rfl, .inl ?_⟩⟩
      exact ⟨rfl, rfl, rfl, rfl, rfl, rfl⟩

/-- `GET /s/{id}`, with an identifier that the route matches. -/
def IsLookup (req : HttpRequest) : Prop :=
  req.method = .kGet ∧ ∃ id, shortPath req.path = some [id] ∧ id ≠ []

/-- By how much the counters go up on a route, and what it answers. -/
inductive Counted (req : HttpRequest) (st : State τ) (r : Bool × Answer) : Increments → Prop
  | gaveUp (hreq : IsShorten req) (hgives : GivesUp S req st) : Counted req st r {}
  | shortened (hreq : IsShorten req) (hgives : ¬ GivesUp S req st) (hfound : r.1 = true)
    (hreturns : r.2.thrown = none) (hstatus : r.2.response.statusCode = 200) :
    Counted req st r { shortenOk := 1, storeSetnxOk := 1 }
  | turnedDown (hreq : IsShorten req) (hgives : ¬ GivesUp S req st) (hfound : r.1 = true)
    (hreturns : r.2.thrown = none) (hstatus : r.2.response.statusCode = 400) :
    Counted req st r { shortenBad := 1 }
  | threw (hreq : IsLookup req) (hthrows : r.2.thrown ≠ none) : Counted req st r {}
  | found (hreq : IsLookup req) (hreturns : r.2.thrown = none) :
    Counted req st r { redirectOk := 1 }
  | missed (hreq : IsLookup req) (hreturns : r.2.thrown = none) :
    Counted req st r { redirectMiss := 1 }
  | other (hshorten : ¬ IsShorten req) (hlookup : ¬ IsLookup req) (hreturns : r.2.thrown = none) :
    Counted req st r {}

/-- A request on another route, or on none, changes nothing. -/
theorem route_other {req : HttpRequest} (hshorten : ¬ IsShorten req) (hlookup : ¬ IsLookup req)
    (resp : HttpResponse) (st : State τ) :
    let r := (routes S).route req resp st
    r.2.1.thrown = none ∧ r.2.2 = st := by
  have hfind : Router.findRoute (routes S).regexHandlers req = none := by
    rw [Router.findRoute, List.findSome?_eq_none_iff]
    intro route hroute
    obtain rfl := List.mem_singleton.1 hroute
    split
    · rename_i hmethod
      rcases hpath : shortPath req.path with _ | groups
      · exact congrArg (Option.map _) hpath
      · obtain ⟨-, id, rfl, hid⟩ := eq_of_shortPath hpath
        exact absurd ⟨hmethod.symm, id, hpath, hid⟩ hlookup
    · rfl
  have hcallbacks : (routes S).callbacks req.method req.path = none := rfl
  have hregex : Router.findRoute (routes S).regexCallbacks req = none := rfl
  simp only [Router.route, handlers_of_not_shorten S hshorten, hcallbacks, hfind, hregex]
  split_ifs <;> exact ⟨rfl, rfl⟩

/-- **What the routes count.** -/
theorem routes_counts (req : HttpRequest) (resp : HttpResponse) {st : State τ} {m : Metrics}
    (hm : st.metrics = some m) :
    let r := (routes S).route req resp st
    ∃ m' d, r.2.2.metrics = some m' ∧ m.Rises m' d ∧ Counted S req st (r.1, r.2.1) d := by
  by_cases hshorten : IsShorten req
  · rw [route_shorten S resp st hshorten]
    obtain ⟨m', hm', ⟨hgives, hrises⟩ |
      ⟨hgives, hreturns, ⟨hrises, hstatus⟩ | ⟨hrises, hstatus⟩⟩⟩ := shorten_counts S req resp hm
    · exact ⟨m', _, hm', hrises, .gaveUp hshorten hgives⟩
    · exact ⟨m', _, hm', hrises, .shortened hshorten hgives rfl hreturns hstatus⟩
    · exact ⟨m', _, hm', hrises, .turnedDown hshorten hgives rfl hreturns hstatus⟩
  by_cases hlookup : IsLookup req
  · obtain ⟨hmethod, id, hpath, hid⟩ := id hlookup
    have hparam : (Router.extractPathParameters [id] req).getPathParameters (bytes "param1") ≠
        [] := by
      rw [extractPathParameters_singleton]
      simpa [HttpRequest.setPathParameters, HttpRequest.getPathParameters] using hid
    rw [route_redirect S resp st hmethod hpath]
    obtain ⟨m', hm', ⟨hthrows, hrises⟩ | ⟨hreturns, hrises | hrises⟩⟩ :=
      redirect_counts S (Router.extractPathParameters [id] req) resp hm hparam
    · exact ⟨m', _, hm', hrises, .threw hlookup hthrows⟩
    · exact ⟨m', _, hm', hrises, .found hlookup hreturns⟩
    · exact ⟨m', _, hm', hrises, .missed hlookup hreturns⟩
  · obtain ⟨hreturns, hstate⟩ := route_other S hshorten hlookup resp st
    exact ⟨m, {}, by rw [hstate]; exact hm, .refl m, .other hshorten hlookup hreturns⟩

end Handlers

/-! ## What a request counts -/

section Requests

variable (S : IStore τ) (limiter : Limiter τ) (req : HttpRequest) (w : World (Kept τ))

/-- The routes, on the world: they are those of the shortener on its part of it. -/
theorem route_assembled (resp : HttpResponse) :
    let r := (routes S).route req resp (w.app.state w.metrics)
    (assembled S limiter).router.route req resp w =
      (r.1, r.2.1, { w with
        metrics := r.2.2.metrics.getD w.metrics
        app := { w.app with
          shared := r.2.2.store
          bloom := r.2.2.bloom.getD w.app.bloom
          dist := r.2.2.dist } }) := by
  have hworld := ((routes S).map Handler.onKept).route_map Handler.onRest
    (fun w : World (Kept τ) => (w.metrics, w.app))
    (fun w x => { w with metrics := x.1, app := x.2 }) (fun _ _ _ _ => rfl) (fun _ => rfl)
    req resp w
  have hkept := (routes S).route_map Handler.onKept
    (fun w : Metrics × Kept τ => w.2.state w.1)
    (fun w st => (st.metrics.getD w.1,
      { w.2 with shared := st.store, bloom := st.bloom.getD w.2.bloom, dist := st.dist }))
    (fun _ _ _ _ => rfl) (fun _ => rfl) req resp (w.metrics, w.app)
  rw [assembled, hworld, hkept]

theorem assembled_filters : ∀ m ∈ (assembled S limiter).middlewares, Filters m := by
  simp only [assembled, List.forall_mem_cons, List.not_mem_nil, false_implies, implies_true,
    and_true]
  exact ⟨fun request w => corsMiddleware_filters _ request (w.metrics, w.app),
    fun request w r h => limiter.filters request (w.metrics, w.app.shared) r h,
    fun request w => mainBlacklist.filters request (w.metrics, w.app),
    fun request w => mainCache.filters request w⟩

/-- The hooks `before` count nothing of this, and let a request pass as it is or throw. -/
theorem before_counts :
    let r := processBefore (assembled S limiter).middlewares req w
    (∀ req', r.1 = .ok req' → req' = req) ∧ w.metrics.Rises r.2.metrics {} ∧
      r.2.app.written = w.app.written := by
  intro r
  refine ⟨fun req' h =>
    (of_processBefore_filters (assembled_filters S limiter) (Prod.ext h rfl)).1, ?_⟩
  refine processBefore_keeps (I := fun w' : World (Kept τ) =>
    w.metrics.Rises w'.metrics {} ∧ w'.app.written = w.app.written) req ?_ ⟨.refl _, rfl⟩
  simp only [assembled, List.forall_mem_cons, List.not_mem_nil, false_implies, implies_true,
    and_true]
  refine ⟨fun request w' hw' => ?_, fun request w' hw' => ?_, fun request w' hw' => ?_,
    fun request w' hw' => ?_⟩
  · simp only [Component.middleware, World.onRest, corsMiddleware_before_snd]
    exact hw'
  · obtain ⟨drops, hdrops⟩ := limiter.counts request (w'.metrics, w'.app.shared)
    refine ⟨hw'.1.trans ?_, hw'.2⟩
    simp only [Component.middleware, World.onRest, Limiter.middleware, hdrops]
    exact ⟨rfl, rfl, rfl, rfl, rfl, rfl⟩
  · simp only [Component.middleware, World.onRest, BlacklistMiddleware.before_snd]
    exact hw'
  · have happ : (mainCache.counted.before request w').2.app = w'.app :=
      mainCache.app_before request w'
    refine ⟨hw'.1.trans ?_, by rw [happ]; exact hw'.2⟩
    simp only [CacheAdapter.counted, CacheAdapter.before, CacheAdapter.countHit]
    split
    · exact ⟨rfl, rfl, rfl, rfl, rfl, rfl⟩
    · exact .refl _

/-- The hook of the cache counts an entry, and writes none: it asks for that of an empty request. -/
theorem counted_after (given : HttpResponse) :
    let r := mainCache.counted.after given w
    r.1 = .returns given ∧ w.metrics.Rises r.2.metrics { cacheSets := 1 } ∧
      r.2.app.written = w.app.written := by
  have hstores : (w.readClock.2.cache mainCache.policy mainCache.store).stores HttpRequest.new
      given w.readClock.1 = false := by
    have hrequest := not_cacheable_new mainCache.policy
    simp only [CacheMiddleware.stores, World.cache, hrequest, Bool.false_and]
  simp only [CacheAdapter.counted, hstores]
  exact ⟨rfl, ⟨rfl, rfl, rfl, rfl, rfl, rfl⟩, rfl⟩

/-- The hooks `after` count an entry that is written, and none is. -/
theorem after_counts (given : HttpResponse) :
    ∃ r w', processAfter (assembled S limiter).middlewares given w = (.returns r, w') ∧
      r.statusCode = given.statusCode ∧ w.metrics.Rises w'.metrics { cacheSets := 1 } ∧
      w'.app.written = w.app.written := by
  have hne : CorsConfig.defaultConfig.allowedOrigins ≠ [] := by decide
  have hcors : ∀ v : Metrics × Kept τ, (corsMiddleware .defaultConfig).after given v =
      (.returns (CorsMiddleware.addCorsHeaders .defaultConfig given
        (CorsMiddleware.answeredOrigin .defaultConfig)), v) :=
    CorsMiddleware.after_eq hne given
  obtain ⟨hanswer, hrises, hwritten⟩ := counted_after w given
  rcases hafter : mainCache.counted.after given w with ⟨answer, w'⟩
  rw [hafter] at hanswer hrises hwritten
  obtain rfl : answer = .returns given := hanswer
  have hrun : runAfter (assembled S limiter).middlewares.reverse given w =
      (.returns (CorsMiddleware.addCorsHeaders .defaultConfig given
        (CorsMiddleware.answeredOrigin .defaultConfig)), w') := by
    have hreverse : (assembled S limiter).middlewares.reverse =
        [mainCache.counted, (Component.other mainBlacklist.middleware).middleware,
          (Component.other limiter.middleware).middleware,
          (Component.other (corsMiddleware .defaultConfig)).middleware] := rfl
    simp only [hreverse, runAfter, hafter, Answer.returns, Component.middleware, World.onRest,
      BlacklistMiddleware.middleware, Limiter.middleware, hcors]
  refine ⟨_, w', ?_, CorsMiddleware.statusCode_addCorsHeaders .defaultConfig given
    (CorsMiddleware.answeredOrigin .defaultConfig), hrises, hwritten⟩
  rw [processAfter, hrun]
  rfl

/-- The request passes the hooks `before`, and comes to its handler. -/
def Passed (w₁ : World (Kept τ)) : Prop :=
  processBefore (assembled S limiter).middlewares req w = (.ok req, w₁)

/-- What the handler answers. -/
def answered (w₁ : World (Kept τ)) : Answer :=
  ((assembled S limiter).router.route req (HttpResponse.new (HttpServer.close req)) w₁).2.1

/-- The request handled by the server. -/
def serveRequest : Machine HttpRequest (World (Kept τ)) (Except StdException HttpResponse) :=
  fun req w => (assembled S limiter).handleRequest req (HttpResponse.new (HttpServer.close req)) w

/-- By how much the counters go up with a request. -/
inductive Traced (result : Except StdException HttpResponse) : Increments → Prop
  | stopped (hnot : ∀ w₁, ¬ Passed S limiter req w w₁) : Traced result {}
  | threw {w₁ r d} (hpassed : Passed S limiter req w w₁)
    (hcounted : Counted S req (w₁.app.state w₁.metrics) r d)
    (hanswer : r.2 = answered S limiter req w₁) (hthrows : r.2.thrown ≠ none) : Traced result d
  | returned {w₁ r d} (hpassed : Passed S limiter req w w₁)
    (hcounted : Counted S req (w₁.app.state w₁.metrics) r d)
    (hanswer : r.2 = answered S limiter req w₁) (hreturns : r.2.thrown = none)
    (hstatus : r.1 = true → ∃ resp, result = .ok resp ∧
      resp.statusCode = r.2.response.statusCode) :
    Traced result { d with cacheSets := d.cacheSets + 1 }

/-- **What a request does to the counters.** -/
theorem handle_counts :
    let r := serveRequest S limiter req w
    r.2.app.written = w.app.written ∧
      ∃ d, w.metrics.Rises r.2.metrics d ∧ Traced S limiter req w r.1 d := by
  obtain ⟨hfilters, hrises, hwritten⟩ := before_counts S limiter req w
  unfold serveRequest HttpServer.handleRequest
  rcases hb : processBefore (assembled S limiter).middlewares req w with ⟨x | req', w₁⟩
  · rw [hb] at hrises hwritten
    refine ⟨hwritten, {}, hrises, .stopped fun w₂ h => ?_⟩
    rw [Passed, hb] at h
    cases h
  rw [hb] at hfilters hrises hwritten
  obtain rfl : req' = req := hfilters req' rfl
  obtain ⟨m₁, d, hm₁, hroutes, hcounted⟩ := routes_counts S req'
    (HttpResponse.new (HttpServer.close req'))
    (show (w₁.app.state w₁.metrics).metrics = some w₁.metrics from rfl)
  have hroute := route_assembled S limiter req' w₁ (HttpResponse.new (HttpServer.close req'))
  dsimp only at hroute hrises hwritten ⊢
  rw [hm₁] at hroute
  generalize (routes S).route req' (HttpResponse.new (HttpServer.close req'))
    (w₁.app.state w₁.metrics) = ρ at hm₁ hcounted hroute
  obtain ⟨found, ⟨left, thrown⟩, st⟩ := ρ
  have hanswer : (⟨left, thrown⟩ : Answer) = answered S limiter req' w₁ := by
    rw [answered, hroute]
  rw [hroute]
  cases thrown with
  | some x => exact ⟨hwritten, d, hrises.trans hroutes, .threw hb hcounted hanswer nofun⟩
  | none =>
    obtain ⟨r, w₃, hafter, hstatus, hsets, hwritten₃⟩ := after_counts S limiter
      { w₁ with
        metrics := (some m₁).getD w₁.metrics
        app := { w₁.app with
          shared := st.store, bloom := st.bloom.getD w₁.app.bloom, dist := st.dist } }
      (if found then left else HttpServer.notFound left)
    simp only [hafter, Answer.returns]
    refine ⟨hwritten₃.trans hwritten, _, (hrises.trans hroutes).sets hsets,
      .returned hb hcounted hanswer rfl fun hfound => ⟨r, rfl, ?_⟩⟩
    rw [hstatus, if_pos hfound]

/-! ## The accounts -/

/-- The response has status 200. -/
def IsOk (result : Except StdException HttpResponse) : Prop :=
  ∃ resp, result = .ok resp ∧ resp.statusCode = 200

/-- A request to shorten that comes to its handler counts as a success, if it is answered 200, or
else as a failure, and not as both. -/
def CountsShorten : Prop :=
  let r := serveRequest S limiter req w
  IsShorten req → ∀ w₁, Passed S limiter req w w₁ →
    (IsOk r.1 ∧ r.2.metrics.shortenOk = w.metrics.shortenOk + 1 ∧
        r.2.metrics.shortenBad = w.metrics.shortenBad) ∨
      (¬ IsOk r.1 ∧ r.2.metrics.shortenOk = w.metrics.shortenOk ∧
        r.2.metrics.shortenBad = w.metrics.shortenBad + 1)

/-- A lookup that comes to its handler and returns counts as found or as missed, and not as both. -/
def CountsLookup : Prop :=
  let m' := (serveRequest S limiter req w).2.metrics
  IsLookup req → ∀ w₁, Passed S limiter req w w₁ → (answered S limiter req w₁).thrown = none →
    (m'.redirectOk = w.metrics.redirectOk + 1 ∧ m'.redirectMiss = w.metrics.redirectMiss) ∨
      (m'.redirectOk = w.metrics.redirectOk ∧ m'.redirectMiss = w.metrics.redirectMiss + 1)

/-- The request comes to a handler that returns, and so to the hooks `after`. -/
def ComesToAfter : Prop :=
  ∃ w₁, Passed S limiter req w w₁ ∧ (answered S limiter req w₁).thrown = none

/-- The request comes to the handler that shortens, and that gives up. -/
def ShortenGivesUp : Prop :=
  ∃ w₁, Passed S limiter req w w₁ ∧ IsShorten req ∧ GivesUp S req (w₁.app.state w₁.metrics)

variable {S limiter req w}

theorem Passed.unique {w₁ w₂ : World (Kept τ)} (h₁ : Passed S limiter req w w₁)
    (h₂ : Passed S limiter req w w₂) : w₁ = w₂ :=
  congrArg Prod.snd (h₁.symm.trans h₂)

theorem not_isLookup (h : IsShorten req) : ¬ IsLookup req := fun hlookup => by
  rw [IsShorten, hlookup.1] at h
  cases h.1

section Counted

variable {st : State τ} {r : Bool × Answer} {d : Increments}

theorem Counted.of_gaveUp (h : Counted S req st r d) (hreq : IsShorten req)
    (hgives : GivesUp S req st) : d = {} := by
  cases h with
  | gaveUp | threw | other => rfl
  | shortened _ hnot | turnedDown _ hnot => exact absurd hgives hnot
  | found hlookup | missed hlookup => exact absurd hlookup (not_isLookup hreq)

theorem Counted.of_shorten (h : Counted S req st r d) (hreq : IsShorten req)
    (hgives : ¬ GivesUp S req st) : r.1 = true ∧ r.2.thrown = none ∧
      ((d = { shortenOk := 1, storeSetnxOk := 1 } ∧ r.2.response.statusCode = 200) ∨
        (d = { shortenBad := 1 } ∧ r.2.response.statusCode = 400)) := by
  cases h with
  | gaveUp _ h => exact absurd h hgives
  | shortened _ _ hfound hreturns hstatus => exact ⟨hfound, hreturns, .inl ⟨rfl, hstatus⟩⟩
  | turnedDown _ _ hfound hreturns hstatus => exact ⟨hfound, hreturns, .inr ⟨rfl, hstatus⟩⟩
  | threw hlookup | found hlookup | missed hlookup => exact absurd hlookup (not_isLookup hreq)
  | other hshorten => exact absurd hreq hshorten

theorem Counted.of_lookup (h : Counted S req st r d) (hreq : IsLookup req)
    (hreturns : r.2.thrown = none) : d = { redirectOk := 1 } ∨ d = { redirectMiss := 1 } := by
  cases h with
  | gaveUp hshorten | shortened hshorten | turnedDown hshorten =>
    exact absurd hreq (not_isLookup hshorten)
  | threw _ hthrows => exact absurd hreturns hthrows
  | found => exact .inl rfl
  | missed => exact .inr rfl
  | other _ hlookup => exact absurd hreq hlookup

theorem Counted.setnx (h : Counted S req st r d) :
    d.storeSetnxOk = d.shortenOk ∧ d.cacheSets = 0 := by
  cases h <;> exact ⟨rfl, rfl⟩

end Counted

/-- A request that comes to its handler. -/
theorem Traced.of_passed {result : Except StdException HttpResponse} {d : Increments}
    {w₁ : World (Kept τ)} (h : Traced S limiter req w result d)
    (hpassed : Passed S limiter req w w₁) :
    ∃ r d', Counted S req (w₁.app.state w₁.metrics) r d' ∧ r.2 = answered S limiter req w₁ ∧
      ((r.2.thrown ≠ none ∧ d = d') ∨
        (r.2.thrown = none ∧ d = { d' with cacheSets := d'.cacheSets + 1 } ∧
          (r.1 = true → ∃ resp, result = .ok resp ∧
            resp.statusCode = r.2.response.statusCode))) := by
  cases h with
  | stopped hnot => exact absurd hpassed (hnot w₁)
  | threw hp hcounted hanswer hthrows =>
    obtain rfl := hp.unique hpassed
    exact ⟨_, _, hcounted, hanswer, .inl ⟨hthrows, rfl⟩⟩
  | returned hp hcounted hanswer hreturns hstatus =>
    obtain rfl := hp.unique hpassed
    exact ⟨_, _, hcounted, hanswer, .inr ⟨hreturns, rfl, hstatus⟩⟩

/-- **A shorten request is counted exactly if it does not give up.** -/
theorem countsShorten_iff :
    CountsShorten S limiter req w ↔ ¬ ShortenGivesUp S limiter req w := by
  obtain ⟨-, d, hrises, htraced⟩ := handle_counts S limiter req w
  have hok := hrises.shortenOk
  have hbad := hrises.shortenBad
  constructor
  · rintro h ⟨w₁, hpassed, hreq, hgives⟩
    obtain ⟨r, d', hcounted, -, hcases⟩ := htraced.of_passed hpassed
    obtain rfl := hcounted.of_gaveUp hreq hgives
    have hzero : d.shortenOk = 0 ∧ d.shortenBad = 0 := by
      rcases hcases with ⟨-, rfl⟩ | ⟨-, rfl, -⟩ <;> exact ⟨rfl, rfl⟩
    rcases h hreq w₁ hpassed with ⟨-, hup, -⟩ | ⟨-, -, hup⟩ <;> omega
  · intro hnot hreq w₁ hpassed
    obtain ⟨r, d', hcounted, -, hcases⟩ := htraced.of_passed hpassed
    obtain ⟨hfound, hreturns, hup⟩ := hcounted.of_shorten hreq fun h =>
      hnot ⟨w₁, hpassed, hreq, h⟩
    obtain ⟨-, rfl, hstatus⟩ := hcases.resolve_left fun h => h.1 hreturns
    obtain ⟨resp, hresult, hcode⟩ := hstatus hfound
    rcases hup with ⟨rfl, h200⟩ | ⟨rfl, h400⟩
    · exact .inl ⟨⟨resp, hresult, hcode.trans h200⟩, hok, hbad⟩
    · refine .inr ⟨?_, hok, hbad⟩
      rintro ⟨resp', hresult', h200⟩
      obtain rfl := Except.ok.inj (hresult.symm.trans hresult')
      rw [hcode, h400] at h200
      cases h200

/-- **A lookup is counted always.** -/
theorem countsLookup : CountsLookup S limiter req w := by
  obtain ⟨-, d, hrises, htraced⟩ := handle_counts S limiter req w
  intro hreq w₁ hpassed hreturns
  have hok := hrises.redirectOk
  have hmiss := hrises.redirectMiss
  obtain ⟨r, d', hcounted, hanswer, hcases⟩ := htraced.of_passed hpassed
  rw [← hanswer] at hreturns
  obtain ⟨-, rfl, -⟩ := hcases.resolve_left fun h => h.1 hreturns
  rcases hcounted.of_lookup hreq hreturns with rfl | rfl
  · exact .inl ⟨hok, hmiss⟩
  · exact .inr ⟨hok, hmiss⟩

/-- **Successes and calls of `setNX` that succeed stay equal.** -/
theorem shortenOk_eq_storeSetnxOk (h : w.metrics.shortenOk = w.metrics.storeSetnxOk) :
    (serveRequest S limiter req w).2.metrics.shortenOk =
      (serveRequest S limiter req w).2.metrics.storeSetnxOk := by
  obtain ⟨-, d, hrises, htraced⟩ := handle_counts S limiter req w
  have hd : d.storeSetnxOk = d.shortenOk := by
    cases htraced with
    | stopped => rfl
    | threw _ hcounted => exact hcounted.setnx.1
    | returned _ hcounted => exact hcounted.setnx.1
  rw [hrises.shortenOk, hrises.storeSetnxOk, h, hd]

/-- **The entries that are counted are those that are written exactly if the request does not come
to the hooks `after`.** -/
theorem cacheSets_eq_written_iff (h : w.metrics.cacheSets = w.app.written) :
    (serveRequest S limiter req w).2.metrics.cacheSets =
        (serveRequest S limiter req w).2.app.written ↔ ¬ ComesToAfter S limiter req w := by
  obtain ⟨hwritten, d, hrises, htraced⟩ := handle_counts S limiter req w
  rw [hwritten, hrises.cacheSets, h]
  constructor
  · rintro hsets ⟨w₁, hpassed, hreturns⟩
    obtain ⟨r, d', hcounted, hanswer, hcases⟩ := htraced.of_passed hpassed
    rw [← hanswer] at hreturns
    obtain ⟨-, rfl, -⟩ := hcases.resolve_left fun h => h.1 hreturns
    have hone : ({ d' with cacheSets := d'.cacheSets + 1 } : Increments).cacheSets =
        d'.cacheSets + 1 := rfl
    omega
  · intro hnot
    cases htraced with
    | stopped => rfl
    | threw _ hcounted =>
      rw [hcounted.setnx.2]
      rfl
    | returned hpassed _ hanswer hreturns =>
      exact absurd ⟨_, hpassed, by rw [← hanswer]; exact hreturns⟩ hnot

end Requests

/-! ## Over a run -/

section Runs

variable (S : IStore τ) (limiter : Limiter τ)

/-- The accounts of a request, in the state before it. -/
structure Accounted (req : HttpRequest) (w : World (Kept τ)) : Prop where
  shorten : CountsShorten S limiter req w
  lookup : CountsLookup S limiter req w
  setnx : (serveRequest S limiter req w).2.metrics.shortenOk =
    (serveRequest S limiter req w).2.metrics.storeSetnxOk
  sets : (serveRequest S limiter req w).2.metrics.cacheSets =
    (serveRequest S limiter req w).2.app.written

theorem accounted_iff (req : HttpRequest) {w : World (Kept τ)}
    (hsetnx : w.metrics.shortenOk = w.metrics.storeSetnxOk)
    (hsets : w.metrics.cacheSets = w.app.written) :
    Accounted S limiter req w ↔
      ¬ ShortenGivesUp S limiter req w ∧ ¬ ComesToAfter S limiter req w := by
  rw [← countsShorten_iff, ← cacheSets_eq_written_iff hsets]
  exact ⟨fun h => ⟨h.shorten, h.sets⟩,
    fun h => ⟨h.1, countsLookup, shortenOk_eq_storeSetnxOk hsetnx, h.2⟩⟩

/-- **The runs that keep the accounts**, from counters that are zero: those in which no request to
shorten gives up, and no request comes to the hooks `after`. -/
theorem accounted_along_iff {w : World (Kept τ)} (hmetrics : w.metrics = {})
    (hwritten : w.app.written = 0) (reqs : List HttpRequest) :
    Along (fun before req => Accounted S limiter req ((serveRequest S limiter).run before w)) reqs ↔
      Along (fun before req =>
        ¬ ShortenGivesUp S limiter req ((serveRequest S limiter).run before w) ∧
          ¬ ComesToAfter S limiter req ((serveRequest S limiter).run before w)) reqs := by
  have hinvariant : ∀ before, Along (fun before req =>
      ¬ ShortenGivesUp S limiter req ((serveRequest S limiter).run before w) ∧
        ¬ ComesToAfter S limiter req ((serveRequest S limiter).run before w)) before →
      let w' := (serveRequest S limiter).run before w
      w'.metrics.shortenOk = w'.metrics.storeSetnxOk ∧ w'.metrics.cacheSets = w'.app.written := by
    intro before h
    refine h.invariant (I := fun before =>
      let w' := (serveRequest S limiter).run before w
      w'.metrics.shortenOk = w'.metrics.storeSetnxOk ∧ w'.metrics.cacheSets = w'.app.written)
      ?_ fun before req hI hG => ?_
    · simp only [Machine.run, hmetrics, hwritten, and_self]
    · simp only [Machine.run_concat]
      exact ⟨shortenOk_eq_storeSetnxOk hI.1, (cacheSets_eq_written_iff hI.2).2 hG.2⟩
  exact along_congr fun before req h =>
    accounted_iff S limiter req (hinvariant before h).1 (hinvariant before h).2

end Runs

/-! ## A run -/

/-- A limiter that allows everything. -/
def allowAll : Limiter τ := .inMemory ⟨⟨fun _ t => (true, t)⟩, true⟩

/-- The world before the first request, with a generator that draws zeros. -/
def startKept : World (Kept (KVStore mainShards)) where
  caches _ := .new mainCache.policy.memoryCapacityBytes
  metrics := {}
  readings _ := 0
  app := ⟨.new mainShards, mainBloom, startWorld.app.dist, 0⟩

def linkRequest : HttpRequest :=
  { HttpRequest.new with
    method := .kPost
    path := bytes "/api/shorten"
    content := bytes "\x7b\"url\":\"http://a\"\x7d" }

/-- A request to shorten that is on the blacklist. -/
def scriptRequest : HttpRequest :=
  { linkRequest with content := bytes "\x7b\"url\":\"javascript:a\"\x7d" }

def lookupRequest : HttpRequest :=
  { HttpRequest.new with method := .kGet, path := bytes "/s/0000000" }

/-- A store that cannot be reached. -/
def brokenStore : IStore Unit where
  get _ s := (.error (.runtimeError (bytes "refused")), s)
  setNX _ _ _ s := (.error (.runtimeError (bytes "refused")), s)
  set _ _ _ s := (.error (.runtimeError (bytes "refused")), s)
  del _ s := (.error (.runtimeError (bytes "refused")), s)

/-- The world before the first request, with a filter that lets an identifier pass. -/
def brokenKept : World (Kept Unit) where
  caches _ := .new mainCache.policy.memoryCapacityBytes
  metrics := {}
  readings _ := 0
  app := ⟨(), mainBloom.add (bytes "0000000"), startWorld.app.dist, 0⟩

/-- A request to shorten is turned down, and the handler of a redirect throws. -/
theorem stays_accounted : Along (fun before req =>
    ¬ ShortenGivesUp brokenStore allowAll req
        ((serveRequest brokenStore allowAll).run before brokenKept) ∧
      ¬ ComesToAfter brokenStore allowAll req
        ((serveRequest brokenStore allowAll).run before brokenKept))
    [scriptRequest, lookupRequest] := by
  refine along_cons.2 ⟨?_, along_cons.2 ⟨?_, along_nil _⟩⟩
  · have hblocked : ∀ w₁, ¬ Passed brokenStore allowAll scriptRequest brokenKept w₁ := by
      intro w₁ h
      have herror : (processBefore (assembled brokenStore allowAll).middlewares scriptRequest
        brokenKept).1 = .error (.response BlacklistMiddleware.blocked) := rfl
      rw [Passed] at h
      rw [h] at herror
      cases herror
    exact ⟨fun ⟨w₁, h, _⟩ => hblocked w₁ h, fun ⟨w₁, h, _⟩ => hblocked w₁ h⟩
  · refine ⟨fun ⟨_, _, hshorten, _⟩ => absurd hshorten.1 (by decide), fun ⟨w₁, h, hreturns⟩ => ?_⟩
    obtain rfl : _ = w₁ := congrArg Prod.snd h
    revert hreturns
    decide +kernel

theorem accounted_along_iff_stays_accounted :
    IsShorten scriptRequest ∧ IsLookup lookupRequest ∧
      Along (fun before req => Accounted brokenStore allowAll req
        ((serveRequest brokenStore allowAll).run before brokenKept))
        [scriptRequest, lookupRequest] :=
  ⟨⟨rfl, rfl⟩, ⟨rfl, bytes "0000000", by decide +kernel, by decide⟩,
    (accounted_along_iff brokenStore allowAll rfl rfl _).2 stays_accounted⟩

/-- An entry is counted that is not written, and a link that is not stored counts as nothing: the
second request draws an identifier that is taken, five times. -/
theorem misaccounted :
    let serve := serveRequest (memoryStore mainShards) allowAll
    let w := (serve linkRequest startKept).2
    let w' := (serve linkRequest w).2
    w.metrics.cacheSets = 1 ∧ w.app.written = 0 ∧ w.metrics.shortenOk = 1 ∧
      w'.metrics.shortenOk = 1 ∧ w'.metrics.shortenBad = 0 ∧ w'.metrics.storeSetnxConflict = 5 ∧
      ¬ CountsShorten (memoryStore mainShards) allowAll linkRequest w ∧
      ¬ Along (fun before req => Accounted (memoryStore mainShards) allowAll req
        (serve.run before startKept)) [linkRequest, linkRequest] := by
  intro serve w w'
  obtain ⟨hsets, hwritten, hok, hbad⟩ : w.metrics.cacheSets = 1 ∧ w.app.written = 0 ∧
      w.metrics.shortenOk = 1 ∧ w.metrics.shortenBad = 0 := by decide +kernel
  obtain ⟨hok', hbad', hconflict⟩ : w'.metrics.shortenOk = 1 ∧ w'.metrics.shortenBad = 0 ∧
      w'.metrics.storeSetnxConflict = 5 := by decide +kernel
  have hpassed : ∃ w₁, Passed (memoryStore mainShards) allowAll linkRequest w w₁ :=
    ⟨_, Prod.ext rfl rfl⟩
  refine ⟨hsets, hwritten, hok, hok', hbad', hconflict, fun h => ?_, fun h => ?_⟩
  · obtain ⟨w₁, hw₁⟩ := hpassed
    rcases h ⟨rfl, rfl⟩ w₁ hw₁ with ⟨-, hup, -⟩ | ⟨-, -, hup⟩
    · have hsame : 1 = w.metrics.shortenOk + 1 := hok'.symm.trans hup
      omega
    · have hsame : 0 = w.metrics.shortenBad + 1 := hbad'.symm.trans hup
      omega
  · have hfirst := (h [] linkRequest [linkRequest] rfl).sets
    rw [Machine.run] at hfirst
    exact absurd (hsets.symm.trans (hfirst.trans hwritten)) (by decide)

end KamaHttp
