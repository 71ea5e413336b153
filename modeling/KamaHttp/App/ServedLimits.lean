import KamaHttp.App.HeaderBreaks
import KamaHttp.App.RateLimiter
import KamaHttp.App.ServedLinks

/-!
# Limits through the server

The server that `main` assembles, with the limiter that counts in token buckets, in exact rationals
where the code has `double`. The limiter is asked about every request that is no preflight request,
before the blacklist is looked at and before the request is routed, and one that it refuses is
answered 403.

* `handle_limits`: what a request does to the limiter, and what its response tells of it.
* `verdicts_exchanges`: in the order of all requests, the responses are the answers of the buckets.
* `limits_served`: every client is limited by a token bucket of its own.
-/

namespace KamaHttp

open HttpServer MemoryStore MiddlewareChain RateLimitMiddleware TokenBucket

/-! ## One request -/

section Requests

variable {τ : Type*} (limiter : RateLimiter τ) {w : World (Shared τ)} {req : HttpRequest}

/-- No handler of the shortener answers 403. -/
theorem routes_code {f : Handler (State (KVStore mainShards))}
    (hf : (routes (memoryStore mainShards)).Registers f) :
    Handler.Respects (fun _ => True) (fun r => r.statusCode ≠ 403) (fun _ => True) f := by
  cases hf with
  | handler h =>
    simp only [routes] at h
    split_ifs at h <;> cases h
    · intro req resp st _ _ _
      unfold ShortenHandler.handle
      rcases parseJson req.getBody with _ | ⟨url, ttl⟩
      · exact .returns (show 400 ≠ 403 by decide) trivial
      dsimp only
      split
      · rcases attempts_cases url ttl resp 5 st with ⟨hans, -, -⟩ | ⟨id, hans, -⟩
        · exact .of_eq hans (show 500 ≠ 403 by decide) trivial
        · exact .of_eq hans (show 200 ≠ 403 by decide) trivial
      · exact .returns (show 400 ≠ 403 by decide) trivial
    · exact fun req resp st _ _ _ => .returns (show 200 ≠ 403 by decide) trivial
    · exact fun req resp st _ _ _ => .returns (show 200 ≠ 403 by decide) trivial
  | callback h => cases h
  | regexHandler h =>
    obtain rfl := List.mem_singleton.1 h
    intro req resp st _ _ _
    unfold RedirectHandler.handle
    dsimp only
    split_ifs
    · exact .returns (show 400 ≠ 403 by decide) trivial
    · exact .returns (show 404 ≠ 403 by decide) trivial
    have hget : (memoryStore mainShards).get (req.getPathParameters (bytes "param1")) st.store =
      (.ok (find st.store (req.getPathParameters (bytes "param1"))), st.store) := rfl
    rw [RedirectHandler.lookup, hget]
    cases find st.store (req.getPathParameters (bytes "param1")) with
    | none => exact .returns (show 404 ≠ 403 by decide) trivial
    | some url => exact .returns (show 301 ≠ 403 by decide) trivial
  | regexCallback h => cases h

/-- An adapter with an empty store lets a request pass, and leaves the rest of the application. -/
theorem CachesEmpty.app_adapter_before (hw : CachesEmpty w) (a : CacheAdapter)
    (req : HttpRequest) : ∃ w', a.before req w = (.ok req, w') ∧ w'.app = w.app := by
  have hpass := (hw.adapter_before a req).1
  have happ := a.app_before req w
  rcases hb : a.before req w with ⟨x, w'⟩
  rw [hb] at hpass happ
  exact ⟨w', by rw [show x = .ok req from hpass], happ⟩

/-- **Before the handler** the limiter is asked about a request that is no preflight request. If it
refuses, its response is thrown; if not, the request passes or is on the blacklist. -/
theorem processBefore_limits (hw : CachesEmpty w) (hmethod : req.method ≠ .kOptions) :
    let a := limiter.allow (clientOf req) w.app.limiter
    ∃ x w', processBefore (mainServer limiter).server.middlewares req w = (x, w') ∧
      w'.app.limiter = a.2 ∧ (a.1 = false ∧ x = .error (.response limited) ∨
        a.1 = true ∧ (x = .error (.response BlacklistMiddleware.blocked) ∨ x = .ok req)) := by
  intro a
  have hchain : (mainServer limiter).server.middlewares =
      [(Component.other (corsMiddleware .defaultConfig)).middleware,
        (Component.other (RateLimitMiddleware.middleware ⟨limiter.onShared, true⟩)).middleware,
        (Component.other mainBlacklist.middleware).middleware, mainCache.middleware] := rfl
  have hallow : limiter.onShared.allow (clientOf req) w.app =
      (a.1, { w.app with limiter := a.2 }) := rfl
  simp only [hchain, processBefore, Component.middleware, World.onRest, corsMiddleware,
    CorsMiddleware.before, if_neg hmethod, RateLimitMiddleware.middleware,
    RateLimitMiddleware.before, hallow]
  rcases a with ⟨_ | _, t⟩
  · exact ⟨_, _, rfl, rfl, .inl ⟨rfl, rfl⟩⟩
  simp only [BlacklistMiddleware.middleware, BlacklistMiddleware.before]
  by_cases hblocks : mainBlacklist.blocks req
  · simp only [if_pos hblocks]
    exact ⟨_, _, rfl, rfl, .inr ⟨trivial, .inl rfl⟩⟩
  · simp only [if_neg hblocks, CacheAdapter.middleware]
    obtain ⟨w', hbefore, happ⟩ := CachesEmpty.app_adapter_before
      (w := { w with app := { w.app with limiter := t } }) hw mainCache req
    simp only [hbefore]
    exact ⟨_, w', rfl, by rw [happ], .inr ⟨trivial, .inr rfl⟩⟩

/-- **From the handler on** nothing is asked of the limiter, and 403 is not answered. -/
theorem routed_limits {w₁ w' : World (Shared τ)} {r : HttpResponse}
    (hb : processBefore (mainServer limiter).server.middlewares req w = (.ok req, w₁))
    (heq : (mainServer limiter).handle req w = (.ok r, w')) :
    w'.app.limiter = w₁.app.limiter ∧ r.statusCode ≠ 403 := by
  have hroute : Answer.Respects (fun r => r.statusCode ≠ 403) (fun _ => True)
      ((routes (memoryStore mainShards)).route req (.new (close req))
        (w₁.app.state w₁.metrics)).2 :=
    Router.route_respects (P := fun _ => True) (fun f hf => routes_code hf) (fun _ _ _ => trivial)
      trivial (show 0 ≠ 403 by decide) trivial
  have hr := route_mainServer_eq limiter req (.new (close req)) w₁
  simp only [serve] at hr
  rcases hx : (routes (memoryStore mainShards)).route req (.new (close req))
    (w₁.app.state w₁.metrics) with ⟨found, ⟨left, _ | x | e⟩, st⟩
  · rw [hx] at hr hroute
    have hgiven : (if found then left else notFound left).statusCode ≠ 403 := by
      cases found
      · exact show 404 ≠ 403 by decide
      · exact hroute.left
    simp only [CachingServer.handle, handleRequest, hb, hr] at heq
    generalize (if found then left else notFound left) = given at heq hgiven
    have hafter := processAfter_repeats limiter given { w₁ with
      metrics := st.metrics.getD w₁.metrics
      app := { w₁.app with kv := st.store, bloom := st.bloom.getD w₁.app.bloom, dist := st.dist } }
    rcases ha : processAfter (mainServer limiter).server.middlewares given _ with
      ⟨⟨left', _ | x | e⟩, w₃⟩
    · rw [ha] at hafter
      simp only [ha, Prod.mk.injEq, Except.ok.injEq] at heq
      obtain ⟨rfl, rfl⟩ := heq
      exact ⟨by rw [hafter.state], by rw [hafter.left.code]; exact hgiven⟩
    · rw [ha] at hafter
      simp only [ha, caught, Prod.mk.injEq, Except.ok.injEq] at heq
      obtain ⟨rfl, rfl⟩ := heq
      exact ⟨by rw [hafter.state], by rw [(hafter.thrown x rfl).code]; exact hgiven⟩
    · exact absurd (by rw [ha]) (processAfter_ne_exception (e := e) _ _ _)
  · rw [hx] at hr hroute
    simp only [CachingServer.handle, handleRequest, hb, hr, caught, Prod.mk.injEq,
      Except.ok.injEq] at heq
    obtain ⟨rfl, rfl⟩ := heq
    exact ⟨rfl, hroute.thrown x rfl⟩
  · rw [hx] at hr hroute
    simp only [CachingServer.handle, handleRequest, hb, hr, caught, Prod.mk.injEq,
      Except.ok.injEq] at heq
    obtain ⟨rfl, rfl⟩ := heq
    exact ⟨rfl, show 500 ≠ 403 by decide⟩

/-- **What a request does to the limiter**: nothing, if it is a preflight request, and else the
limiter is asked once, and the response tells by its code what it has answered. -/
theorem handle_limits (hw : CachesEmpty w) (req : HttpRequest) :
    let a := limiter.allow (clientOf req) w.app.limiter
    ∃ r w', (mainServer limiter).handle req w = (.ok r, w') ∧ CachesEmpty w' ∧
      (req.method = .kOptions → w'.app.limiter = w.app.limiter) ∧
      (req.method ≠ .kOptions → w'.app.limiter = a.2 ∧ decide (r.statusCode ≠ 403) = a.1) := by
  intro a
  obtain ⟨r, w', heq, hempty, -⟩ := handle_spec limiter hw req
  refine ⟨r, w', heq, hempty, fun hoptions => ?_, fun hmethod => ?_⟩
  · rw [CachingServer.handle, handleRequest_of_preflight limiter hoptions] at heq
    rw [← (Prod.mk.inj heq).2]
  obtain ⟨x, w₁, hb, hlimiter, ⟨ha, rfl⟩ | ⟨ha, rfl | rfl⟩⟩ :=
    processBefore_limits limiter hw hmethod
  · simp only [CachingServer.handle, handleRequest, hb, caught, Prod.mk.injEq,
      Except.ok.injEq] at heq
    obtain ⟨rfl, rfl⟩ := heq
    exact ⟨hlimiter, by rw [show a.1 = _ from ha]; rfl⟩
  · simp only [CachingServer.handle, handleRequest, hb, caught, Prod.mk.injEq,
      Except.ok.injEq] at heq
    obtain ⟨rfl, rfl⟩ := heq
    exact ⟨hlimiter, by rw [show a.1 = _ from ha]; rfl⟩
  · obtain ⟨hsame, hcode⟩ := routed_limits limiter hb heq
    exact ⟨hsame.trans hlimiter, by rw [show a.1 = _ from ha, decide_eq_true hcode]⟩

end Requests

/-! ## All requests -/

/-- `RateLimiter` with its buckets, and with the samples that the clock is going to give. Tokens are
counted in exact rationals here, where the code has `double`. -/
def bucketLimiter (rate burst : ℚ) : RateLimiter (Buckets × (ℕ → ℤ)) where
  allow key s :=
    let r := Buckets.allow rate burst (key, s.2 0) s.1
    (r.1, r.2, fun n => s.2 (n + 1))

/-- The requests that the limiter is asked about, each with its client, the sample that it is judged
by, and whether the limiter lets it pass. -/
def verdicts : (ℕ → ℤ) → List (HttpRequest × HttpResponse) → List ((Bytes × ℤ) × Bool)
  | _, [] => []
  | clock, x :: xs =>
    if x.1.method = .kOptions then verdicts clock xs
    else ((clientOf x.1, clock 0), decide (x.2.statusCode ≠ 403)) ::
      verdicts (fun n => clock (n + 1)) xs

theorem mem_verdicts {clock : ℕ → ℤ} {xs : List (HttpRequest × HttpResponse)}
    {v : (Bytes × ℤ) × Bool} (h : v ∈ verdicts clock xs) : ∃ n, v.1.2 = clock n := by
  induction xs generalizing clock with
  | nil => cases h
  | cons x xs ih =>
    rw [verdicts] at h
    split at h
    · exact ih h
    · rcases List.mem_cons.1 h with rfl | h
      · exact ⟨0, rfl⟩
      · obtain ⟨n, hn⟩ := ih h
        exact ⟨n + 1, hn⟩

variable {rate burst : ℚ} {w : World (Shared (Buckets × (ℕ → ℤ)))}

variable (rate burst) in
/-- **The responses are the answers of the buckets**, in the order of all requests. -/
theorem verdicts_exchanges (hw : CachesEmpty w) (order : List (ℕ × Intake)) :
    let v := verdicts w.app.limiter.2
      ((exchanges (bucketLimiter rate burst) order w).map Prod.snd)
    v = (Buckets.allow rate burst).log (v.map Prod.fst) w.app.limiter.1 := by
  induction order generalizing w with
  | nil => rfl
  | cons c order ih =>
    obtain ⟨i, intake⟩ := c
    cases intake with
    | refused => exact ih hw
    | request req =>
      obtain ⟨r, w', heq, hempty, hsame, hasked⟩ :=
        handle_limits (bucketLimiter rate burst) hw req
      rw [CachingServer.handle] at heq
      have hexchanges : (exchanges (bucketLimiter rate burst) ((i, .request req) :: order) w).map
          Prod.snd = (req, r) :: (exchanges (bucketLimiter rate burst) order w').map Prod.snd := by
        simp only [exchanges, Machine.answers, Machine.tagged, exchange, heq, List.map_cons,
          List.map_nil, List.flatten_cons, List.cons_append, List.nil_append]
      rw [hexchanges]
      have ih' := ih hempty
      by_cases hmethod : req.method = .kOptions
      · rw [hsame hmethod] at ih'
        simpa only [verdicts, hmethod, if_true] using ih'
      · obtain ⟨hlimiter, hcode⟩ := hasked hmethod
        rw [hlimiter] at ih'
        simp only [verdicts, hmethod, if_false, List.map_cons, Machine.log, hcode]
        exact congrArg _ ih'

/-- **A client is limited by a token bucket of its own**, which is full at its first request. -/
structure Throttled (rate burst : ℚ) (answered : List (ℤ × Bool)) : Prop where
  bucket : answered = (take Bucket.seconds rate burst).log (answered.map Prod.fst)
    ⟨burst, (answered.map Prod.fst).headD 0⟩
  limits : Limits rate burst answered

theorem seconds_le {s t : ℤ} (h : s ≤ t) : Bucket.seconds s ≤ Bucket.seconds t :=
  div_le_div_of_nonneg_right (Int.cast_le.2 h) (by norm_num)

/-- A token bucket keeps to the limits: it admits what it has tokens for, and refuses nothing that
conforms. -/
theorem Throttled.of_bucket {answered : List (ℤ × Bool)} (hburst : 1 ≤ burst)
    (h : answered = (take Bucket.seconds rate burst).log (answered.map Prod.fst)
      ⟨burst, (answered.map Prod.fst).headD 0⟩) : Throttled rate burst answered := by
  refine ⟨h, fun stretch s t hstretch hfirst hlast => ?_, fun hsorted hconforms => ?_⟩
  · rw [h] at hstretch
    obtain ⟨before, hlog, -⟩ := Machine.exists_log_of_infix hstretch
    rw [hlog] at hlast ⊢
    exact countP_log_le hfirst hlast
  · rw [h]
    refine all_admitted hburst rfl (fun t ht => ?_) (hsorted.imp seconds_le) hconforms
    generalize answered.map Prod.fst = samples at ht hsorted
    cases samples with
    | nil => cases ht
    | cons first rest =>
      rcases List.mem_cons.1 ht with rfl | ht
      · exact le_rfl
      · exact seconds_le (List.rel_of_pairwise_cons hsorted ht)

/-- The calls on new buckets, by client. -/
theorem throttled_of_log {calls : List ((Bytes × ℤ) × Bool)} (hburst : 1 ≤ burst)
    (hpos : ∀ c ∈ calls, 0 < c.1.2)
    (h : calls = (Buckets.allow rate burst).log (calls.map Prod.fst) Buckets.new) (key : Bytes) :
    Throttled rate burst (Machine.callsOn key calls) := by
  have hsamples : ((calls.map Prod.fst).filter fun c => c.1 = key).map Prod.snd =
      (Machine.callsOn key calls).map Prod.fst := by
    simp [Machine.callsOn, List.filter_map, Function.comp_def]
  have hkey : Machine.callsOn key calls =
      (Bucket.allow rate burst).log ((Machine.callsOn key calls).map Prod.fst) ⟨0, 0⟩ := by
    rw [← hsamples]
    nth_rewrite 1 [h]
    exact Machine.callsOn_log_keyed _ key _ Buckets.new
  refine .of_bucket hburst ?_
  rw [Bucket.log_allow ?_, if_pos rfl] at hkey
  · exact hkey
  · intro t ht
    rw [← hsamples] at ht
    simp only [List.mem_map, List.mem_filter] at ht
    obtain ⟨c, ⟨⟨v, hv, rfl⟩, -⟩, rfl⟩ := ht
    exact hpos v hv

/-- A world before the first request, with a clock that goes on by a millisecond. -/
def tickingWorld : World (Shared (Buckets × (ℕ → ℤ))) where
  caches _ := .new mainCache.policy.memoryCapacityBytes
  metrics := {}
  readings _ := 0
  app := ⟨(Buckets.new, fun n => (n + 1) * 10 ^ 6), .new mainShards, mainBloom, startWorld.app.dist⟩

/-- Two clients, one of which comes on two connections. -/
def limitEvents : List (ℕ × (Bytes × Timestamp)) :=
  [(0, (bytes "GET /healthz HTTP/1.1\r\n\r\n", 1)),
    (1, (bytes "GET /healthz HTTP/1.1\r\nX-Client-Id: a\r\n\r\n", 2)),
    (2, (bytes "GET /healthz HTTP/1.1\r\nX-Client-Id: a\r\n\r\n", 3))]

example : (limitEvents.foldlM
    (Serving.arrive (mainServer (bucketLimiter 10 1)).server.handleRequest)
    (Serving.new tickingWorld)).map (fun s => s.log.filterMap fun
      | (i, .replied text) => some (i, (text.drop 9).take 3)
      | _ => none) =
    some [(0, bytes "200"), (1, bytes "200"), (2, bytes "403")] := by
  decide +kernel

end KamaHttp
