import KamaHttp.App.Metrics
import KamaHttp.Http.Exits

/-!
# Limits and blacklists

The middlewares that turn requests down before they are routed (`mw_RateLimit.h`, `mw_Blacklist.h`).
They throw a response of their own. What the limiter allows is a parameter: it counts in floating
point.
-/

namespace KamaHttp

open Search

/-- `RateLimiter`: whether a client is allowed one request more. -/
structure RateLimiter (τ : Type*) where
  allow : Bytes → τ → Bool × τ

/-- A limiter that allows everything. -/
def openLimiter : RateLimiter Unit := ⟨fun _ t => (true, t)⟩

/-- `RateLimitMiddleware`: a limiter, and whether there are counters. -/
structure RateLimitMiddleware (τ : Type*) where
  limiter : RateLimiter τ
  metrics : Bool

namespace RateLimitMiddleware

variable {τ : Type*}

/-- The response to a request that is not allowed. -/
def limited : HttpResponse :=
  (((HttpResponse.new false).setStatusCode 403).addHeader (bytes "Retry-After") (bytes "1")).setBody
    (bytes "rate limited")

/-- The client a request counts for. -/
def clientOf (request : HttpRequest) : Bytes :=
  let key := request.getHeader (bytes "X-Client-Id")
  if key = [] then bytes "global" else key

def countDrop (m : RateLimitMiddleware τ) (metrics : Metrics) : Metrics :=
  if m.metrics then { metrics with ratelimitDrops := metrics.ratelimitDrops + 1 } else metrics

def before (m : RateLimitMiddleware τ) (request : HttpRequest) (w : Metrics × τ) :
    Except Thrown HttpRequest × (Metrics × τ) :=
  match m.limiter.allow (clientOf request) w.2 with
  | (true, t) => (.ok request, (w.1, t))
  | (false, t) => (.error (.response limited), (m.countDrop w.1, t))

/-- The hooks. -/
def middleware (m : RateLimitMiddleware τ) : Middleware (Metrics × τ) :=
  ⟨m.before, fun response w => (.returns response, w)⟩

/-- A client that is not allowed is turned down. -/
theorem before_of_limited (m : RateLimitMiddleware τ) {request : HttpRequest} {w : Metrics × τ}
    (h : (m.limiter.allow (clientOf request) w.2).1 = false) :
    m.middleware.before request w = (.error (.response limited),
      (m.countDrop w.1, (m.limiter.allow (clientOf request) w.2).2)) := by
  rcases ha : m.limiter.allow (clientOf request) w.2 with ⟨_ | _, t⟩
  · simp only [middleware, before, ha]
  · rw [ha] at h
    cases h

theorem filters (m : RateLimitMiddleware τ) : MiddlewareChain.Filters m.middleware := by
  intro request w r h
  simp only [middleware, before] at h
  split at h
  · exact (Except.ok.inj h).symm
  · cases h

/-- The limiter changes its own state and the counters, and throws one response. -/
theorem respects (m : RateLimitMiddleware τ) {P : HttpRequest → Prop} {Q : HttpResponse → Prop}
    {I : τ → Prop} (hI : ∀ key t, I t → I (m.limiter.allow key t).2) (hlimited : Q limited) :
    m.middleware.Respects P Q fun x => I x.2 where
  before request w hreq hw := by
    have hallow := hI (clientOf request) w.2 hw
    simp only [middleware, before]
    split
    · rename_i h
      rw [h] at hallow
      exact ⟨hallow, fun r hr => Except.ok.inj hr ▸ hreq, fun r hr => by cases hr⟩
    · rename_i h
      rw [h] at hallow
      refine ⟨hallow, fun r hr => (by cases hr), fun r hr => ?_⟩
      exact Thrown.response.inj (Except.error.inj hr) ▸ hlimited
  after _ _ hresp hw := .returns hresp hw

end RateLimitMiddleware

/-- `BlacklistMiddleware`, by its patterns. -/
structure BlacklistMiddleware where
  patterns : List Bytes

namespace BlacklistMiddleware

/-- What the patterns are looked for in: the body, a space and the path. -/
def checked (request : HttpRequest) : Bytes := request.getBody ++ [32] ++ request.path

/-- The response to a request that is on the list. -/
def blocked : HttpResponse :=
  ((HttpResponse.new false).setStatusCode 400).setBody (bytes "blocked by blacklist")

def blocks (m : BlacklistMiddleware) (request : HttpRequest) : Bool :=
  m.patterns.any fun p => p ≠ [] && (breakOn p (checked request)).isSome

def before {σ : Type*} (m : BlacklistMiddleware) (request : HttpRequest) (w : σ) :
    Except Thrown HttpRequest × σ :=
  if m.blocks request then (.error (.response blocked), w) else (.ok request, w)

/-- The hooks. -/
def middleware {σ : Type*} (m : BlacklistMiddleware) : Middleware σ :=
  ⟨m.before, fun response w => (.returns response, w)⟩

theorem before_of_blocked {σ : Type*} (m : BlacklistMiddleware) {request : HttpRequest}
    (h : m.blocks request = true) (w : σ) :
    m.middleware.before request w = (.error (.response blocked), w) := if_pos h

theorem filters {σ : Type*} (m : BlacklistMiddleware) :
    MiddlewareChain.Filters (m.middleware : Middleware σ) := by
  intro request w r h
  simp only [middleware, before] at h
  split at h
  · cases h
  · exact (Except.ok.inj h).symm

@[simp] theorem before_snd {σ : Type*} (m : BlacklistMiddleware) (request : HttpRequest) (w : σ) :
    (m.middleware.before request w).2 = w := by
  simp only [middleware, before]
  split <;> rfl

/-- The blacklist throws one response. -/
theorem respects {σ : Type*} (m : BlacklistMiddleware) {P : HttpRequest → Prop}
    {Q : HttpResponse → Prop} {I : σ → Prop} (hblocked : Q blocked) :
    (m.middleware : Middleware σ).Respects P Q I where
  before request w hreq hw := by
    simp only [middleware, before]
    split
    · refine ⟨hw, fun r hr => (by cases hr), fun r hr => ?_⟩
      exact Thrown.response.inj (Except.error.inj hr) ▸ hblocked
    · exact ⟨hw, fun r hr => Except.ok.inj hr ▸ hreq, fun r hr => by cases hr⟩
  after _ _ hresp hw := .returns hresp hw

/-- A request that passes is not on the list. -/
theorem blocks_of_before {σ : Type*} {m : BlacklistMiddleware} {request r : HttpRequest} {w : σ}
    (h : (m.middleware.before request w).1 = .ok r) : m.blocks request = false := by
  by_contra hb
  rw [m.before_of_blocked (Bool.eq_true_of_not_eq_false hb)] at h
  cases h

/-- A request that passes has no pattern in its body. -/
theorem not_infix_body {m : BlacklistMiddleware} {request : HttpRequest}
    (h : m.blocks request = false) {p : Bytes} (hp : p ∈ m.patterns) (hne : p ≠ []) :
    ¬ p <:+: request.content := by
  intro hinf
  have hsome : (breakOn p (checked request)).isSome := by
    rw [breakOn_isSome_iff, checked, List.append_assoc]
    exact hinf.trans (List.prefix_append _ _).isInfix
  have hblocks : m.blocks request = true :=
    List.any_eq_true.2 ⟨p, hp, by simp [hne, hsome]⟩
  rw [h] at hblocks
  cases hblocks

end BlacklistMiddleware

end KamaHttp
