import Mathlib.Logic.Function.Basic
import KamaHttp.App.Metrics
import KamaHttp.Cache.CacheMiddleware
import KamaHttp.Foundations.System
import KamaHttp.Http.Exits

/-!
# The cache in the middleware chain

`CacheAdapter` (`CacheAdapter.h`) puts the response cache into the middleware chain: its hook
`before` throws the response the cache answers with, and its hook `after` hands the response to the
cache. The hook is not given the request, and hands the cache an empty one.

* `CachesEmpty.preserved`: no hook of an adapter stores anything.
* `never_answered_from_cache`: in every state of every run, no request is answered from the cache,
  and every request that no other middleware stops is routed.
-/

namespace KamaHttp

open CacheMiddleware MiddlewareChain

variable {τ : Type*}

/-- What the middlewares and handlers share: the stores of the adapters, which adapters may share
in turn, the counters, the clock as it will be read, and the rest of the application. -/
structure World (τ : Type*) where
  caches : ℕ → CacheStore
  metrics : Metrics
  readings : ℕ → ℤ
  app : τ

namespace World

/-- The reading of the clock, and the world behind it. -/
def readClock (w : World τ) : ℤ × World τ :=
  (w.readings 0, { w with readings := fun n => w.readings (n + 1) })

/-- The cache of a policy on the store `i`. -/
def cache (w : World τ) (policy : CachePolicy) (i : ℕ) : CacheMiddleware := ⟨policy, w.caches i⟩

def setCache (w : World τ) (i : ℕ) (store : CacheStore) : World τ :=
  { w with caches := Function.update w.caches i store }

/-- A function on the counters and the rest of the application. -/
def onRest {α : Type*} (f : Metrics × τ → α × (Metrics × τ)) (w : World τ) : α × World τ :=
  let r := f (w.metrics, w.app)
  (r.1, { w with metrics := r.2.1, app := r.2.2 })

@[simp] theorem setCache_caches (w : World τ) (i : ℕ) (store : CacheStore) :
    (w.setCache i store).caches = Function.update w.caches i store := rfl

end World

/-- `CacheAdapter`: a policy, a store and whether there are counters. -/
structure CacheAdapter where
  policy : CachePolicy
  store : ℕ
  metrics : Bool

namespace CacheAdapter

def countHit (a : CacheAdapter) (w : World τ) : World τ :=
  if a.metrics then { w with metrics.cacheHits := w.metrics.cacheHits + 1 } else w

def countSet (a : CacheAdapter) (w : World τ) : World τ :=
  if a.metrics then { w with metrics.cacheSets := w.metrics.cacheSets + 1 } else w

def before (a : CacheAdapter) (request : HttpRequest) (w : World τ) :
    Except Thrown HttpRequest × World τ :=
  let (now, w) := w.readClock
  match (w.cache a.policy a.store).before request (HttpResponse.new false) now with
  | (true, resp, cache) =>
    (.error (.response resp), a.countHit (w.setCache a.store cache.store))
  | (false, _, cache) => (.ok request, w.setCache a.store cache.store)

/-- `after` hands the cache the response with a request that was default-constructed. -/
def after (a : CacheAdapter) (response : HttpResponse) (w : World τ) : Answer × World τ :=
  let (now, w) := w.readClock
  let cache := (w.cache a.policy a.store).after HttpRequest.new response now
  (.returns response, a.countSet (w.setCache a.store cache.store))

/-- The hooks of the adapter. -/
def middleware (a : CacheAdapter) : Middleware (World τ) := ⟨a.before, a.after⟩

end CacheAdapter

/-- A middleware of the chain: an adapter, or one that knows nothing of the caches. -/
inductive Component (τ : Type*)
  | cacheAdapter (a : CacheAdapter)
  | other (m : Middleware (Metrics × τ))

def Component.middleware : Component τ → Middleware (World τ)
  | .cacheAdapter a => a.middleware
  | .other m =>
    ⟨fun request => World.onRest (m.before request),
      fun response => World.onRest (m.after response)⟩

/-- A handler that knows nothing of the caches. -/
def Handler.onRest (f : Handler (Metrics × τ)) : Handler (World τ) := fun req resp =>
  World.onRest (f req resp)

def RegexRoute.onRest (r : RegexRoute (Metrics × τ)) : RegexRoute (World τ) :=
  ⟨r.method, r.pattern, r.handler.onRest⟩

def Router.onRest (router : Router (Metrics × τ)) : Router (World τ) where
  handlers m path := (router.handlers m path).map Handler.onRest
  callbacks m path := (router.callbacks m path).map Handler.onRest
  regexHandlers := router.regexHandlers.map RegexRoute.onRest
  regexCallbacks := router.regexCallbacks.map RegexRoute.onRest

/-- A server whose chain may hold adapters, anywhere and of any number. -/
structure CachingServer (τ : Type*) where
  chain : List (Component τ)
  router : Router (Metrics × τ)

/-- What happens to a server: a request, or a purge of a store. -/
inductive ServerEvent
  | request (req : HttpRequest)
  | purge (i : ℕ) (pathPrefix : Bytes)

namespace CachingServer

def server (s : CachingServer τ) : HttpServer (World τ) :=
  ⟨s.chain.map Component.middleware, s.router.onRest⟩

/-- `handleRequest` on a request, with the response `onRequest` gives it. -/
def handle (s : CachingServer τ) (req : HttpRequest) (w : World τ) :
    Except StdException HttpResponse × World τ :=
  s.server.handleRequest req (HttpResponse.new (HttpServer.close req)) w

/-- The runs of a server, from stores that are empty. -/
def system (s : CachingServer τ) : System (World τ) ServerEvent where
  init w := ∀ i, ∃ capBytes, w.caches i = .new capBytes
  step w e w' :=
    match e with
    | .request req => w' = (s.handle req w).2
    | .purge i pathPrefix => w' = w.setCache i ((w.caches i).purgePrefix pathPrefix)

end CachingServer

/-! ## The stores stay empty -/

/-- No store holds anything. -/
def CachesEmpty (w : World τ) : Prop := ∀ i k, (w.caches i).content k = none

/-- An empty request is not cached. -/
theorem not_cacheable_new (p : CachePolicy) : ¬ isCacheableRequest HttpRequest.new p := by
  intro h
  rcases method_of_cacheable h with h | h <;> cases h

/-- Nothing is answered from an empty store. -/
theorem CachesEmpty.before_eq_false {w : World τ} (h : CachesEmpty w) (p : CachePolicy) (i : ℕ)
    (req : HttpRequest) (resp : HttpResponse) (now : ℤ) :
    ((w.cache p i).before req resp now).1 = false := by
  rw [← Bool.not_eq_true]
  intro hb
  obtain ⟨-, hit, hc, -⟩ := before_eq_true hb
  have := h i (makeKey req p)
  rw [World.cache] at hc
  rw [this] at hc
  cases hc

theorem CachesEmpty.setCache {w : World τ} (h : CachesEmpty w) (i : ℕ) {store : CacheStore}
    (hs : ∀ k, store.content k = none) : CachesEmpty (w.setCache i store) := by
  intro j k
  rw [World.setCache_caches]
  by_cases hj : j = i
  · subst hj
    rw [Function.update_self]
    exact hs k
  · rw [Function.update_of_ne hj]
    exact h j k

/-- **An adapter lets every request pass when the stores are empty**, and leaves them empty. -/
theorem CachesEmpty.adapter_before {w : World τ} (h : CachesEmpty w) (a : CacheAdapter)
    (req : HttpRequest) : (a.before req w).1 = .ok req ∧ CachesEmpty (a.before req w).2 := by
  have hw : CachesEmpty w.readClock.2 := h
  have hb := hw.before_eq_false a.policy a.store req (HttpResponse.new false) w.readClock.1
  have hc := (before_policy_content (w.readClock.2.cache a.policy a.store) req
    (HttpResponse.new false) w.readClock.1).2.2
  simp only [CacheAdapter.before]
  rcases hr : (w.readClock.2.cache a.policy a.store).before req (HttpResponse.new false)
    w.readClock.1 with ⟨_ | _, resp, cache⟩
  · rw [hr] at hc
    exact ⟨rfl, hw.setCache _ fun k => (hc k).trans (h a.store k)⟩
  · rw [hr] at hb
    cases hb

/-- **The hook `after` of an adapter stores nothing**, as the request it hands on is empty. -/
theorem CachesEmpty.adapter_after {w : World τ} (h : CachesEmpty w) (a : CacheAdapter)
    (response : HttpResponse) : CachesEmpty (a.after response w).2 := by
  have hw : CachesEmpty w.readClock.2 := h
  have hafter : (w.readClock.2.cache a.policy a.store).after HttpRequest.new response
      w.readClock.1 = w.readClock.2.cache a.policy a.store := by
    simp only [CacheMiddleware.after, World.cache, not_cacheable_new, Bool.false_eq_true, if_false]
  have hset := hw.setCache a.store fun k => hw a.store k
  simp only [CacheAdapter.after, hafter, CacheAdapter.countSet]
  split
  · exact hset
  · exact hset

/-- No hook of a chain stores anything. -/
theorem CachesEmpty.preserved (chain : List (Component τ)) :
    ∀ m ∈ chain.map Component.middleware, Preserves CachesEmpty m := by
  intro m hm
  obtain ⟨c, -, rfl⟩ := List.mem_map.1 hm
  cases c with
  | cacheAdapter a =>
    exact ⟨fun req w h => (h.adapter_before a req).2, fun resp w h => h.adapter_after a resp⟩
  | other m => exact ⟨fun req w h => h, fun resp w h => h⟩

/-- The functions that are registered know nothing of the caches. -/
theorem Router.exists_of_registers_onRest {router : Router (Metrics × τ)} {f : Handler (World τ)}
    (hf : router.onRest.Registers f) :
    ∃ g : Handler (Metrics × τ), router.Registers g ∧ f = g.onRest := by
  have hmap : (router.map Handler.onRest).Registers f := hf
  exact Router.exists_of_registers_map hmap

variable {s : CachingServer τ} {w : World τ}

/-- **In every state reached, no store holds anything.** -/
theorem cachesEmpty_of_reaches (h : Reaches s.system Always w) : CachesEmpty w := by
  refine h.invariant ?_ ?_
  · intro w hw i k
    obtain ⟨capBytes, hcap⟩ := hw i
    rw [hcap, CacheStore.content_new]
  · intro w e w' hw _ hs
    cases e with
    | request req =>
      obtain rfl : w' = _ := hs
      refine HttpServer.handleRequest_preserves (CachesEmpty.preserved s.chain) ?_ hw
      intro f hf req resp w hw
      obtain ⟨g, -, rfl⟩ := Router.exists_of_registers_onRest hf
      exact hw
    | purge i pathPrefix =>
      obtain rfl : w' = _ := hs
      refine hw.setCache i fun k => ?_
      rw [CacheStore.content_purgePrefix]
      split
      · rfl
      · exact hw i k

/-! ## What the components respect -/

namespace CacheAdapter

theorem app_before (a : CacheAdapter) (request : HttpRequest) (w : World τ) :
    (a.before request w).2.app = w.app := by
  simp only [before]
  split
  · simp only [countHit]
    split <;> rfl
  · rfl

theorem app_after (a : CacheAdapter) (response : HttpResponse) (w : World τ) :
    (a.after response w).2.app = w.app := by
  simp only [after, countSet]
  split <;> rfl

theorem filters (a : CacheAdapter) : Filters (a.middleware : Middleware (World τ)) := by
  intro request w r h
  simp only [middleware, before] at h
  split at h
  · cases h
  · exact (Except.ok.inj h).symm

end CacheAdapter

theorem Component.filters {c : Component τ} (hother : ∀ m, c = .other m → Filters m) :
    Filters c.middleware := by
  cases c with
  | cacheAdapter a => exact a.filters
  | other m => exact fun request w r h => hother m rfl request (w.metrics, w.app) r h

/-- The stores hold nothing, and the rest of the application is in a state with `I`. -/
def RestOf (I : τ → Prop) (w : World τ) : Prop := CachesEmpty w ∧ I w.app

section Respects

variable {P : HttpRequest → Prop} {Q : HttpResponse → Prop} {I : τ → Prop}

/-- An adapter lets requests and responses pass as they are. -/
theorem CacheAdapter.respects (a : CacheAdapter) : a.middleware.Respects P Q (RestOf I) where
  before request w hreq hw := by
    obtain ⟨hpass, hempty⟩ := hw.1.adapter_before a request
    refine ⟨⟨hempty, ?_⟩, fun r hr => ?_, fun r hr => ?_⟩
    · rw [show (a.middleware.before request w).2.app = w.app from a.app_before request w]
      exact hw.2
    · rw [show (a.middleware.before request w).1 = .ok request from hpass] at hr
      exact Except.ok.inj hr ▸ hreq
    · rw [show (a.middleware.before request w).1 = .ok request from hpass] at hr
      cases hr
  after response w hresp hw := by
    refine ⟨⟨hw.1.adapter_after a response, ?_⟩, hresp, fun r hr => by cases hr⟩
    rw [show (a.middleware.after response w).2.app = w.app from a.app_after response w]
    exact hw.2

/-- What the middlewares beside the adapters respect, every component of the chain respects. -/
theorem Component.respects {c : Component τ}
    (hother : ∀ m, c = .other m → m.Respects P Q fun x => I x.2) :
    c.middleware.Respects P Q (RestOf I) := by
  cases c with
  | cacheAdapter a => exact a.respects
  | other m =>
    have hm := hother m rfl
    refine ⟨fun request w hreq hw => ?_, fun response w hresp hw => ?_⟩
    · obtain ⟨hI, hP, hQ⟩ := hm.before request (w.metrics, w.app) hreq hw.2
      exact ⟨⟨hw.1, hI⟩, hP, hQ⟩
    · have hafter := hm.after response (w.metrics, w.app) hresp hw.2
      exact ⟨⟨hw.1, hafter.state⟩, hafter.left, hafter.thrown⟩

theorem Handler.onRest_respects {f : Handler (Metrics × τ)}
    (hf : Handler.Respects P Q (fun x => I x.2) f) : Handler.Respects P Q (RestOf I) f.onRest := by
  intro req resp w hreq hresp hw
  have h := hf req resp (w.metrics, w.app) hreq hresp hw.2
  exact ⟨⟨hw.1, h.state⟩, h.left, h.thrown⟩

end Respects

/-! ## No request is answered from the cache -/

def Component.IsAdapter : Component τ → Prop
  | .cacheAdapter _ => True
  | .other _ => False

/-- The request passes the hooks `before` of a part of the chain, and the next one, which meets `P`,
throws. -/
def StoppedBy (P : Component τ → Prop) (s : CachingServer τ) (req : HttpRequest) (w : World τ) :
    Prop :=
  ∃ front c back req' w', s.chain = front ++ c :: back ∧ P c ∧
    processBefore (front.map Component.middleware) req w = (.ok req', w') ∧
    ∃ x w'', c.middleware.before req' w' = (.error x, w'')

/-- A request that is answered from the cache: an adapter throws. -/
def AnsweredFromCache (s : CachingServer τ) (req : HttpRequest) (w : World τ) : Prop :=
  StoppedBy Component.IsAdapter s req w

/-- A request that passes every hook `before`: it is what `handleRequest` routes. -/
def Routed (s : CachingServer τ) (req : HttpRequest) (w : World τ) : Prop :=
  ∃ req' w', processBefore s.server.middlewares req w = (.ok req', w')

/-- A request is routed, or a component throws. -/
theorem routed_or_stopped (s : CachingServer τ) (req : HttpRequest) (w : World τ) :
    Routed s req w ∨ StoppedBy (fun _ => True) s req w := by
  obtain ⟨chain, router⟩ := s
  induction chain generalizing req w with
  | nil => exact .inl ⟨req, w, rfl⟩
  | cons c chain ih =>
    rcases hc : c.middleware.before req w with ⟨x | req', w'⟩
    · exact .inr ⟨[], c, chain, req, w, rfl, trivial, rfl, x, w', hc⟩
    · have hcons : ∀ ms, processBefore (c.middleware :: ms) req w = processBefore ms req' w' := by
        intro ms
        simp only [processBefore, hc]
      rcases ih req' w' with ⟨req'', w'', h⟩ | ⟨front, d, back, req'', w'', hchain, hd, h, hx⟩
      · exact .inl ⟨req'', w'', (hcons _).trans h⟩
      · exact .inr ⟨c :: front, d, back, req'', w'', congrArg (c :: ·) hchain, hd,
          (hcons _).trans h, hx⟩

/-- **No request is ever answered from the cache.** In every state of every run, whatever the chain,
no adapter throws, and a request that no other middleware stops is routed. -/
theorem never_answered_from_cache (h : Reaches s.system Always w) (req : HttpRequest) :
    ¬ AnsweredFromCache s req w ∧
      (Routed s req w ∨ StoppedBy (fun c => ¬ c.IsAdapter) s req w) := by
  have hnot : ¬ AnsweredFromCache s req w := by
    rintro ⟨front, c, back, req', w', -, hc, hfront, x, w'', hx⟩
    cases c with
    | other m => exact hc
    | cacheAdapter a =>
      have hw : CachesEmpty (processBefore (front.map Component.middleware) req w).2 :=
        processBefore_preserves req (CachesEmpty.preserved front) (cachesEmpty_of_reaches h)
      rw [hfront] at hw
      have hpass := (hw.adapter_before a req').1
      rw [show a.before req' w' = _ from hx] at hpass
      cases hpass
  refine ⟨hnot, (routed_or_stopped s req w).imp_right ?_⟩
  rintro ⟨front, c, back, req', w', hchain, -, hfront, hx⟩
  exact ⟨front, c, back, req', w', hchain,
    fun hc => hnot ⟨front, c, back, req', w', hchain, hc, hfront, hx⟩, hfront, hx⟩

/-- A handler that answers 200 and counts its calls. -/
def countingHandler : Handler (Metrics × ℕ) := fun _ resp w =>
  (.returns ((resp.setStatusLine (bytes "HTTP/1.1") 200 (bytes "OK")).setBody (bytes "page")),
    (w.1, w.2 + 1))

/-- A server with one adapter and the route `GET /`. -/
def countingServer : CachingServer ℕ where
  chain := [.cacheAdapter ⟨{}, 0, true⟩]
  router :=
    { Router.empty with
      handlers := fun m path =>
        if m = .kGet ∧ path = bytes "/" then some countingHandler else none }

/-- The world before the first request, with a clock that stands still. -/
def freshWorld : World ℕ := ⟨fun _ => .new 4096, {}, fun _ => 0, 0⟩

def getRoot : HttpRequest := { HttpRequest.new with method := .kGet, path := bytes "/" }

/-- The world behind one request. -/
def servedOnce : World ℕ := (countingServer.handle getRoot freshWorld).2

theorem reaches_servedOnce : Reaches countingServer.system Always servedOnce :=
  .step (e := .request getRoot) (.init fun _ => ⟨4096, rfl⟩) trivial rfl

theorem never_answered_from_cache_getRoot :
    ¬ AnsweredFromCache countingServer getRoot servedOnce ∧
      (Routed countingServer getRoot servedOnce ∨
        StoppedBy (fun c => ¬ c.IsAdapter) countingServer getRoot servedOnce) :=
  never_answered_from_cache reaches_servedOnce getRoot

def okPage : HttpResponse :=
  ((HttpResponse.new false).setStatusLine (bytes "HTTP/1.1") 200 (bytes "OK")).setBody
    (bytes "page")

/-- The response to the first of two equal requests is cacheable and fits the store, and yet the
second request is routed like the first. -/
theorem repeated_request_routed :
    Reaches countingServer.system Always servedOnce ∧
      (countingServer.handle getRoot freshWorld).1 = .ok okPage ∧
      isCacheableRequest getRoot {} ∧ isCacheableResponse okPage {} ∧
      (pack okPage 0 {}).bytes ≤ ({} : CachePolicy).maxObjectBytes ∧
      (pack okPage 0 {}).bytes ≤ (freshWorld.caches 0).capBytes ∧ servedOnce.app = 1 ∧
      (countingServer.handle getRoot servedOnce).2.app = 2 ∧
      (countingServer.handle getRoot servedOnce).2.metrics.cacheHits = 0 :=
  ⟨reaches_servedOnce, rfl, by decide, by decide, by decide, by decide, rfl, rfl, rfl⟩

end KamaHttp
