import KamaHttp.App.Bloom
import KamaHttp.App.Metrics
import KamaHttp.Http.Router

/-!
# The handlers of the shortener

Shortening and redirecting (`RouterSetup.cpp`, `ShortId.h`, `UrlValidator.h`) over any store with
the operations of `IStore`, and the routes of `main.cpp` to the handlers. The operations of a store
may throw; the handlers pass that on.
-/

namespace KamaHttp

open Search

/-- `IStore`, on what a store keeps. -/
structure IStore (κ : Type*) where
  get : Bytes → κ → Except StdException (Option Bytes) × κ
  setNX : Bytes → Bytes → ℤ → κ → Except StdException Bool × κ
  set : Bytes → Bytes → ℤ → κ → Except StdException Unit × κ
  del : Bytes → κ → Except StdException Unit × κ

/-! ## Identifiers and URLs -/

namespace ShortId

def charset : Bytes := bytes "0123456789ABCDEFGHIJKLMNOPQRSTUVWXYZabcdefghijklmnopqrstuvwxyz"

theorem charset_length : charset.length = 62 := by decide

/-- `random`: the string of the next `len` draws of the generator, and the draws behind them. -/
def random (len : ℕ) (dist : ℕ → Fin 62) : Bytes × (ℕ → Fin 62) :=
  ((List.range len).map fun i => charset.get ((dist i).cast charset_length.symm),
    fun i => dist (i + len))

end ShortId

/-- `UrlValidator::valid`: the string matches `^https?://[^\s]+$`, in any letter case. -/
def UrlValidator.valid (u : Bytes) : Bool :=
  [bytes "http://", bytes "https://"].any fun scheme =>
    (u.take scheme.length).map toLower = scheme && u.drop scheme.length ≠ [] &&
      (u.drop scheme.length).all fun b => !isspace b

/-- The strings of `^https?://[^\s]+$`, in any letter case. -/
def MatchesUrl (u : Bytes) : Prop :=
  ∃ scheme rest, u = scheme ++ rest ∧
    (scheme.map toLower = bytes "http://" ∨ scheme.map toLower = bytes "https://") ∧
    rest ≠ [] ∧ ∀ b ∈ rest, isspace b = false

theorem UrlValidator.valid_iff {u : Bytes} : UrlValidator.valid u ↔ MatchesUrl u := by
  constructor
  · intro h
    obtain ⟨scheme, hmem, hscheme⟩ := List.any_eq_true.1 h
    simp only [Bool.and_eq_true, decide_eq_true_eq, List.all_eq_true, Bool.not_eq_true'] at hscheme
    obtain ⟨⟨htake, hne⟩, hall⟩ := hscheme
    refine ⟨u.take scheme.length, u.drop scheme.length, (List.take_append_drop _ _).symm, ?_, hne,
      hall⟩
    rw [htake]
    simpa using hmem
  · rintro ⟨scheme, rest, rfl, hscheme, hne, hall⟩
    refine List.any_eq_true.2 ⟨scheme.map toLower, by simpa using hscheme, ?_⟩
    simp only [List.length_map, List.take_left, List.drop_left, Bool.and_eq_true,
      decide_eq_true_eq, List.all_eq_true, Bool.not_eq_true', true_and]
    exact ⟨hne, hall⟩

/-- The number behind `"ttl":`, zero if there is none. -/
def parseTtl (body : Bytes) : ℤ :=
  match breakOn (bytes "\"ttl\"") body with
  | none => 0
  | some (_, rest) =>
    match breakOn [58] rest with
    | none => 0
    | some (_, rest) =>
      ((rest.dropWhile isspace).takeWhile isdigit).foldl
        (fun v d => toInt32 (toInt32 (v * 10) + (d.toNat - 48 : ℤ))) 0

/-- `parseJson`: what stands in the next quotes behind `"url":`, and the number behind `"ttl":`. -/
def parseJson (body : Bytes) : Option (Bytes × ℤ) :=
  match breakOn (bytes "\"url\"") body with
  | none => none
  | some (_, rest) =>
    match breakOn [58] rest with
    | none => none
    | some (_, rest) =>
      match breakOn [34] rest with
      | none => none
      | some (_, rest) =>
        match breakOn [34] rest with
        | none => none
        | some (url, _) => some (url, parseTtl body)

/-- What is taken out of the body stands there. -/
theorem isInfix_of_parseJson {body url : Bytes} {ttl : ℤ} (h : parseJson body = some (url, ttl)) :
    url <:+: body := by
  have hrest : ∀ {pat s front rest : Bytes}, breakOn pat s = some (front, rest) → rest <:+ s := by
    intro pat s front rest hb
    refine ⟨front ++ pat, ?_⟩
    rw [List.append_assoc]
    exact (eq_append_of_breakOn hb).symm
  unfold parseJson at h
  rcases h₁ : breakOn (bytes "\"url\"") body with _ | ⟨_, rest₁⟩
  · simp only [h₁, reduceCtorEq] at h
  rcases h₂ : breakOn [58] rest₁ with _ | ⟨_, rest₂⟩
  · simp only [h₁, h₂, reduceCtorEq] at h
  rcases h₃ : breakOn [34] rest₂ with _ | ⟨_, rest₃⟩
  · simp only [h₁, h₂, h₃, reduceCtorEq] at h
  rcases h₄ : breakOn [34] rest₃ with _ | ⟨url', rest₄⟩
  · simp only [h₁, h₂, h₃, h₄, reduceCtorEq] at h
  simp only [h₁, h₂, h₃, h₄, Option.some.injEq, Prod.mk.injEq] at h
  obtain ⟨rfl, -⟩ := h
  have hfront : url' <+: rest₃ := ⟨[34] ++ rest₄, (eq_append_of_breakOn h₄).symm⟩
  exact hfront.isInfix.trans (((hrest h₃).trans (hrest h₂)).trans (hrest h₁)).isInfix

/-! ## The handlers -/

/-- What the handlers work on: what the store keeps, the filter and the counters where they are
installed, and the draws of the generator of identifiers. -/
structure State (κ : Type*) where
  store : κ
  bloom : Option Bloom
  metrics : Option Metrics
  dist : ℕ → Fin 62

variable {κ : Type*}

namespace State

def count (st : State κ) (f : Metrics → Metrics) : State κ :=
  { st with metrics := st.metrics.map f }

@[simp] theorem count_store (st : State κ) (f : Metrics → Metrics) :
    (st.count f).store = st.store := rfl

@[simp] theorem count_bloom (st : State κ) (f : Metrics → Metrics) :
    (st.count f).bloom = st.bloom := rfl

@[simp] theorem count_dist (st : State κ) (f : Metrics → Metrics) : (st.count f).dist = st.dist :=
  rfl

end State

variable (S : IStore κ)

namespace ShortenHandler

/-- The answer to a body without a URL. -/
def invalidUrl (resp : HttpResponse) : HttpResponse :=
  ((resp.setStatusCode 400).setContentType (bytes "application/json")).setBody
    (bytes "\x7b\"error\":\"invalid url\"\x7d")

/-- The answer that carries the identifier. -/
def created (id : Bytes) (resp : HttpResponse) : HttpResponse :=
  ((resp.setStatusCode 200).setContentType (bytes "application/json")).setBody
    (bytes "\x7b\"id\":\"" ++ id ++ bytes "\"\x7d")

/-- The loop of `handle`, with `n` attempts left. -/
def attempts (url : Bytes) (ttl : ℤ) (resp : HttpResponse) : ℕ → State κ → Answer × State κ
  | 0, st => (.returns ((resp.setStatusCode 500).setBody (bytes "exhausted id retries")), st)
  | n + 1, st =>
    let draw := ShortId.random 7 st.dist
    match S.setNX draw.1 url ttl st.store with
    | (.error e, store) => (.throws resp (.exception e), { st with store, dist := draw.2 })
    | (.ok true, store) =>
      (.returns (created draw.1 resp),
        State.count
          { st with store, dist := draw.2, bloom := st.bloom.map (Bloom.add · draw.1) } fun m =>
            { m with shortenOk := m.shortenOk + 1, storeSetnxOk := m.storeSetnxOk + 1 })
    | (.ok false, store) =>
      attempts url ttl resp n (State.count { st with store, dist := draw.2 } fun m =>
        { m with storeSetnxConflict := m.storeSetnxConflict + 1 })

def handle : Handler (State κ) := fun req resp st =>
  let invalid := (Answer.returns (invalidUrl resp), st.count fun m =>
    { m with shortenBad := m.shortenBad + 1 })
  match parseJson req.getBody with
  | none => invalid
  | some (url, ttl) =>
    if UrlValidator.valid url then attempts S url ttl resp 5 st else invalid

end ShortenHandler

namespace RedirectHandler

/-- The answer to an identifier that is not known. -/
def notFound (resp : HttpResponse) : HttpResponse :=
  (resp.setStatusCode 404).setBody (bytes "not found")

/-- The answer that redirects. -/
def moved (url : Bytes) (resp : HttpResponse) : HttpResponse :=
  ((resp.setStatusCode 301).addHeader (bytes "Location") url).addHeader (bytes "X-Cacheable")
    (bytes "1")

/-- `handle`, behind the filter: the store is asked. -/
def lookup (id : Bytes) (resp : HttpResponse) (st : State κ) : Answer × State κ :=
  match S.get id st.store with
  | (.error e, store) => (.throws resp (.exception e), { st with store })
  | (.ok none, store) =>
    (.returns (notFound resp), State.count { st with store } fun m =>
      { m with redirectMiss := m.redirectMiss + 1, storeGetMiss := m.storeGetMiss + 1 })
  | (.ok (some v), store) =>
    (.returns (moved v resp), State.count { st with store } fun m =>
      { m with redirectOk := m.redirectOk + 1, storeGetHit := m.storeGetHit + 1 })

def handle : Handler (State κ) := fun req resp st =>
  let id := req.getPathParameters (bytes "param1")
  if id = [] then (.returns ((resp.setStatusCode 400).setBody (bytes "bad id")), st)
  else if st.bloom.any fun b => !b.mightContain id then
    (.returns (notFound resp), st.count fun m => { m with redirectMiss := m.redirectMiss + 1 })
  else lookup S id resp st

variable {S} {req : HttpRequest} {resp : HttpResponse} {st : State κ}

theorem handle_of_nil (h : req.getPathParameters (bytes "param1") = []) :
    handle S req resp st = (.returns ((resp.setStatusCode 400).setBody (bytes "bad id")), st) := by
  rw [handle, if_pos h]

/-- The filter turns an identifier down. -/
theorem handle_of_filtered {b : Bloom} (hb : st.bloom = some b)
    (h : req.getPathParameters (bytes "param1") ≠ [])
    (hc : ¬ b.mightContain (req.getPathParameters (bytes "param1"))) :
    handle S req resp st =
      (.returns (notFound resp),
        st.count fun m => { m with redirectMiss := m.redirectMiss + 1 }) := by
  rw [handle, if_neg h, if_pos (by simp [hb, hc])]

/-- There is no filter, or it lets the identifier pass. -/
theorem handle_of_passed (h : req.getPathParameters (bytes "param1") ≠ [])
    (hc : ∀ b, st.bloom = some b → b.mightContain (req.getPathParameters (bytes "param1"))) :
    handle S req resp st = lookup S (req.getPathParameters (bytes "param1")) resp st := by
  rw [handle, if_neg h, if_neg]
  rcases hb : st.bloom with _ | b
  · simp
  · simp [hc b hb]

/-- What the store is asked does not depend on the filter. -/
theorem lookup_without_bloom (id : Bytes) :
    (lookup S id resp { st with bloom := none }).1 = (lookup S id resp st).1 := by
  simp only [lookup]
  rcases S.get id st.store with ⟨_ | _ | v, store⟩ <;> rfl

/-- `lookup` changes the store as `get` does, and leaves the filter. -/
theorem lookup_state (id : Bytes) (resp : HttpResponse) (st : State κ) :
    (lookup S id resp st).2.bloom = st.bloom ∧
      (lookup S id resp st).2.store = (S.get id st.store).2 := by
  unfold lookup
  rcases S.get id st.store with ⟨_ | _ | v, store⟩ <;> exact ⟨rfl, rfl⟩

end RedirectHandler

/-- `MetricsHandler::handle`. Where the handlers have no counters, those of `main` are zero. -/
def MetricsHandler.handle : Handler (State κ) := fun _ resp st =>
  (.returns (((resp.setStatusCode 200).setContentType (bytes "text/plain; version=0.0.4")).setBody
    (st.metrics.getD {}).prometheus), st)

def HealthHandler.handle : Handler (State κ) := fun _ resp st =>
  (.returns ((resp.setStatusCode 200).setBody (bytes "ok")), st)

/-! ## The routes -/

/-- The pattern `^/s/([A-Za-z0-9_-]{3,64})$`, with its group. -/
def shortPath (path : Bytes) : Option (List Bytes) :=
  let id := path.drop 3
  if path.take 3 = bytes "/s/" ∧ 3 ≤ id.length ∧ id.length ≤ 64 ∧ id.all isIdChar then some [id]
  else none

/-- The routes of `main`. -/
def routes : Router (State κ) where
  handlers method path :=
    if method = .kPost ∧ path = bytes "/api/shorten" then some (ShortenHandler.handle S)
    else if method = .kGet ∧ path = bytes "/metrics" then some MetricsHandler.handle
    else if method = .kGet ∧ path = bytes "/healthz" then some HealthHandler.handle
    else none
  callbacks _ _ := none
  regexHandlers := [⟨.kGet, shortPath, RedirectHandler.handle S⟩]
  regexCallbacks := []

section Routes

variable {req : HttpRequest} {id : Bytes} (resp : HttpResponse) (st : State κ)

theorem eq_of_shortPath {path : Bytes} {groups : List Bytes} (h : shortPath path = some groups) :
    path.take 3 = bytes "/s/" ∧ ∃ id, groups = [id] ∧ id ≠ [] := by
  unfold shortPath at h
  dsimp only at h
  split at h
  · rename_i hpath
    refine ⟨hpath.1, path.drop 3, (Option.some.inj h).symm, fun hnil => ?_⟩
    have hlength := hpath.2.1
    rw [hnil] at hlength
    exact absurd hlength (by decide)
  · cases h

/-- A request to shorten a URL reaches `ShortenHandler::handle`. -/
theorem route_shorten (h : req.method = .kPost ∧ req.path = bytes "/api/shorten") :
    (routes S).route req resp st = (true, ShortenHandler.handle S req resp st) := by
  have hhandler : (routes S).handlers req.method req.path = some (ShortenHandler.handle S) :=
    if_pos h
  simp only [Router.route, hhandler]

/-- The exact routes of other requests. -/
theorem handlers_of_not_shorten (h : ¬ (req.method = .kPost ∧ req.path = bytes "/api/shorten")) :
    (routes S).handlers req.method req.path =
      if req.method = .kGet ∧ req.path = bytes "/metrics" then some MetricsHandler.handle
      else if req.method = .kGet ∧ req.path = bytes "/healthz" then some HealthHandler.handle
      else none :=
  if_neg h

/-- A request for an identifier reaches `RedirectHandler::handle`, with its group. -/
theorem route_redirect (hmethod : req.method = .kGet) (hpath : shortPath req.path = some [id]) :
    (routes S).route req resp st =
      (true, RedirectHandler.handle S (Router.extractPathParameters [id] req) resp st) := by
  obtain ⟨htake, -⟩ := eq_of_shortPath hpath
  have hmetrics : req.path ≠ bytes "/metrics" := fun h => by
    rw [h] at htake
    exact absurd htake (by decide)
  have hhealthz : req.path ≠ bytes "/healthz" := fun h => by
    rw [h] at htake
    exact absurd htake (by decide)
  have hhandlers : (routes S).handlers req.method req.path = none := by
    simp [routes, hmethod, hmetrics, hhealthz]
  have hcallbacks : (routes S).callbacks req.method req.path = none := rfl
  have hfind : Router.findRoute (routes S).regexHandlers req =
      some (RedirectHandler.handle S, [id]) := by
    simp [Router.findRoute, routes, hmethod, hpath]
  simp only [Router.route, hhandlers, hcallbacks, hfind]

/-- A group is the first path parameter. -/
theorem extractPathParameters_singleton (id : Bytes) (req : HttpRequest) :
    Router.extractPathParameters [id] req = req.setPathParameters (bytes "param1") id := by
  have hname : bytes "param" ++ decimal ((0 + 1 : ℕ) : ℤ) = bytes "param1" := by decide +kernel
  rw [← hname]
  rfl

end Routes

end KamaHttp
