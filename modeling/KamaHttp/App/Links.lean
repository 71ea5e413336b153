import KamaHttp.App.MemoryStore

/-!
# Links that were handed out

The shortener of `main.cpp` over the store in memory: requests are routed one after the other, and
share a store, a filter and a generator of identifiers. A link is an identifier that the store maps
to a URL and the filter lets pass.

* `serve_cases`: what a request does to the store and the filter: nothing, or one new link, which
  the answer carries.
* `shorten_then_redirect`: a link that was handed out redirects from then on.
-/

namespace KamaHttp

open MemoryStore

variable {shards : ℕ+}

/-- A request and the response to fill are routed: whether there is a route, and how the handler
ends. -/
def serve (shards : ℕ+) :
    Machine (HttpRequest × HttpResponse) (State (KVStore shards)) (Bool × Answer) := fun r st =>
  let result := (routes (memoryStore shards)).route r.1 r.2 st
  ((result.1, result.2.1), result.2.2)

def IsShorten (req : HttpRequest) : Prop :=
  req.method = .kPost ∧ req.path = bytes "/api/shorten"

/-- `GET /s/id`. -/
def IsRedirect (id : Bytes) (req : HttpRequest) : Prop :=
  req.method = .kGet ∧ req.path = bytes "/s/" ++ id

/-- The handler returns, with status 200 and the identifier. -/
def AnswersId (id : Bytes) (a : Bool × Answer) : Prop :=
  a.1 = true ∧ a.2.thrown = none ∧ a.2.response.statusCode = 200 ∧
    a.2.response.body = bytes "\x7b\"id\":\"" ++ id ++ bytes "\"\x7d"

/-- The handler returns, with status 301 and the URL as `Location`. -/
def AnswersUrl (url : Bytes) (a : Bool × Answer) : Prop :=
  a.1 = true ∧ a.2.thrown = none ∧ a.2.response.statusCode = 301 ∧
    a.2.response.getHeader (bytes "Location") = url

/-! ## Identifiers -/

/-- A string that `ShortId::random(7)` may return. -/
def IsShortId (id : Bytes) : Prop := id.length = 7 ∧ ∀ b ∈ id, b ∈ ShortId.charset

theorem isShortId_random (dist : ℕ → Fin 62) : IsShortId (ShortId.random 7 dist).1 := by
  refine ⟨by simp [ShortId.random], fun b hb => ?_⟩
  obtain ⟨i, -, rfl⟩ := List.mem_map.1 hb
  exact List.get_mem _ _

theorem isIdChar_of_mem_charset {b : Byte} (hb : b ∈ ShortId.charset) : isIdChar b :=
  List.all_eq_true.1 (by decide : ShortId.charset.all isIdChar) b hb

/-- The dynamic route takes every identifier. -/
theorem shortPath_of_isShortId {id : Bytes} (h : IsShortId id) :
    shortPath (bytes "/s/" ++ id) = some [id] := by
  have hlen : (bytes "/s/").length = 3 := rfl
  have hall : id.all isIdChar := List.all_eq_true.2 fun b hb => isIdChar_of_mem_charset (h.2 b hb)
  have htake : (bytes "/s/" ++ id).take 3 = bytes "/s/" := List.take_left' hlen
  have hdrop : (bytes "/s/" ++ id).drop 3 = id := List.drop_left' hlen
  have hseven := h.1
  rw [shortPath, hdrop, htake, if_pos ⟨rfl, by omega, by omega, hall⟩]

/-! ## One request -/

variable {st st' : State (KVStore shards)} {id id' url url' : Bytes}

/-- The identifier was not in the store, and is there now with the URL, and in the filter. -/
structure Adds (id url : Bytes) (st st' : State (KVStore shards)) : Prop where
  shortId : IsShortId id
  free : find st.store id = none
  store : st'.store = st.store.set (shard shards id) id url
  bloom : st'.bloom = st.bloom.map (Bloom.add · id)

/-- What the attempts to shorten do: they are exhausted and change neither the store nor the filter,
or they add a link. -/
theorem attempts_cases (url : Bytes) (ttl : ℤ) (resp : HttpResponse) (n : ℕ)
    (st : State (KVStore shards)) :
    let result := ShortenHandler.attempts (memoryStore shards) url ttl resp n st
    (result.1 = .returns ((resp.setStatusCode 500).setBody (bytes "exhausted id retries")) ∧
      result.2.store = st.store ∧ result.2.bloom = st.bloom) ∨
    ∃ id, result.1 = .returns (ShortenHandler.created id resp) ∧ Adds id url st result.2 := by
  induction n generalizing st with
  | zero => exact .inl ⟨rfl, rfl, rfl⟩
  | succ n ih =>
    have hid := isShortId_random st.dist
    unfold ShortenHandler.attempts
    simp only [setNX_eq]
    generalize (ShortId.random 7 st.dist).1 = id at hid
    cases hf : find st.store id with
    | none =>
      simp only [Option.isSome_none, Bool.false_eq_true, if_false]
      exact .inr ⟨id, rfl, hid, hf, rfl, rfl⟩
    | some v =>
      simp only [Option.isSome_some, if_true]
      refine Or.imp (fun h => h) (fun ⟨id', hans, hadds⟩ => ?_) (ih _)
      exact ⟨id', hans, hadds.shortId, hadds.free, hadds.store, hadds.bloom⟩

/-- What `ShortenHandler::handle` does. -/
theorem shorten_cases (req : HttpRequest) (resp : HttpResponse) (st : State (KVStore shards)) :
    let result := ShortenHandler.handle (memoryStore shards) req resp st
    ((result.1.response.statusCode = 400 ∨ result.1.response.statusCode = 500) ∧
      result.2.store = st.store ∧ result.2.bloom = st.bloom) ∨
    ∃ id url ttl, parseJson req.getBody = some (url, ttl) ∧
      result.1 = .returns (ShortenHandler.created id resp) ∧ Adds id url st result.2 := by
  unfold ShortenHandler.handle
  cases hp : parseJson req.getBody with
  | none => exact .inl ⟨.inl rfl, rfl, rfl⟩
  | some p =>
    obtain ⟨url, ttl⟩ := p
    by_cases hv : UrlValidator.valid url
    · simp only [hv, if_true]
      rcases attempts_cases url ttl resp 5 st with ⟨hans, hstore, hbloom⟩ | ⟨id, hans, hadds⟩
      · refine .inl ⟨.inr ?_, hstore, hbloom⟩
        rw [hans]
        rfl
      · exact .inr ⟨id, url, ttl, rfl, hans, hadds⟩
    · simp only [hv]
      exact .inl ⟨.inl rfl, rfl, rfl⟩

/-- A link is added for a URL that is valid. -/
theorem Adds.valid {req : HttpRequest} {resp : HttpResponse} {ttl : ℤ}
    (h : Adds id url st (ShortenHandler.handle (memoryStore shards) req resp st).2)
    (hp : parseJson req.getBody = some (url, ttl)) : UrlValidator.valid url := by
  by_contra hv
  have hstore : (ShortenHandler.handle (memoryStore shards) req resp st).2.store = st.store := by
    simp only [ShortenHandler.handle, hp, hv]
    rfl
  have hfound : find st.store id = some url := by
    rw [← hstore, h.store, find_set, if_pos rfl]
  rw [h.free] at hfound
  cases hfound

/-- `RedirectHandler::handle` changes neither the store nor the filter. -/
theorem redirect_state (req : HttpRequest) (resp : HttpResponse) (st : State (KVStore shards)) :
    (RedirectHandler.handle (memoryStore shards) req resp st).2.store = st.store ∧
      (RedirectHandler.handle (memoryStore shards) req resp st).2.bloom = st.bloom := by
  unfold RedirectHandler.handle
  dsimp only
  split_ifs
  · exact ⟨rfl, rfl⟩
  · exact ⟨rfl, rfl⟩
  · exact (RedirectHandler.lookup_state _ resp st).symm

theorem serve_of_isShorten {r : HttpRequest × HttpResponse} (h : IsShorten r.1)
    (st : State (KVStore shards)) :
    serve shards r st =
      ((true, (ShortenHandler.handle (memoryStore shards) r.1 r.2 st).1),
        (ShortenHandler.handle (memoryStore shards) r.1 r.2 st).2) := by
  rw [serve, route_shorten (memoryStore shards) r.2 st h]

/-- Requests on other routes, or on none, change neither the store nor the filter. -/
theorem serve_of_not_isShorten {r : HttpRequest × HttpResponse} (h : ¬ IsShorten r.1)
    (st : State (KVStore shards)) :
    (serve shards r st).2.store = st.store ∧ (serve shards r st).2.bloom = st.bloom := by
  simp only [serve, Router.route, handlers_of_not_shorten (memoryStore shards) h]
  split_ifs
  · exact ⟨rfl, rfl⟩
  · exact ⟨rfl, rfl⟩
  · dsimp only [routes]
    split
    · rename_i f groups hf
      obtain ⟨route, hmem, rfl⟩ := Router.exists_of_findRoute hf
      obtain rfl := List.mem_singleton.1 hmem
      exact redirect_state _ r.2 st
    · exact ⟨rfl, rfl⟩

/-- **What a request does**: nothing to the store and the filter, and then a shorten request is
answered 400 or 500; or it is a shorten request that adds the link it answers. -/
theorem serve_cases (r : HttpRequest × HttpResponse) (st : State (KVStore shards)) :
    ((serve shards r st).2.store = st.store ∧ (serve shards r st).2.bloom = st.bloom ∧
      (IsShorten r.1 → (serve shards r st).1.2.response.statusCode = 400 ∨
        (serve shards r st).1.2.response.statusCode = 500)) ∨
    (IsShorten r.1 ∧ ∃ id url ttl, parseJson r.1.getBody = some (url, ttl) ∧
      (serve shards r st).1 = (true, .returns (ShortenHandler.created id r.2)) ∧
      Adds id url st (serve shards r st).2) := by
  by_cases h : IsShorten r.1
  · rw [serve_of_isShorten h]
    rcases shorten_cases r.1 r.2 st with ⟨hstatus, hstore, hbloom⟩ | ⟨id, url, ttl, hp, hans, hadds⟩
    · exact .inl ⟨hstore, hbloom, fun _ => hstatus⟩
    · exact .inr ⟨h, id, url, ttl, hp, by rw [hans], hadds⟩
  · obtain ⟨hstore, hbloom⟩ := serve_of_not_isShorten h st
    exact .inl ⟨hstore, hbloom, fun hs => absurd hs h⟩

/-! ## Links over a run -/

/-- The store maps the identifier to the URL, and the filter lets it pass. -/
structure Link (id url : Bytes) (st : State (KVStore shards)) : Prop where
  found : find st.store id = some url
  passes : ∀ b, st.bloom = some b → b.mightContain id

theorem Adds.link (h : Adds id url st st') : Link id url st' where
  found := by rw [h.store, find_set, if_pos rfl]
  passes b hb := by
    rw [h.bloom, Option.map_eq_some_iff] at hb
    obtain ⟨b', -, rfl⟩ := hb
    exact Bloom.mightContain_add_self b' id

theorem Adds.found_of_found (h : Adds id url st st') (hf : find st.store id' = some url') :
    find st'.store id' = some url' := by
  have hne : id' ≠ id := by
    rintro rfl
    rw [h.free] at hf
    cases hf
  rwa [h.store, find_set, if_neg hne]

/-- A request keeps what the store maps to a URL. -/
theorem found_serve (hf : find st.store id = some url) (r : HttpRequest × HttpResponse) :
    find (serve shards r st).2.store id = some url := by
  rcases serve_cases r st with ⟨hstore, -, -⟩ | ⟨-, id', url', ttl, -, -, hadds⟩
  · rwa [hstore]
  · exact hadds.found_of_found hf

/-- A request keeps every link. -/
theorem Link.serve (h : Link id url st) (r : HttpRequest × HttpResponse) :
    Link id url (serve shards r st).2 where
  found := found_serve h.found r
  passes b hb := by
    rcases serve_cases r st with ⟨-, hbloom, -⟩ | ⟨-, id', url', ttl, -, -, hadds⟩
    · exact h.passes b (hbloom ▸ hb)
    · rw [hadds.bloom, Option.map_eq_some_iff] at hb
      obtain ⟨b', hb', rfl⟩ := hb
      exact Bloom.mightContain_add_of_mightContain (h.passes b' hb')

/-- A run keeps every link. -/
theorem Link.run (h : Link id url st) (rs : List (HttpRequest × HttpResponse)) :
    Link id url ((KamaHttp.serve shards).run rs st) := by
  induction rs generalizing st with
  | nil => exact h
  | cons r rs ih => exact ih (h.serve r)

/-- The request for an identifier reaches `RedirectHandler::handle`, with the identifier. -/
theorem serve_of_isRedirect (hid : IsShortId id) {r : HttpRequest × HttpResponse}
    (hr : IsRedirect id r.1) (st : State (KVStore shards)) :
    serve shards r st =
      ((true, (RedirectHandler.handle (memoryStore shards)
          (r.1.setPathParameters (bytes "param1") id) r.2 st).1),
        (RedirectHandler.handle (memoryStore shards)
          (r.1.setPathParameters (bytes "param1") id) r.2 st).2) := by
  obtain ⟨hmethod, hpath⟩ := hr
  have hshort : shortPath r.1.path = some [id] := by
    rw [hpath, shortPath_of_isShortId hid]
  rw [serve, route_redirect (memoryStore shards) r.2 st hmethod hshort,
    extractPathParameters_singleton]

/-- A link redirects. -/
theorem Link.redirects (h : Link id url st) (hid : IsShortId id) {r : HttpRequest × HttpResponse}
    (hr : IsRedirect id r.1) : AnswersUrl url (KamaHttp.serve shards r st).1 := by
  have hparam : (r.1.setPathParameters (bytes "param1") id).getPathParameters (bytes "param1") =
      id := by simp [HttpRequest.setPathParameters, HttpRequest.getPathParameters]
  have hne : id ≠ [] := fun hnil => by
    have hlen := hid.1
    rw [hnil] at hlen
    cases hlen
  have hget : (memoryStore shards).get id st.store = (.ok (some url), st.store) := by
    rw [← h.found]
    rfl
  rw [serve_of_isRedirect hid hr,
    RedirectHandler.handle_of_passed (by rwa [hparam]) (by rw [hparam]; exact h.passes), hparam,
    RedirectHandler.lookup, hget]
  refine ⟨rfl, rfl, rfl, ?_⟩
  have hother : bytes "Location" ≠ bytes "X-Cacheable" := by decide
  show HttpResponse.getHeader (RedirectHandler.moved url r.2) (bytes "Location") = url
  simp [RedirectHandler.moved, hother]

/-- The identifier can be read off the answer. -/
theorem id_of_answersId {resp : HttpResponse}
    (h : AnswersId id (true, .returns (ShortenHandler.created id' resp))) : id' = id := by
  obtain ⟨-, -, -, hbody⟩ := h
  have hbody' : bytes "\x7b\"id\":\"" ++ id' ++ bytes "\"\x7d" =
    bytes "\x7b\"id\":\"" ++ id ++ bytes "\"\x7d" := hbody
  exact List.append_cancel_left (List.append_cancel_right hbody')

/-- A shorten request that answers an identifier has added the link. -/
theorem adds_of_answersId {r : HttpRequest × HttpResponse} {ttl : ℤ} (hr : IsShorten r.1)
    (hp : parseJson r.1.getBody = some (url, ttl)) (h : AnswersId id (serve shards r st).1) :
    Adds id url st (serve shards r st).2 := by
  rcases serve_cases r st with ⟨-, -, hstatus⟩ | ⟨-, id', url', ttl', hp', hans, hadds⟩
  · obtain ⟨-, -, h200, -⟩ := h
    have hbad := hstatus hr
    rw [h200] at hbad
    omega
  · rw [hp] at hp'
    obtain ⟨rfl, -⟩ := Prod.mk.inj (Option.some.inj hp')
    rw [hans] at h
    obtain rfl := id_of_answersId h
    exact hadds

/-- Where a request changes what the store has, it is a shorten request that answers the identifier,
which was free. -/
theorem answersId_of_found_ne {r : HttpRequest × HttpResponse}
    (h : find (serve shards r st).2.store id ≠ find st.store id) :
    find st.store id = none ∧ IsShorten r.1 ∧ AnswersId id (serve shards r st).1 := by
  rcases serve_cases r st with ⟨hstore, -, -⟩ | ⟨hr, id', url, ttl, -, hans, hadds⟩
  · rw [hstore] at h
    exact absurd rfl h
  · have hid : id = id' := by
      by_contra hid
      rw [hadds.store, find_set, if_neg hid] at h
      exact h rfl
    subst hid
    refine ⟨hadds.free, hr, ?_⟩
    rw [hans]
    exact ⟨rfl, rfl, rfl, rfl⟩

/-- A request that is answered 400 or 500 changes neither the store nor the filter. -/
theorem serve_of_refused {r : HttpRequest × HttpResponse}
    (h : (serve shards r st).1.2.response.statusCode = 400 ∨
      (serve shards r st).1.2.response.statusCode = 500) :
    (serve shards r st).2.store = st.store ∧ (serve shards r st).2.bloom = st.bloom := by
  rcases serve_cases r st with ⟨hstore, hbloom, -⟩ | ⟨-, id, url, ttl, -, hans, -⟩
  · exact ⟨hstore, hbloom⟩
  · have hcode : (serve shards r st).1.2.response.statusCode = 200 := by
      rw [hans]
      rfl
    rw [hcode] at h
    omega

/-- **Shorten, then redirect.** Behind any requests, from any state: if a shorten request for a URL
is answered with an identifier, then whatever is requested next, `GET /s/` with the identifier is
answered with the URL. Only a shorten request changes what the store maps an identifier to, only
for the identifier it answers, and only if the store had none; a shorten request that is answered
400 or 500 changes neither the store nor the filter. -/
theorem shorten_then_redirect (shards : ℕ+) (start : State (KVStore shards))
    (before : List (HttpRequest × HttpResponse)) (r : HttpRequest × HttpResponse) :
    let st := (serve shards).run before start
    let st' := (serve shards r st).2
    let answer := (serve shards r st).1
    (∀ url ttl id later get, IsShorten r.1 → parseJson r.1.getBody = some (url, ttl) →
      AnswersId id answer → IsRedirect id get.1 →
        AnswersUrl url (serve shards get ((serve shards).run later st')).1) ∧
    (∀ id, find st'.store id ≠ find st.store id →
      find st.store id = none ∧ IsShorten r.1 ∧ AnswersId id answer) ∧
    (IsShorten r.1 → answer.2.response.statusCode = 400 ∨ answer.2.response.statusCode = 500 →
      st'.store = st.store ∧ st'.bloom = st.bloom) := by
  intro st st' answer
  refine ⟨fun url ttl id later get hr hp hans hget => ?_, fun id hne => answersId_of_found_ne hne,
    fun _ hbad => serve_of_refused hbad⟩
  have hadds : Adds id url st st' := adds_of_answersId hr hp hans
  have hlink : Link id url ((serve shards).run later st') := hadds.link.run later
  exact hlink.redirects hadds.shortId hget

example :
    let post : HttpRequest :=
      { HttpRequest.new with
        method := .kPost
        path := bytes "/api/shorten"
        content := bytes "\x7b\"url\":\"http://a\"\x7d" }
    let get : HttpRequest :=
      { HttpRequest.new with
        method := .kGet
        path := bytes "/s/0000000" }
    let start : State (KVStore 8) := ⟨.new 8, some (.new 64 (by decide)), none, fun _ => 0⟩
    ((serve 8).answers [(post, .new false), (get, .new false)] start).map (fun a =>
      (a.2.response.statusCode, a.2.response.getHeader (bytes "Location"))) =
        [(200, []), (301, bytes "http://a")] := by
  decide +kernel

end KamaHttp
