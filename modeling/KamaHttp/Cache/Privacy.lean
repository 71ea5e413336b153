import KamaHttp.Cache.KeySeparation

/-!
# Private traffic and the cache

With `respectAuthorization` and `respectNoStore`, requests with an `Authorization` header and
responses with the directive `no-store` are meant to pass the cache by. The parser keeps the names
of headers as they were sent, and the two guards of the cache each look for one spelling: a header
named exactly `authorization`, and the text `no-store` in the header named exactly `Cache-Control`.

* `private_not_cached`: where private requests and responses are spelled as the guards expect them,
  none is answered from the store and none gets into it.
-/

namespace KamaHttp

open CacheMiddleware HttpContext HttpRequest

/-- The request carries an `Authorization` header, however its name is cased. -/
def CarriesAuthorization (w : Received) : Prop :=
  sentValues (bytes "Authorization") w.message.fields ≠ []

/-- The elements of a comma-separated list, in lower case. -/
def directives (v : Bytes) : List Bytes := (v.splitOn 44).map fun d => (trim d).map toLower

/-- The response has the directive `no-store`, however it is cased. -/
def NoStore (resp : HttpResponse) : Prop :=
  ∃ h ∈ resp.headersVector, h.1.map toLower = bytes "cache-control" ∧
    bytes "no-store" ∈ directives h.2

instance (w : Received) : Decidable (CarriesAuthorization w) := inferInstanceAs (Decidable (_ ≠ _))

instance (resp : HttpResponse) : Decidable (NoStore resp) :=
  inferInstanceAs (Decidable (∃ h ∈ resp.headersVector, _ ∧ _))

/-- A GET that carries authorization has a header named exactly `authorization`, not empty. -/
def ShowsAuthorization (w : Received) : Prop :=
  CarriesAuthorization w → w.message.line.method = bytes "GET" →
    (lastValue (bytes "authorization") w.message.fields).getD [] ≠ []

/-- A response to store that has the directive has the text `no-store` under exactly
`Cache-Control`. -/
def ShowsNoStore (resp : HttpResponse) : Prop :=
  NoStore resp → resp.statusCode = 200 ∨ resp.statusCode = 301 ∨ resp.statusCode = 404 →
    hasNoStore resp

/-- What is private about the call is spelled as the guards of the cache expect it. -/
def CacheCall.Shows : CacheCall Received → Prop
  | .before w _ _ => ShowsAuthorization w
  | .after w resp _ =>
    ShowsAuthorization w ∧ (w.message.line.method = bytes "GET" → ShowsNoStore resp)
  | .purgePrefix _ => True

variable {p : CachePolicy} {w : Received} {resp : HttpResponse}

/-- The guard on requests stops those that show their authorization. -/
theorem not_carries_of_cacheable (hp : p.respectAuthorization) (hw : ShowsAuthorization w)
    (h : isCacheableRequest w.request p) : ¬ CarriesAuthorization w := by
  intro hc
  have hshown := hw hc (line_method_of_cacheable h)
  rw [← w.getHeader_request] at hshown
  rw [isCacheableRequest, if_pos ⟨hp, hshown⟩] at h
  cases h

/-- The guard on responses stops those that show the directive. -/
theorem not_noStore_of_cacheable (hp : p.respectNoStore) (hr : ShowsNoStore resp)
    (h : isCacheableResponse resp p) : ¬ NoStore resp := by
  intro hn
  have hshown := hr hn (statusCode_of_cacheable h)
  rw [isCacheableResponse, if_pos ⟨hp, hshown⟩] at h
  cases h

/-- **Private traffic passes the cache by**, where it is spelled as the guards expect it: no request
with an `Authorization` header is answered from the store, and what the store holds comes neither
from such a request nor from a response with the directive `no-store`. -/
theorem private_not_cached {s : CacheRun Received} (hauth : p.respectAuthorization)
    (hstore : p.respectNoStore)
    (h : Reaches (cacheSystem Received.request p) (fun _ e => e.Shows) s) :
    (∀ w out now, (CacheCall.before w out now).Shows → CarriesAuthorization w →
      (s.cache.before w.request out now).1 = false) ∧
    ∀ k e, s.cache.store.content k = some e → ∃ w resp now,
      LastStored Received.request p s.cache.store.capBytes s.history k w resp now ∧
        e = pack resp now p ∧ ¬ CarriesAuthorization w ∧ ¬ NoStore resp := by
  constructor
  · intro w out now hw hc
    rw [← Bool.not_eq_true]
    intro hb
    exact not_carries_of_cacheable hauth hw (before_sound h hb).1 hc
  · intro k e he
    obtain ⟨w, resp, now, hlast, rfl⟩ := (coherent_of_reaches h).content k e he
    obtain ⟨hw, hresp⟩ : (CacheCall.after w resp now).Shows := history_of_reaches h _ hlast.mem
    obtain ⟨hst, -⟩ := hlast.storesUnder
    exact ⟨w, resp, now, hlast, rfl, not_carries_of_cacheable hauth hw hst.1,
      not_noStore_of_cacheable hstore (hresp (line_method_of_cacheable hst.1)) hst.2.1⟩

/-- A GET whose only header is `name: secret`. -/
def secretPage (name : Bytes) (h : 58 ∉ name)
    (hl : findCRLF (name ++ 58 :: bytes " secret") = none) : Received :=
  getTarget (bytes "/secret") [⟨name, bytes " secret", h, hl⟩] (by decide) (by decide)

/-- The same target, asked for with the header as the guard expects it. -/
def lowerCasePage : Received := secretPage (bytes "authorization") (by decide) (by decide)

/-- The same target, asked for without authorization. -/
def publicPage : Received := getTarget (bytes "/secret") [] (by decide) (by decide)

def noStoreResponse : HttpResponse :=
  pageResponse.addHeader (bytes "Cache-Control") (bytes "private, no-store")

/-- Under one key: a public page is stored, a private request is asked and answered by a handler,
and a response that is not to be stored is passed. -/
def mixedRun : CacheRun Received :=
  callRun Received.request {} 4096
    [.after publicPage pageResponse 0, .before lowerCasePage (HttpResponse.new false) 1,
      .after lowerCasePage (pageResponse.setBody (bytes "private")) 2,
      .after publicPage noStoreResponse 3]

theorem shows_lowerCasePage : ShowsAuthorization lowerCasePage := fun _ _ => by decide

theorem shows_publicPage : ShowsAuthorization publicPage := fun h => absurd h (by decide)

theorem reaches_mixedRun :
    Reaches (cacheSystem Received.request {}) (fun _ e => e.Shows) mixedRun := by
  refine reaches_callRun fun e he s => ?_
  simp only [List.mem_cons, List.not_mem_nil, or_false] at he
  rcases he with rfl | rfl | rfl | rfl
  · exact ⟨shows_publicPage, fun _ h => absurd h (by decide)⟩
  · exact shows_lowerCasePage
  · exact ⟨shows_lowerCasePage, fun _ h => absurd h (by decide)⟩
  · exact ⟨shows_publicPage, fun _ _ _ => by decide⟩

theorem private_not_cached_mixedRun :
    CarriesAuthorization lowerCasePage ∧ NoStore noStoreResponse ∧
      mixedRun.cache.store.content (makeKey lowerCasePage.request {}) =
        some (pack pageResponse 0 {}) ∧
      (mixedRun.cache.before lowerCasePage.request (HttpResponse.new false) 4).1 = false ∧
      ∀ k e, mixedRun.cache.store.content k = some e → ∃ w resp now,
        LastStored Received.request {} mixedRun.cache.store.capBytes mixedRun.history k w resp now ∧
          e = pack resp now {} ∧ ¬ CarriesAuthorization w ∧ ¬ NoStore resp := by
  obtain ⟨hbefore, hcontent⟩ := private_not_cached rfl rfl reaches_mixedRun
  have hcarries : CarriesAuthorization lowerCasePage := by decide
  exact ⟨hcarries, by decide, by decide +kernel, hbefore _ _ _ shows_lowerCasePage hcarries,
    hcontent⟩

/-- The page of a client that sends `Authorization: secret` is stored, and served from the store. -/
theorem authorization_cached :
    ∃ w : Received, CarriesAuthorization w ∧
      Reaches (cacheSystem Received.request {}) Always (pageRun w) ∧
      (pageRun w).cache.store.content (makeKey w.request {}) = some (pack pageResponse 0 {}) ∧
      ((pageRun w).cache.before w.request (HttpResponse.new false) 1).1 = true :=
  ⟨secretPage (bytes "Authorization") (by decide) (by decide), by decide, reaches_pageRun _,
    by decide +kernel, by decide +kernel⟩

end KamaHttp
