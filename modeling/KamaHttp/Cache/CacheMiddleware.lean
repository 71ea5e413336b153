import KamaHttp.Cache.MemoryCacheLRU
import KamaHttp.Http.HttpRequest
import KamaHttp.Http.HttpResponse

/-!
# The response cache

The cache in front of the handlers (`CacheMiddleware.cpp`): `before` answers a request from the
store, `after` stores the response to one. Both read the clock, in nanoseconds; durations of the
policy are in seconds.

* `setFromEntry_pack`: a response that was packed is unpacked as it was.
* `sameResponse_pack_iff`: when packing loses nothing.
* `before_eq_true`, `before_policy_content`, `after_policy_content`: what the hooks do, in terms of
  what the store holds.
-/

namespace KamaHttp

open Search

structure CachePolicy where
  cacheGET : Bool := true
  cacheHEAD : Bool := true
  cache200 : Bool := true
  cache301 : Bool := true
  cache404 : Bool := true
  memoryCapacityBytes : ℕ := 64 * 1024 * 1024
  maxObjectBytes : ℕ := 1024 * 1024
  ttl : ℤ := 300
  staleWhileRevalidate : ℤ := 60
  varyAcceptEncoding : Bool := true
  respectNoStore : Bool := true
  respectAuthorization : Bool := true

structure CacheMiddleware where
  policy : CachePolicy
  store : CacheStore

namespace CacheMiddleware

def getMethod (req : HttpRequest) : Bytes :=
  match req.method with
  | .kGet => bytes "GET"
  | .kHead => bytes "HEAD"
  | .kPost => bytes "POST"
  | .kPut => bytes "PUT"
  | .kDelete => bytes "DELETE"
  | .kOptions => bytes "OPTIONS"
  | .kInvalid => bytes "UNKNOWN"

/-- `getPathWithQuery` returns the path, and the parser keeps the query string apart from it. -/
def getPathWithQuery (req : HttpRequest) : Bytes := req.path

def hasNoStore (resp : HttpResponse) : Bool :=
  (breakOn (bytes "no-store") (resp.getHeader (bytes "Cache-Control"))).isSome

/-- Version, code and reason of a status line; what is missing has a default. -/
def parseStatusLine (statusLine : Bytes) : Bytes × ℤ × Bytes :=
  match breakOn [32] statusLine with
  | none => (bytes "HTTP/1.1", 200, bytes "OK")
  | some (ver, rest) =>
    match breakOn [32] rest with
    | none => (ver, 200, bytes "OK")
    | some (code, reason) => (ver, atoi (cStr code), reason)

def setFromEntry (e : CachedEntry) (out : HttpResponse) : HttpResponse :=
  let (ver, code, reason) := parseStatusLine e.statusLine
  let out := (out.setStatusLine ver code reason).clearHeaders
  let out := e.headers.foldl (fun out h => out.addHeader h.1 h.2) out
  out.setBody e.body

def isCacheableRequest (req : HttpRequest) (p : CachePolicy) : Bool :=
  if p.respectAuthorization ∧ req.getHeader (bytes "authorization") ≠ [] then false
  else if getMethod req = bytes "GET" then p.cacheGET
  else if getMethod req = bytes "HEAD" then p.cacheHEAD
  else false

def isCacheableResponse (resp : HttpResponse) (p : CachePolicy) : Bool :=
  if p.respectNoStore ∧ hasNoStore resp then false
  else
    (resp.statusCode = 200 && p.cache200) || (resp.statusCode = 301 && p.cache301) ||
      (resp.statusCode = 404 && p.cache404)

def makeKey (req : HttpRequest) (p : CachePolicy) : CacheKey where
  method := getMethod req
  pathAndQuery := getPathWithQuery req
  acceptEncoding := if p.varyAcceptEncoding then req.getHeader (bytes "accept-encoding") else []

def pack (resp : HttpResponse) (now : ℤ) (p : CachePolicy) : CachedEntry where
  statusLine := resp.statusLine
  headers := resp.headersVector
  body := resp.body
  hardExpire := now + seconds p.ttl
  softExpire := now + seconds p.ttl + seconds p.staleWhileRevalidate

/-- The header `before` adds to a response that is stale. -/
def warn (resp : HttpResponse) : HttpResponse :=
  resp.addHeader (bytes "Warning") (bytes "110 - Response is Stale")

/-- `before`: whether the request is answered, the response, and the cache. -/
def before (m : CacheMiddleware) (req : HttpRequest) (resp : HttpResponse) (now : ℤ) :
    Bool × HttpResponse × CacheMiddleware :=
  if isCacheableRequest req m.policy then
    match m.store.get (makeKey req m.policy) with
    | (none, store) => (false, resp, { m with store := store })
    | (some hit, store) =>
      if now < hit.hardExpire then (true, setFromEntry hit resp, { m with store := store })
      else if now < hit.softExpire then
        (true, warn (setFromEntry hit resp), { m with store := store })
      else (false, resp, { m with store := store })
  else (false, resp, m)

def after (m : CacheMiddleware) (req : HttpRequest) (resp : HttpResponse) (now : ℤ) :
    CacheMiddleware :=
  if isCacheableRequest req m.policy then
    if isCacheableResponse resp m.policy then
      if m.policy.maxObjectBytes < (pack resp now m.policy).bytes then m
      else { m with store := m.store.set (makeKey req m.policy) (pack resp now m.policy) }
    else m
  else m

/-- `after` writes an entry to the store. -/
def stores (m : CacheMiddleware) (req : HttpRequest) (resp : HttpResponse) (now : ℤ) : Bool :=
  isCacheableRequest req m.policy && isCacheableResponse resp m.policy &&
    !decide (m.policy.maxObjectBytes < (pack resp now m.policy).bytes)

theorem after_eq (m : CacheMiddleware) (req : HttpRequest) (resp : HttpResponse) (now : ℤ) :
    m.after req resp now =
      if m.stores req resp now then
        { m with store := m.store.set (makeKey req m.policy) (pack resp now m.policy) }
      else m := by
  unfold after stores
  split_ifs <;> simp_all

def purgePrefix (m : CacheMiddleware) (pathPrefix : Bytes) : CacheMiddleware :=
  { m with store := m.store.purgePrefix pathPrefix }

/-- Only requests for GET and HEAD are cached. -/
theorem method_of_cacheable {req : HttpRequest} {p : CachePolicy} (h : isCacheableRequest req p) :
    req.method = .kGet ∨ req.method = .kHead := by
  unfold isCacheableRequest at h
  split at h
  · cases h
  · by_contra hm
    have hget : getMethod req ≠ bytes "GET" ∧ getMethod req ≠ bytes "HEAD" := by
      unfold getMethod
      split <;> first | decide | simp_all
    simp [hget] at h

/-! ## Packing -/

/-- The versions that survive the status line of an entry. -/
structure VersionOk (resp : HttpResponse) : Prop where
  no_space : 32 ∉ resp.httpVersion
  no_null : 0 ∉ resp.httpVersion
  fits : resp.statusText.length < 64

theorem statusCode_of_cacheable {resp : HttpResponse} {p : CachePolicy}
    (h : isCacheableResponse resp p) :
    resp.statusCode = 200 ∨ resp.statusCode = 301 ∨ resp.statusCode = 404 := by
  unfold isCacheableResponse at h
  split at h
  · cases h
  · simp only [Bool.or_eq_true, Bool.and_eq_true, decide_eq_true_eq] at h
    omega

/-- **A status line is read back as it was written**, with the version as a C string. -/
theorem parseStatusLine_statusLine {resp : HttpResponse} (hspace : 32 ∉ resp.httpVersion)
    (hfits : resp.statusText.length < 64) :
    parseStatusLine resp.statusLine =
      (cStr resp.httpVersion, resp.statusCode, resp.statusMessage) := by
  have hline : resp.statusLine =
      cStr resp.httpVersion ++ 32 :: (decimal resp.statusCode ++ 32 :: resp.statusMessage) := by
    rw [HttpResponse.statusLine, snprintf_of_fits hfits, HttpResponse.statusText]
    simp
  have hversion : 32 ∉ cStr resp.httpVersion := fun h => hspace (mem_of_mem_cStr h)
  have hnumeral : 32 ∉ decimal resp.statusCode := not_mem_decimal (by decide) _
  have hcode : atoi (cStr (decimal resp.statusCode)) = resp.statusCode := by
    rw [cStr_of_no_null (not_mem_decimal (by decide) _), atoi, strtol_decimal, Option.getD_some]
  rw [parseStatusLine, hline, breakOn_singleton hversion]
  simp only [breakOn_singleton hnumeral, hcode]

theorem foldl_addHeader (hs : List (Bytes × Bytes)) (out : HttpResponse) :
    hs.foldl (fun out h => out.addHeader h.1 h.2) out =
      { out with headers := out.headers.insertMany hs } := by
  induction hs generalizing out with
  | nil => simp
  | cons h hs ih =>
    rw [List.foldl_cons, ih, Std.ExtTreeMap.insertMany_cons]
    rfl

/-- A response that was packed is unpacked with its version as a C string. -/
theorem setFromEntry_pack_eq {resp : HttpResponse} (hspace : 32 ∉ resp.httpVersion)
    (hfits : resp.statusText.length < 64) (now : ℤ) (p : CachePolicy) (out : HttpResponse) :
    setFromEntry (pack resp now p) out =
      { resp with
        httpVersion := cStr resp.httpVersion
        closeConnection := out.closeConnection } := by
  have hp : parseStatusLine (pack resp now p).statusLine = _ :=
    parseStatusLine_statusLine hspace hfits
  have hh : (∅ : StringMap).insertMany resp.headersVector = resp.headers := by
    rw [HttpResponse.headersVector]
    exact insertMany_toList resp.headers
  simp only [setFromEntry, hp, foldl_addHeader]
  rw [← hh]
  rfl

/-- **A response that was packed is unpacked as it was.** -/
theorem setFromEntry_pack {resp : HttpResponse} (hv : VersionOk resp) (now : ℤ) (p : CachePolicy)
    (out : HttpResponse) :
    setFromEntry (pack resp now p) out =
      { resp with closeConnection := out.closeConnection } := by
  rw [setFromEntry_pack_eq hv.no_space hv.fits, cStr_of_no_null hv.no_null]

/-- Two responses agree, except in whether the connection is closed. -/
structure SameResponse (r r' : HttpResponse) : Prop where
  httpVersion : r.httpVersion = r'.httpVersion
  statusCode : r.statusCode = r'.statusCode
  statusMessage : r.statusMessage = r'.statusMessage
  headers : r.headers = r'.headers
  body : r.body = r'.body

/-- **When packing loses nothing.** Whatever the status code, the reason, the headers, the body and
the response that is filled: if the version has no space and fits, exactly if it has no null byte
either. -/
theorem sameResponse_pack_iff {resp : HttpResponse} (hspace : 32 ∉ resp.httpVersion)
    (hfits : resp.statusText.length < 64) (now : ℤ) (p : CachePolicy) (out : HttpResponse) :
    SameResponse (setFromEntry (pack resp now p) out) resp ↔ 0 ∉ resp.httpVersion := by
  rw [setFromEntry_pack_eq hspace hfits, ← cStr_eq_self_iff]
  exact ⟨fun h => h.httpVersion, fun h => ⟨h, rfl, rfl, rfl, rfl⟩⟩

/-- A response without a version and with a reason of two words. -/
def unsentResponse : HttpResponse :=
  { HttpResponse.new false with
    statusCode := -7
    statusMessage := bytes "Not Found"
    headers := (∅ : StringMap).insert (bytes "Location") (bytes "/")
    body := bytes "page" }

theorem sameResponse_pack_unsent :
    32 ∉ unsentResponse.httpVersion ∧ unsentResponse.statusText.length < 64 ∧
      (SameResponse (setFromEntry (pack unsentResponse 0 {}) (HttpResponse.new true))
        unsentResponse ↔ 0 ∉ unsentResponse.httpVersion) :=
  ⟨by decide, by decide, sameResponse_pack_iff (by decide) (by decide) 0 {} _⟩

/-- A version is cut at its null byte. -/
theorem not_sameResponse_pack_null :
    let resp := unsentResponse.setVersion [97, 0, 98]
    32 ∉ resp.httpVersion ∧ resp.statusText.length < 64 ∧
      ¬ SameResponse (setFromEntry (pack resp 0 {}) (HttpResponse.new true)) resp := by
  refine ⟨by decide, by decide, fun h => ?_⟩
  exact absurd h.httpVersion (by decide)

/-! ## The hooks, in terms of what the store holds -/

variable {m : CacheMiddleware} {req : HttpRequest} {resp : HttpResponse} {now : ℤ} {k : CacheKey}
  {e : CachedEntry}

/-- `after` stores the response. -/
def Stores (p : CachePolicy) (capBytes : ℕ) (req : HttpRequest) (resp : HttpResponse) (now : ℤ) :
    Prop :=
  isCacheableRequest req p ∧ isCacheableResponse resp p ∧
    (pack resp now p).bytes ≤ p.maxObjectBytes ∧ (pack resp now p).bytes ≤ capBytes

/-- What `before` answers, and from which entry. -/
theorem before_eq_true (h : (m.before req resp now).1 = true) :
    isCacheableRequest req m.policy ∧
      ∃ hit, m.store.content (makeKey req m.policy) = some hit ∧
        ((now < hit.hardExpire ∧ (m.before req resp now).2.1 = setFromEntry hit resp) ∨
          (hit.hardExpire ≤ now ∧ now < hit.softExpire ∧
            (m.before req resp now).2.1 = warn (setFromEntry hit resp))) := by
  unfold before at h ⊢
  by_cases hreq : isCacheableRequest req m.policy
  · simp only [hreq, if_true] at h ⊢
    rcases hget : m.store.get (makeKey req m.policy) with ⟨_ | hit, store⟩
    · simp [hget] at h
    · have hc : m.store.content (makeKey req m.policy) = some hit := by
        rw [← CacheStore.get_fst, hget]
      refine ⟨trivial, hit, hc, ?_⟩
      by_cases hhard : now < hit.hardExpire
      · exact .inl ⟨hhard, by simp [hhard]⟩
      · by_cases hsoft : now < hit.softExpire
        · exact .inr ⟨Int.not_lt.1 hhard, hsoft, by simp [hhard, hsoft]⟩
        · simp [hget, hhard, hsoft] at h
  · simp [hreq] at h

/-- `before` changes nothing that the store holds. -/
theorem before_policy_content (m : CacheMiddleware) (req : HttpRequest) (resp : HttpResponse)
    (now : ℤ) :
    (m.before req resp now).2.2.policy = m.policy ∧
      (m.before req resp now).2.2.store.capBytes = m.store.capBytes ∧
      ∀ k, (m.before req resp now).2.2.store.content k = m.store.content k := by
  unfold before
  by_cases hreq : isCacheableRequest req m.policy
  · have hcap := CacheStore.capBytes_get m.store (makeKey req m.policy)
    have hcontent := CacheStore.content_get m.store (makeKey req m.policy)
    simp only [hreq, if_true]
    rcases hget : m.store.get (makeKey req m.policy) with ⟨_ | hit, store⟩
    · rw [hget] at hcap hcontent
      exact ⟨rfl, hcap, hcontent⟩
    · rw [hget] at hcap hcontent
      simp only
      split_ifs <;> exact ⟨rfl, hcap, hcontent⟩
  · simp [hreq]

/-- What `after` leaves in the store. -/
theorem after_policy_content (m : CacheMiddleware) (req : HttpRequest) (resp : HttpResponse)
    (now : ℤ) :
    (m.after req resp now).policy = m.policy ∧
      (m.after req resp now).store.capBytes = m.store.capBytes ∧
      ∀ k e, (m.after req resp now).store.content k = some e →
        (Stores m.policy m.store.capBytes req resp now ∧ k = makeKey req m.policy ∧
            e = pack resp now m.policy) ∨
          (¬ (Stores m.policy m.store.capBytes req resp now ∧ k = makeKey req m.policy) ∧
            m.store.content k = some e) := by
  unfold after
  by_cases hreq : isCacheableRequest req m.policy
  · by_cases hresp : isCacheableResponse resp m.policy
    · by_cases hsize : m.policy.maxObjectBytes < (pack resp now m.policy).bytes
      · simp only [hreq, hresp, hsize, if_true]
        refine ⟨trivial, trivial, fun k e he => .inr ⟨fun hs => ?_, he⟩⟩
        exact absurd hs.1.2.2.1 (Nat.not_le.2 hsize)
      · simp only [hreq, hresp, hsize, if_true, if_false]
        refine ⟨trivial, CacheStore.capBytes_set _ _ _, fun k e he => ?_⟩
        by_cases hcap : (pack resp now m.policy).bytes ≤ m.store.capBytes
        · rcases CacheStore.content_set_of_fits hcap he with ⟨hk, he⟩ | ⟨hk, he⟩
          · exact .inl ⟨⟨hreq, hresp, Nat.not_lt.1 hsize, hcap⟩, hk, he⟩
          · exact .inr ⟨fun hs => hk hs.2, he⟩
        · rw [CacheStore.set_of_too_big (Nat.not_le.1 hcap)] at he
          exact .inr ⟨fun hs => hcap hs.1.2.2.2, he⟩
    · simp only [hreq, hresp, if_true]
      exact ⟨rfl, rfl, fun k e he => .inr ⟨fun hs => hresp hs.1.2.1, he⟩⟩
  · simp only [hreq]
    exact ⟨rfl, rfl, fun k e he => .inr ⟨fun hs => hreq hs.1.1, he⟩⟩

end CacheMiddleware

end KamaHttp
