import KamaHttp.Cache.Runs
import KamaHttp.Http.Isolation

/-!
# What the cache key tells apart

The key of a request has its method, its path without the query string, and the header with the
exact name `accept-encoding`. Requests as clients send them may agree in these and still differ
(`LookAlike`): in the query string, or in an `Accept-Encoding` spelled otherwise.

* `lookAlike_of_makeKey_eq`: requests with one key look alike.
* `served_agrees`: a request is served what was stored for one that agrees with it, if no request
  of the run that looks like it differs from it.
-/

namespace KamaHttp

open CacheMiddleware HttpContext HttpRequest

/-- The requests agree in method, path, query string and, if the policy varies on it, in the values
of `Accept-Encoding` as they were sent. -/
structure Agree (p : CachePolicy) (w w' : Received) : Prop where
  method : w.message.line.method = w'.message.line.method
  path : w.message.line.path = w'.message.line.path
  query : w.message.line.query = w'.message.line.query
  acceptEncoding : p.varyAcceptEncoding → sentValues (bytes "Accept-Encoding") w.message.fields =
    sentValues (bytes "Accept-Encoding") w'.message.fields

/-- The requests agree in method and path and, if the policy varies on it, in the header with the
exact name `accept-encoding`. -/
structure LookAlike (p : CachePolicy) (w w' : Received) : Prop where
  method : w.message.line.method = w'.message.line.method
  path : w.message.line.path = w'.message.line.path
  acceptEncoding : p.varyAcceptEncoding →
    (lastValue (bytes "accept-encoding") w.message.fields).getD [] =
      (lastValue (bytes "accept-encoding") w'.message.fields).getD []

variable {p : CachePolicy} {w w' : Received}

/-- Of the two methods whose requests are cached, the parser accepts GET only. -/
theorem line_method_of_cacheable (h : isCacheableRequest w.request p) :
    w.message.line.method = bytes "GET" := by
  have hm := method_of_cacheable h
  rw [w.method_request, methodOf] at hm
  split_ifs at hm with hget
  · exact hget
  all_goals simp at hm

/-- Requests with one key look alike. -/
theorem lookAlike_of_makeKey_eq (h : isCacheableRequest w.request p)
    (h' : isCacheableRequest w'.request p) (hk : makeKey w.request p = makeKey w'.request p) :
    LookAlike p w w' where
  method := (line_method_of_cacheable h).trans (line_method_of_cacheable h').symm
  path := by
    have hpath : w.request.path = w'.request.path := congrArg CacheKey.pathAndQuery hk
    rwa [w.path_request, w'.path_request] at hpath
  acceptEncoding hv := by
    have henc := congrArg CacheKey.acceptEncoding hk
    simp only [makeKey, hv, if_true, Received.getHeader_request] at henc
    exact henc

/-- **Key separation.** In every state that a run of the cache on received requests reaches, when
`before` answers a request and every request of the run that looks like it agrees with it, the
answer is what was stored for a request that agrees with it. -/
theorem served_agrees {s : CacheRun Received}
    (h : Reaches (cacheSystem Received.request p) Always s) {out : HttpResponse} {now : ℤ}
    (hcond : ∀ w' resp now', .after w' resp now' ∈ s.history → LookAlike p w w' → Agree p w w')
    (hb : (s.cache.before w.request out now).1 = true) :
    ∃ w' resp now', LastStored Received.request p s.cache.store.capBytes s.history
        (makeKey w.request p) w' resp now' ∧
      Agree p w w' ∧
      ((s.cache.before w.request out now).2.1 = setFromEntry (pack resp now' p) out ∨
        (s.cache.before w.request out now).2.1 = warn (setFromEntry (pack resp now' p) out)) := by
  obtain ⟨hreq, w', resp, now', hlast, hans⟩ := before_sound h hb
  obtain ⟨hst, hk⟩ := hlast.storesUnder
  have hagree := hcond w' resp now' hlast.mem (lookAlike_of_makeKey_eq hreq hst.1 hk)
  exact ⟨w', resp, now', hlast, hagree, hans.imp And.right fun h => h.2.2⟩

/-- A GET of the target. -/
def getTarget (target : Bytes) (fs : List Field) (h : 32 ∉ target)
    (hl : findCRLF (bytes "GET" ++ 32 :: (target ++ 32 :: bytes "HTTP/1.1")) = none) :
    Received := ⟨.get target fs h hl, [], 0, 0⟩

def firstPage : Received := getTarget (bytes "/a?page=1") [] (by decide) (by decide)

def secondPage : Received := getTarget (bytes "/a?page=2") [] (by decide) (by decide)

def gzipPage : Received :=
  getTarget (bytes "/a?page=1") [⟨bytes "Accept-Encoding", bytes " gzip", by decide, by decide⟩]
    (by decide) (by decide)

/-- The response `200 OK` with a body. -/
def pageResponse : HttpResponse :=
  { HttpResponse.new false with
    httpVersion := bytes "HTTP/1.1", statusCode := 200, statusMessage := bytes "OK"
    body := bytes "page" }

/-- The page of another path. -/
def otherPage : Received := getTarget (bytes "/b?page=2") [] (by decide) (by decide)

/-- The run that stores the response to a request. -/
def pageRun (w : Received) : CacheRun Received :=
  callRun Received.request {} 4096 [.after w pageResponse 0]

theorem reaches_pageRun (w : Received) :
    Reaches (cacheSystem Received.request {}) Always (pageRun w) :=
  reaches_callRun fun _ _ _ => trivial

/-- The run that stores the pages of two paths. -/
def twoPages : CacheRun Received :=
  callRun Received.request {} 4096
    [.after firstPage pageResponse 0, .after otherPage (pageResponse.setBody (bytes "other")) 1]

theorem eq_of_mem_twoPages {w : Received} {resp : HttpResponse} {now : ℤ}
    (h : .after w resp now ∈ twoPages.history) : w = otherPage ∨ w = firstPage := by
  rcases List.mem_cons.1 h with h | h
  · exact .inl (CacheCall.after.inj h).1
  · exact .inr (CacheCall.after.inj (List.mem_singleton.1 h)).1

theorem served_agrees_twoPages :
    ∃ w' resp now', LastStored Received.request {} twoPages.cache.store.capBytes
        twoPages.history (makeKey firstPage.request {}) w' resp now' ∧
      Agree {} firstPage w' ∧
      ((twoPages.cache.before firstPage.request (HttpResponse.new false) 2).2.1 =
          setFromEntry (pack resp now' {}) (HttpResponse.new false) ∨
        (twoPages.cache.before firstPage.request (HttpResponse.new false) 2).2.1 =
          warn (setFromEntry (pack resp now' {}) (HttpResponse.new false))) :=
  served_agrees (reaches_callRun fun _ _ _ => trivial)
    (fun w' resp now' hmem hlook => by
      rcases eq_of_mem_twoPages hmem with rfl | rfl
      · exact absurd hlook.path (by decide)
      · exact ⟨rfl, rfl, rfl, fun _ => rfl⟩)
    (by decide +kernel)

/-- What was stored for one query string is served for another, and what was stored for a client
that accepts gzip is served for one that does not. -/
theorem served_across_queries_and_encodings :
    (Reaches (cacheSystem Received.request {}) Always (pageRun firstPage) ∧
      ((pageRun firstPage).cache.before secondPage.request (HttpResponse.new false) 1).1 = true ∧
      firstPage.message.line.query ≠ secondPage.message.line.query) ∧
      Reaches (cacheSystem Received.request {}) Always (pageRun gzipPage) ∧
      ((pageRun gzipPage).cache.before firstPage.request (HttpResponse.new false) 1).1 = true ∧
      sentValues (bytes "Accept-Encoding") gzipPage.message.fields ≠
        sentValues (bytes "Accept-Encoding") firstPage.message.fields :=
  ⟨⟨reaches_pageRun firstPage, by decide +kernel, by decide⟩, reaches_pageRun gzipPage,
    by decide +kernel, by decide⟩

end KamaHttp
