import KamaHttp.Cache.Runs

/-!
# Soundness and freshness of the response cache

What `before` answers is what was stored last, unpacked: status line, headers and body are those of
the response that `after` was given, and a response that is stale says so.

* `before_fresh`: the answer of `before`, in every state of every run.
-/

namespace KamaHttp

open CacheMiddleware

/-- The responses of the call have versions that survive packing. -/
def CacheCall.VersionOk {ρ : Type*} : CacheCall ρ → Prop
  | .after _ resp _ => CacheMiddleware.VersionOk resp
  | _ => True

variable {ρ : Type*} {request : ρ → HttpRequest} {p : CachePolicy} {s : CacheRun ρ}

theorem seconds_le_max (n : ℤ) : seconds n ≤ seconds (max n 0) := by
  unfold seconds
  omega

/-- **Soundness and freshness of the cache.** In every run whose responses have versions that
survive packing, what `before` answers is the response that `after` stored last under the key, not
purged since and stored less than its time to live and the time it may be stale ago; the header
`Warning` is added exactly when its time to live is over. -/
theorem before_fresh (h : Reaches (cacheSystem request p) (fun _ e => e.VersionOk) s) {r : ρ}
    {out : HttpResponse} {now : ℤ} (hb : (s.cache.before (request r) out now).1 = true) :
    ∃ r' resp now',
      LastStored request p s.cache.store.capBytes s.history (makeKey (request r) p) r' resp now' ∧
      now < now' + seconds p.ttl + seconds (max p.staleWhileRevalidate 0) ∧
      (s.cache.before (request r) out now).2.1 =
        { resp with
          closeConnection := out.closeConnection
          headers :=
            if now' + seconds p.ttl ≤ now then
              resp.headers.insert (bytes "Warning") (bytes "110 - Response is Stale")
            else resp.headers } := by
  obtain ⟨-, r', resp, now', hlast, hans⟩ := before_sound h hb
  have hv : VersionOk resp := history_of_reaches h _ hlast.mem
  have hmax := seconds_le_max p.staleWhileRevalidate
  have hpos : 0 ≤ seconds (max p.staleWhileRevalidate 0) := by
    unfold seconds
    omega
  refine ⟨r', resp, now', hlast, ?_, ?_⟩
  · rcases hans with ⟨hnow, -⟩ | ⟨-, hnow, -⟩ <;> omega
  · rcases hans with ⟨hnow, he⟩ | ⟨hnow, -, he⟩
    · rw [he, setFromEntry_pack hv, if_neg (Int.not_le.2 hnow)]
    · rw [he, setFromEntry_pack hv, if_pos hnow]
      rfl

/-- A request for `/`. -/
def rootRequest : HttpRequest := { HttpRequest.new with method := .kGet, path := bytes "/" }

/-- A response with the given version. -/
def okResponse (version : Bytes) : HttpResponse :=
  { HttpResponse.new false with
    httpVersion := version, statusCode := 200, statusMessage := bytes "OK", body := bytes "hi" }

/-- The run that stores one response at time zero. -/
def storedRun (p : CachePolicy) (resp : HttpResponse) : CacheRun HttpRequest :=
  callRun id p (1024 * 1024) [.after rootRequest resp 0]

theorem reaches_storedRun {G : CacheRun HttpRequest → CacheCall HttpRequest → Prop}
    (p : CachePolicy) (resp : HttpResponse) (hG : ∀ s, G s (.after rootRequest resp 0)) :
    Reaches (cacheSystem id p) G (storedRun p resp) :=
  reaches_callRun fun e he s => by
    obtain rfl := List.mem_singleton.1 he
    exact hG s

theorem before_fresh_root :
    ∃ r' resp now',
      LastStored id {} (storedRun {} (okResponse (bytes "HTTP/1.1"))).cache.store.capBytes
        (storedRun {} (okResponse (bytes "HTTP/1.1"))).history (makeKey (id rootRequest) {})
        r' resp now' ∧
      seconds 1 < now' + seconds ({} : CachePolicy).ttl +
        seconds (max ({} : CachePolicy).staleWhileRevalidate 0) ∧
      ((storedRun {} (okResponse (bytes "HTTP/1.1"))).cache.before (id rootRequest)
          (HttpResponse.new false) (seconds 1)).2.1 =
        { resp with
          closeConnection := (HttpResponse.new false).closeConnection
          headers :=
            if now' + seconds ({} : CachePolicy).ttl ≤ seconds 1 then
              resp.headers.insert (bytes "Warning") (bytes "110 - Response is Stale")
            else resp.headers } :=
  before_fresh
    (reaches_storedRun {} (okResponse (bytes "HTTP/1.1"))
      fun _ => ⟨by decide, by decide, by decide⟩) (by decide)

/-- A version is cut at its first null byte, and with a negative time to be stale a response is
served after the time at which it should no longer be: in a store that has room for every object
the policy admits, and with versions that have no space and fit. -/
theorem null_version_negative_stale :
    (∃ s : CacheRun HttpRequest, ∃ resp : HttpResponse,
      Reaches (cacheSystem id {}) (fun _ e => e = .after rootRequest resp 0) s ∧
        ({} : CachePolicy).maxObjectBytes ≤ s.cache.store.capBytes ∧
        32 ∉ resp.httpVersion ∧ resp.statusText.length < 64 ∧
        (s.cache.before rootRequest (HttpResponse.new false) 1).1 = true ∧
        (s.cache.before rootRequest (HttpResponse.new false) 1).2.1.httpVersion ≠
          resp.httpVersion) ∧
      ∃ s : CacheRun HttpRequest, ∃ p : CachePolicy, ∃ resp : HttpResponse,
        Reaches (cacheSystem id p) (fun _ e => e = .after rootRequest resp 0) s ∧
          p.maxObjectBytes ≤ s.cache.store.capBytes ∧
          32 ∉ resp.httpVersion ∧ resp.statusText.length < 64 ∧
          (s.cache.before rootRequest (HttpResponse.new false) (seconds 7)).1 = true ∧
          ¬ seconds 7 < 0 + seconds p.ttl + seconds p.staleWhileRevalidate :=
  ⟨⟨_, okResponse (bytes "HTTP/1.1" ++ [0, 120]), reaches_storedRun {} _ fun _ => rfl, by decide,
    by decide, by decide, by decide, by decide⟩,
    _, { ttl := 10, staleWhileRevalidate := -5 }, okResponse (bytes "HTTP/1.1"),
    reaches_storedRun _ _ fun _ => rfl, by decide, by decide, by decide, by decide, by decide⟩

end KamaHttp
