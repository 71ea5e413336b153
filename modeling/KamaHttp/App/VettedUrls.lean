import KamaHttp.App.Main
import KamaHttp.Foundations.Machine

/-!
# What the store of the server holds

Requests are handled one after the other, through the middlewares and the routes of `main`.

* `only_vetted`: every entry of the store was put there by a request, as it was vetted.
-/

namespace KamaHttp

open MemoryStore

variable {τ : Type*}

/-- The URL was taken from the body of the request, has been vetted, and the identifier is one that
is drawn. -/
structure Vetted (req : HttpRequest) (id url : Bytes) : Prop where
  matchesUrl : MatchesUrl url
  clean : ∀ p ∈ mainBlacklist.patterns, ¬ p <:+: url
  body : url <:+: req.getBody
  shortId : IsShortId id

theorem Stores.vetted {req : HttpRequest} {id url : Bytes} {kv kv' : KVStore mainShards}
    (h : Stores req id url kv kv') : Vetted req id url := by
  obtain ⟨ttl, hparsed⟩ := h.parsed
  have hbody := isInfix_of_parseJson hparsed
  refine ⟨UrlValidator.valid_iff.1 h.valid, fun p hp hsub => ?_, hbody, h.shortId⟩
  have hne : p ≠ [] := by
    rintro rfl
    exact absurd hp (by decide)
  exact BlacklistMiddleware.not_infix_body h.passed hp hne (hsub.trans hbody)

/-- The world behind the requests. -/
def afterRequests (limiter : RateLimiter τ) (reqs : List HttpRequest) (w : World (Shared τ)) :
    World (Shared τ) :=
  Machine.run (mainServer limiter).handle reqs w

theorem afterRequests_concat (limiter : RateLimiter τ) (reqs : List HttpRequest)
    (req : HttpRequest) (w : World (Shared τ)) :
    afterRequests limiter (reqs ++ [req]) w =
      ((mainServer limiter).handle req (afterRequests limiter reqs w)).2 :=
  Machine.run_concat ..

theorem cachesEmpty_afterRequests (limiter : RateLimiter τ) {w : World (Shared τ)} (hw : Starts w)
    (reqs : List HttpRequest) : CachesEmpty (afterRequests limiter reqs w) := by
  induction reqs using List.reverseRecOn with
  | nil =>
    intro i k
    have hi : (afterRequests limiter [] w).caches i = w.caches i := rfl
    rw [hi, hw.caches i, CacheStore.content_new]
  | append_singleton reqs req ih =>
    rw [afterRequests_concat]
    exact (handle_cases limiter ih req).1

/-- One of the requests found nothing in the shard under the identifier, and left the URL there,
which was vetted. -/
def StoredVetted (limiter : RateLimiter τ) (w : World (Shared τ)) (reqs : List HttpRequest)
    (i : Fin mainShards) (id url : Bytes) : Prop :=
  ∃ front req back, reqs = front ++ req :: back ∧
    (afterRequests limiter front w).app.kv.get i id = none ∧
    (afterRequests limiter (front ++ [req]) w).app.kv.get i id = some url ∧
    Vetted req id url

theorem StoredVetted.concat {limiter : RateLimiter τ} {w : World (Shared τ)}
    {reqs : List HttpRequest} {i : Fin mainShards} {id url : Bytes}
    (h : StoredVetted limiter w reqs i id url) (req : HttpRequest) :
    StoredVetted limiter w (reqs ++ [req]) i id url := by
  obtain ⟨front, r, back, rfl, hnone, hsome, hvetted⟩ := h
  exact ⟨front, r, back ++ [req], by simp, hnone, hsome, hvetted⟩

/-- **Only vetted URLs are stored.** Whatever the limiter, the draws and the requests: every entry
of the store, in any of its shards, was put there by one of the requests, and was vetted. -/
theorem only_vetted (limiter : RateLimiter τ) {w : World (Shared τ)} (hw : Starts w)
    (reqs : List HttpRequest) (i : Fin mainShards) (id url : Bytes)
    (hstored : (afterRequests limiter reqs w).app.kv.get i id = some url) :
    StoredVetted limiter w reqs i id url := by
  induction reqs using List.reverseRecOn with
  | nil =>
    have hkv : (afterRequests limiter [] w).app.kv = w.app.kv := rfl
    rw [hkv, hw.kv, KVStore.get_new] at hstored
    cases hstored
  | append_singleton reqs req ih =>
    have hcases := (handle_cases limiter (cachesEmpty_afterRequests limiter hw reqs) req).2
    rw [← afterRequests_concat] at hcases
    rcases hcases with hsame | ⟨id', url', hstores⟩
    · rw [hsame] at hstored
      exact (ih hstored).concat req
    · rw [hstores.store, KVStore.get_set] at hstored
      split at hstored
      · rename_i hentry
        obtain ⟨rfl, rfl⟩ := hentry
        obtain rfl := Option.some.inj hstored
        refine ⟨reqs, req, [], rfl, hstores.free, ?_, hstores.vetted⟩
        rw [hstores.store, KVStore.get_set, if_pos ⟨rfl, rfl⟩]
      · exact (ih hstored).concat req

def vettedRequest : HttpRequest :=
  { HttpRequest.new with
    method := .kPost
    path := bytes "/api/shorten"
    version := bytes "HTTP/1.1"
    content := bytes "\x7b\"url\":\"http://a\"\x7d" }

/-- The URL of one request is found in the store, and has been vetted. -/
theorem only_vetted_shorten :
    let i := shard mainShards (bytes "0000000")
    (afterRequests openLimiter [vettedRequest] startWorld).app.kv.get i (bytes "0000000") =
        some (bytes "http://a") ∧
      StoredVetted openLimiter startWorld [vettedRequest] i (bytes "0000000")
        (bytes "http://a") := by
  have hstored : (afterRequests openLimiter [vettedRequest] startWorld).app.kv.get
      (shard mainShards (bytes "0000000")) (bytes "0000000") = some (bytes "http://a") := by
    decide +kernel
  exact ⟨hstored, only_vetted openLimiter starts_startWorld [vettedRequest] _ _ _ hstored⟩

end KamaHttp
