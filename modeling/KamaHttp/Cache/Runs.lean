import KamaHttp.Cache.CacheMiddleware
import KamaHttp.Foundations.System

/-!
# Runs of the response cache

A run of the cache is a sequence of calls: `before` and `after` with requests of some kind `ρ`, and
`purgePrefix`. `LastStored` says of a run, by its calls alone, which response was stored last under
a key and not purged since.

* `coherent_of_reaches`: in every state reached, what the store holds under a key is the response
  that was stored last under it.
* `before_sound`: what `before` answers is that response, fresh enough.
-/

namespace KamaHttp

open CacheMiddleware

/-- A call of the cache. -/
inductive CacheCall (ρ : Type*)
  | before (r : ρ) (resp : HttpResponse) (now : ℤ)
  | after (r : ρ) (resp : HttpResponse) (now : ℤ)
  | purgePrefix (pathPrefix : Bytes)

/-- The cache, and the calls made so far, the last one first. -/
structure CacheRun (ρ : Type*) where
  cache : CacheMiddleware
  history : List (CacheCall ρ)

variable {ρ : Type*} (request : ρ → HttpRequest) (p : CachePolicy)

/-- What a call makes of the cache. -/
def CacheMiddleware.exec (m : CacheMiddleware) : CacheCall ρ → CacheMiddleware
  | .before r resp now => (m.before (request r) resp now).2.2
  | .after r resp now => m.after (request r) resp now
  | .purgePrefix pathPrefix => m.purgePrefix pathPrefix

/-- The runs of a cache with a policy, on an empty store of any capacity. -/
def cacheSystem : System (CacheRun ρ) (CacheCall ρ) where
  init s := ∃ capBytes, s = ⟨⟨p, .new capBytes⟩, []⟩
  step s e s' := s' = ⟨s.cache.exec request e, e :: s.history⟩

/-- The call stores a response under the key. -/
def CacheCall.StoresUnder (capBytes : ℕ) (k : CacheKey) : CacheCall ρ → Prop
  | .after r resp now => Stores p capBytes (request r) resp now ∧ k = makeKey (request r) p
  | _ => False

/-- The call purges the path of the key. -/
def CacheCall.Purges (k : CacheKey) : CacheCall ρ → Prop
  | .purgePrefix pathPrefix => pathPrefix <+: k.pathAndQuery
  | _ => False

/-- Of the calls, the last one to store under the key stored `resp` for `r` at `now`, and the path
of the key was not purged since. -/
def LastStored (capBytes : ℕ) (history : List (CacheCall ρ)) (k : CacheKey) (r : ρ)
    (resp : HttpResponse) (now : ℤ) : Prop :=
  ∃ later earlier, history = later ++ .after r resp now :: earlier ∧
    (CacheCall.after r resp now).StoresUnder request p capBytes k ∧
    ∀ e ∈ later, ¬ e.StoresUnder request p capBytes k ∧ ¬ e.Purges k

variable {request p}

theorem LastStored.of_storesUnder {capBytes : ℕ} {history : List (CacheCall ρ)} {k : CacheKey}
    {r : ρ} {resp : HttpResponse} {now : ℤ}
    (h : (CacheCall.after r resp now).StoresUnder request p capBytes k) :
    LastStored request p capBytes (.after r resp now :: history) k r resp now :=
  ⟨[], history, rfl, h, fun _ he => by cases he⟩

/-- A call that neither stores under the key nor purges it leaves the last response as it is. -/
theorem LastStored.cons {capBytes : ℕ} {history : List (CacheCall ρ)} {k : CacheKey} {r : ρ}
    {resp : HttpResponse} {now : ℤ} {e : CacheCall ρ}
    (h : LastStored request p capBytes history k r resp now)
    (hs : ¬ e.StoresUnder request p capBytes k) (hp : ¬ e.Purges k) :
    LastStored request p capBytes (e :: history) k r resp now := by
  obtain ⟨later, earlier, rfl, hst, hlater⟩ := h
  refine ⟨e :: later, earlier, rfl, hst, fun e' he' => ?_⟩
  rcases List.mem_cons.1 he' with rfl | he'
  · exact ⟨hs, hp⟩
  · exact hlater e' he'

theorem LastStored.mem {capBytes : ℕ} {history : List (CacheCall ρ)} {k : CacheKey} {r : ρ}
    {resp : HttpResponse} {now : ℤ} (h : LastStored request p capBytes history k r resp now) :
    CacheCall.after r resp now ∈ history := by
  obtain ⟨later, earlier, rfl, -, -⟩ := h
  simp

theorem LastStored.storesUnder {capBytes : ℕ} {history : List (CacheCall ρ)} {k : CacheKey} {r : ρ}
    {resp : HttpResponse} {now : ℤ} (h : LastStored request p capBytes history k r resp now) :
    Stores p capBytes (request r) resp now ∧ k = makeKey (request r) p := by
  obtain ⟨later, earlier, -, hs, -⟩ := h
  exact hs

variable (request p) in
/-- What the store holds under a key is the response that was stored last under it. -/
structure Coherent (s : CacheRun ρ) : Prop where
  policy : s.cache.policy = p
  content : ∀ k e, s.cache.store.content k = some e → ∃ r resp now,
    LastStored request p s.cache.store.capBytes s.history k r resp now ∧ e = pack resp now p

/-- **Every call keeps the store coherent.** -/
theorem Coherent.exec {s : CacheRun ρ} (h : Coherent request p s) (e : CacheCall ρ) :
    Coherent request p ⟨s.cache.exec request e, e :: s.history⟩ := by
  have hpol := h.policy
  cases e with
  | before r resp now =>
    obtain ⟨hp, hcap, hcontent⟩ := before_policy_content s.cache (request r) resp now
    refine ⟨hp.trans hpol, fun k e he => ?_⟩
    obtain ⟨r', resp', now', hlast, rfl⟩ := h.content k e ((hcontent k).symm.trans he)
    refine ⟨r', resp', now', ?_, rfl⟩
    simp only [CacheMiddleware.exec, hcap]
    exact hlast.cons id id
  | after r resp now =>
    obtain ⟨hp, hcap, hcontent⟩ := after_policy_content s.cache (request r) resp now
    rw [hpol] at hcontent
    refine ⟨hp.trans hpol, fun k e he => ?_⟩
    simp only [CacheMiddleware.exec, hcap]
    rcases hcontent k e he with ⟨hs, rfl, rfl⟩ | ⟨hs, he⟩
    · exact ⟨r, resp, now, .of_storesUnder ⟨hs, rfl⟩, rfl⟩
    · obtain ⟨r', resp', now', hlast, rfl⟩ := h.content k e he
      exact ⟨r', resp', now', hlast.cons hs id, rfl⟩
  | purgePrefix pathPrefix =>
    have hcap := CacheStore.capBytes_purgePrefix s.cache.store pathPrefix
    refine ⟨hpol, fun k e he => ?_⟩
    simp only [CacheMiddleware.exec, CacheMiddleware.purgePrefix,
      CacheStore.content_purgePrefix] at he
    split at he
    · cases he
    · rename_i hnot
      obtain ⟨r', resp', now', hlast, rfl⟩ := h.content k e he
      refine ⟨r', resp', now', ?_, rfl⟩
      simp only [CacheMiddleware.exec, CacheMiddleware.purgePrefix, hcap]
      exact hlast.cons id hnot

variable {G : CacheRun ρ → CacheCall ρ → Prop} {s : CacheRun ρ}

/-- The calls made are those whose condition was met. -/
theorem history_of_reaches {P : CacheCall ρ → Prop}
    (h : Reaches (cacheSystem request p) (fun _ e => P e) s) : ∀ e ∈ s.history, P e := by
  refine h.invariant (I := fun s => ∀ e ∈ s.history, P e) ?_ ?_
  · rintro _ ⟨capBytes, rfl⟩ e he
    cases he
  · rintro s e _ hs hok rfl e' he'
    rcases List.mem_cons.1 he' with rfl | he'
    · exact hok
    · exact hs e' he'

/-- **In every state reached, the store is coherent.** -/
theorem coherent_of_reaches (h : Reaches (cacheSystem request p) G s) : Coherent request p s := by
  refine h.invariant ?_ ?_
  · rintro _ ⟨capBytes, rfl⟩
    exact ⟨rfl, fun k e he => by rw [CacheStore.content_new] at he; cases he⟩
  · rintro s e _ hs - rfl
    exact hs.exec e

variable (request p) in
/-- The run that makes the calls on an empty store, the first one first. -/
def callRun (capBytes : ℕ) (calls : List (CacheCall ρ)) : CacheRun ρ :=
  calls.foldl (fun s e => ⟨s.cache.exec request e, e :: s.history⟩) ⟨⟨p, .new capBytes⟩, []⟩

theorem reaches_callRun {capBytes : ℕ} {calls : List (CacheCall ρ)}
    (h : ∀ e ∈ calls, ∀ s, G s e) :
    Reaches (cacheSystem request p) G (callRun request p capBytes calls) :=
  List.foldlRecOn calls _ (.init ⟨capBytes, rfl⟩) fun s hs e he => .step hs (h e he s) rfl

/-- **What `before` answers is the response that was stored last under the key**, stored no longer
ago than it may be served. -/
theorem before_sound (h : Reaches (cacheSystem request p) G s) {r : ρ} {resp : HttpResponse}
    {now : ℤ} (hb : (s.cache.before (request r) resp now).1 = true) :
    isCacheableRequest (request r) p ∧ ∃ r' resp' now',
      LastStored request p s.cache.store.capBytes s.history (makeKey (request r) p) r' resp' now' ∧
      ((now < now' + seconds p.ttl ∧ (s.cache.before (request r) resp now).2.1 =
          setFromEntry (pack resp' now' p) resp) ∨
        (now' + seconds p.ttl ≤ now ∧
          now < now' + seconds p.ttl + seconds p.staleWhileRevalidate ∧
          (s.cache.before (request r) resp now).2.1 =
            warn (setFromEntry (pack resp' now' p) resp))) := by
  have hcoh := coherent_of_reaches h
  obtain ⟨hreq, hit, hcontent, hans⟩ := before_eq_true hb
  rw [hcoh.policy] at hreq hcontent
  obtain ⟨r', resp', now', hlast, rfl⟩ := hcoh.content _ _ hcontent
  exact ⟨hreq, r', resp', now', hlast, hans⟩

end KamaHttp
