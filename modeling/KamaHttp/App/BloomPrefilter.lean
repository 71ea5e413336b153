import KamaHttp.App.RouterSetup
import KamaHttp.Foundations.System

/-!
# The filter in front of the store

`RedirectHandler` asks the filter before it asks the store. It answers as it would without the
filter exactly when the identifier may be contained or the store has no answer to it
(`handle_eq_iff`). Over the runs of the shortener this rests on one invariant: what the store
answers is in the filter (`Covered`). A restart begins with an empty filter and breaks it, unless
the store is empty too.

* `prefilter_transparent`: in the runs in which no step makes the store answer an identifier behind
  the filter's back, the filter never changes an answer.
-/

namespace KamaHttp

variable {κ : Type*} (S : IStore κ)

/-- Asked for the identifier, the store does not say that it has none: it has, or it throws. -/
def Answers (store : κ) (id : Bytes) : Prop := id ≠ [] ∧ (S.get id store).1 ≠ .ok none

/-- Every identifier that `store'` answers, `store` answers. -/
def AnswersNoMore (store store' : κ) : Prop := ∀ id, Answers S store' id → Answers S store id

/-- A call of `setNX` that returns `true` makes the store answer its identifier, and no other;
a call that returns otherwise makes it answer none. -/
def CleanSetNX (id url : Bytes) (ttl : ℤ) (store : κ) : Prop :=
  ∀ id', Answers S (S.setNX id url ttl store).2 id' →
    Answers S store id' ∨ (S.setNX id url ttl store).1 = .ok true ∧ id' = id

/-- The calls of `setNX` in up to `n` attempts to shorten are clean. -/
def CleanAttempts (url : Bytes) (ttl : ℤ) : ℕ → (ℕ → Fin 62) → κ → Prop
  | 0, _, _ => True
  | n + 1, dist, store =>
    CleanSetNX S (ShortId.random 7 dist).1 url ttl store ∧
      ((S.setNX (ShortId.random 7 dist).1 url ttl store).1 = .ok false →
        CleanAttempts url ttl n (ShortId.random 7 dist).2
          (S.setNX (ShortId.random 7 dist).1 url ttl store).2)

/-- What happens to a shortener: requests, restarts of the server, and whatever happens to the store
from outside: time passes, entries are dropped, other processes write. -/
inductive ShortenerEvent (κ : Type*)
  | shorten (req : HttpRequest) (resp : HttpResponse)
  | redirect (req : HttpRequest) (resp : HttpResponse)
  | restart (dist : ℕ → Fin 62)
  | environment (store : κ)

/-- The state `main` builds around a store: with counters at zero and an empty filter of `1 << 20`
bits. -/
def started (store : κ) (dist : ℕ → Fin 62) : State κ :=
  ⟨store, some (.new (1 <<< 20) (by decide)), some {}, dist⟩

/-- The runs of a shortener, from a store that answers nothing. A restart keeps the store. -/
def shortenerSystem : System (State κ) (ShortenerEvent κ) where
  init st := ∃ store dist, (∀ id, ¬ Answers S store id) ∧ st = started store dist
  step st e st' :=
    match e with
    | .shorten req resp => st' = (ShortenHandler.handle S req resp st).2
    | .redirect req resp => st' = (RedirectHandler.handle S req resp st).2
    | .restart dist => st' = started st.store dist
    | .environment store => st' = { st with store }

/-- Nothing but an attempt that succeeds makes the store answer an identifier, and a restart finds
a store that answers nothing. -/
def Unsurprising (st : State κ) : ShortenerEvent κ → Prop
  | .shorten req _ => ∀ url ttl, parseJson req.getBody = some (url, ttl) →
    UrlValidator.valid url → CleanAttempts S url ttl 5 st.dist st.store
  | .redirect req _ =>
    AnswersNoMore S st.store (S.get (req.getPathParameters (bytes "param1")) st.store).2
  | .restart _ => ∀ id, ¬ Answers S st.store id
  | .environment store => AnswersNoMore S st.store store

/-- What the store answers is in the filter. -/
def Covered (st : State κ) : Prop :=
  ∃ b, st.bloom = some b ∧ ∀ id, Answers S st.store id → b.mightContain id

variable {S}

/-! ## One answer -/

/-- What a client sees of an answer: what is thrown, the status and the header `Location`. -/
def Answer.statusAndLocation (a : Answer) : Option Thrown × ℤ × Bytes :=
  (a.thrown, a.response.statusCode, a.response.getHeader (bytes "Location"))

open RedirectHandler

/-- An identifier that the store answers is not answered like one that is not known. -/
theorem lookup_ne_notFound {st : State κ} {id : Bytes} (h : Answers S st.store id)
    (resp : HttpResponse) :
    (lookup S id resp st).1.statusAndLocation ≠
      (Answer.returns (notFound resp)).statusAndLocation := by
  obtain ⟨-, hget⟩ := h
  unfold RedirectHandler.lookup
  rcases hg : S.get id st.store with ⟨e | _ | v, store⟩
  · simp [Answer.statusAndLocation, Answer.throws, Answer.returns]
  · rw [hg] at hget
    exact absurd rfl hget
  · intro he
    have hstatus : (301 : ℤ) = 404 := congrArg (fun x => x.2.1) he
    cases hstatus

/-- An identifier that the store does not answer is not known. -/
theorem lookup_eq_notFound {st : State κ} {id : Bytes} (hid : id ≠ [])
    (h : ¬ Answers S st.store id) (resp : HttpResponse) :
    (lookup S id resp st).1 = .returns (notFound resp) := by
  have hget : (S.get id st.store).1 = .ok none := by
    by_contra hget
    exact h ⟨hid, hget⟩
  unfold RedirectHandler.lookup
  rcases hg : S.get id st.store with ⟨e | _ | v, store⟩
  · rw [hg] at hget
    cases hget
  · rfl
  · rw [hg] at hget
    cases hget

/-- **When the filter changes no answer.** With the filter the handler answers as without it exactly
when the identifier may be contained or is not answered by the store. -/
theorem handle_eq_iff {st : State κ} {b : Bloom} (hb : st.bloom = some b) (req : HttpRequest)
    (resp : HttpResponse) :
    (handle S req resp st).1.statusAndLocation =
        (handle S req resp { st with bloom := none }).1.statusAndLocation ↔
      b.mightContain (req.getPathParameters (bytes "param1")) ∨
        ¬ Answers S st.store (req.getPathParameters (bytes "param1")) := by
  by_cases hid : req.getPathParameters (bytes "param1") = []
  · refine iff_of_true ?_ (.inr fun h => h.1 hid)
    rw [handle_of_nil hid, handle_of_nil hid]
  have hnone : (handle S req resp { st with bloom := none }).1 =
      (lookup S (req.getPathParameters (bytes "param1")) resp st).1 := by
    rw [handle_of_passed hid (fun b h => by cases h), lookup_without_bloom]
  by_cases hc : b.mightContain (req.getPathParameters (bytes "param1"))
  · refine iff_of_true ?_ (.inl hc)
    rw [hnone, handle_of_passed hid fun b' hb' => Option.some.inj (hb.symm.trans hb') ▸ hc]
  · rw [hnone, handle_of_filtered hb hid hc, or_iff_right hc]
    constructor
    · exact fun he ha => lookup_ne_notFound ha resp he.symm
    · exact fun ha => by rw [lookup_eq_notFound hid ha]

/-! ## Runs -/

/-- Attempts that are clean keep what the store answers in the filter. -/
theorem Covered.attempts {url : Bytes} {ttl : ℤ} {resp : HttpResponse} {n : ℕ} {st : State κ}
    (h : Covered S st) (hc : CleanAttempts S url ttl n st.dist st.store) :
    Covered S (ShortenHandler.attempts S url ttl resp n st).2 := by
  induction n generalizing st with
  | zero => exact h
  | succ n ih =>
    obtain ⟨b, hb, hcov⟩ := h
    obtain ⟨hclean, hrest⟩ := hc
    rcases hs : S.setNX (ShortId.random 7 st.dist).1 url ttl st.store with ⟨e | _ | _, store⟩
    · simp only [ShortenHandler.attempts, hs]
      refine ⟨b, hb, fun id hid => ?_⟩
      rw [CleanSetNX, hs] at hclean
      rcases hclean id hid with hid | ⟨h, -⟩
      · exact hcov id hid
      · cases h
    · simp only [ShortenHandler.attempts, hs]
      rw [CleanSetNX, hs] at hclean
      rw [hs] at hrest
      refine ih ⟨b, hb, fun id hid => ?_⟩ (hrest rfl)
      rcases hclean id hid with hid | ⟨h, -⟩
      · exact hcov id hid
      · cases h
    · simp only [ShortenHandler.attempts, hs]
      rw [CleanSetNX, hs] at hclean
      refine ⟨b.add (ShortId.random 7 st.dist).1, by simp [hb], fun id hid => ?_⟩
      rcases hclean id hid with hid | ⟨-, rfl⟩
      · exact Bloom.mightContain_add_of_mightContain (hcov id hid)
      · exact Bloom.mightContain_add_self b _

/-- A state with the same filter whose store answers no more. -/
theorem Covered.of_answersNoMore {st st' : State κ} (h : Covered S st)
    (hb : st'.bloom = st.bloom) (ha : AnswersNoMore S st.store st'.store) : Covered S st' := by
  obtain ⟨b, hst, hcov⟩ := h
  exact ⟨b, hb.trans hst, fun id hid => hcov id (ha id hid)⟩

theorem Covered.redirect {req : HttpRequest} {resp : HttpResponse} {st : State κ}
    (h : Covered S st)
    (ha : AnswersNoMore S st.store (S.get (req.getPathParameters (bytes "param1")) st.store).2) :
    Covered S (handle S req resp st).2 := by
  unfold RedirectHandler.handle
  dsimp only
  split_ifs
  · exact h
  · exact h
  · obtain ⟨hb, hs⟩ := lookup_state (S := S) (req.getPathParameters (bytes "param1")) resp st
    exact h.of_answersNoMore hb (by rwa [hs])

theorem Covered.shorten {req : HttpRequest} {resp : HttpResponse} {st : State κ}
    (h : Covered S st)
    (hc : ∀ url ttl, parseJson req.getBody = some (url, ttl) → UrlValidator.valid url →
      CleanAttempts S url ttl 5 st.dist st.store) :
    Covered S (ShortenHandler.handle S req resp st).2 := by
  unfold ShortenHandler.handle
  rcases hp : parseJson req.getBody with _ | ⟨url, ttl⟩
  · exact h
  · dsimp only
    split_ifs with hv
    · exact h.attempts (hc url ttl hp hv)
    · exact h

/-- A restart, around a store that answers nothing. -/
theorem Covered.started {store : κ} (h : ∀ id, ¬ Answers S store id) (dist : ℕ → Fin 62) :
    Covered S (started store dist) :=
  ⟨_, rfl, fun id hid => absurd hid (h id)⟩

/-- **In every state reached, what the store answers is in the filter.** -/
theorem covered_of_reaches {st : State κ} (h : Reaches (shortenerSystem S) (Unsurprising S) st) :
    Covered S st := by
  refine h.invariant ?_ ?_
  · rintro _ ⟨store, dist, hnone, rfl⟩
    exact .started hnone dist
  · rintro st e st' hcov hg hs
    cases e with
    | shorten req resp =>
      obtain rfl : st' = _ := hs
      exact hcov.shorten hg
    | redirect req resp =>
      obtain rfl : st' = _ := hs
      exact hcov.redirect hg
    | restart dist =>
      obtain rfl : st' = _ := hs
      exact .started hg dist
    | environment store =>
      obtain rfl : st' = _ := hs
      exact hcov.of_answersNoMore rfl hg

/-- **The filter never changes an answer**, in the runs in which only attempts that succeed make the
store answer an identifier, and every restart finds a store that answers nothing. -/
theorem prefilter_transparent {st : State κ}
    (h : Reaches (shortenerSystem S) (Unsurprising S) st) (req : HttpRequest)
    (resp : HttpResponse) :
    (handle S req resp st).1.statusAndLocation =
      (handle S req resp { st with bloom := none }).1.statusAndLocation := by
  obtain ⟨b, hb, hcov⟩ := covered_of_reaches h
  rw [handle_eq_iff hb, or_iff_not_imp_right, not_not]
  exact hcov _

/-! ## A table -/

/-- A store that keeps a table of identifiers and URLs and outlives the server; it has no time to
live. -/
def tableStore : IStore (List (Bytes × Bytes)) where
  get id t := (.ok (t.lookup id), t)
  setNX id url _ t := if (t.lookup id).isSome then (.ok false, t) else (.ok true, (id, url) :: t)
  set id url _ t := (.ok (), (id, url) :: t.filter fun r => r.1 ≠ id)
  del id t := (.ok (), t.filter fun r => r.1 ≠ id)

theorem tableStore_cleanSetNX (id url : Bytes) (ttl : ℤ) (t : List (Bytes × Bytes)) :
    CleanSetNX tableStore id url ttl t := by
  rintro id' ⟨hne, hget⟩
  by_cases ht : (t.lookup id).isSome
  · have hset : tableStore.setNX id url ttl t = (.ok false, t) := if_pos ht
    rw [hset] at hget
    exact .inl ⟨hne, hget⟩
  · have hset : tableStore.setNX id url ttl t = (.ok true, (id, url) :: t) := if_neg ht
    rw [hset] at hget ⊢
    by_cases hid : id' = id
    · exact .inr ⟨rfl, hid⟩
    · have hcons : ((id, url) :: t).lookup id' = t.lookup id' := by
        rw [List.lookup_cons, beq_false_of_ne hid]
      exact .inl ⟨hne, fun hnone => hget ((congrArg Except.ok hcons).trans hnone)⟩

theorem tableStore_cleanAttempts (url : Bytes) (ttl : ℤ) (n : ℕ) (dist : ℕ → Fin 62)
    (t : List (Bytes × Bytes)) : CleanAttempts tableStore url ttl n dist t := by
  induction n generalizing dist t with
  | zero => trivial
  | succ n ih => exact ⟨tableStore_cleanSetNX _ url ttl t, fun _ => ih _ _⟩

def shortenRequest : HttpRequest :=
  { HttpRequest.new with method := .kPost, content := bytes "\x7b\"url\":\"http://a\"\x7d" }

def redirectRequest : HttpRequest :=
  { HttpRequest.new with method := .kGet }.setPathParameters (bytes "param1") (bytes "0000000")

/-- The shortener behind one request, with a generator that draws zeros. -/
def shortened : State (List (Bytes × Bytes)) :=
  (ShortenHandler.handle tableStore shortenRequest (HttpResponse.new false)
    (started [] fun _ => 0)).2

theorem reaches_shortened :
    Reaches (shortenerSystem tableStore) (Unsurprising tableStore) shortened :=
  .step (e := .shorten shortenRequest (HttpResponse.new false))
    (.init ⟨[], fun _ => 0, fun _ h => h.2 rfl, rfl⟩)
    (fun url ttl _ _ => tableStore_cleanAttempts url ttl 5 _ _) rfl

theorem prefilter_transparent_shortened :
    (handle tableStore redirectRequest (HttpResponse.new false) shortened).1.statusAndLocation =
      (handle tableStore redirectRequest (HttpResponse.new false)
        { shortened with bloom := none }).1.statusAndLocation :=
  prefilter_transparent reaches_shortened redirectRequest (HttpResponse.new false)

/-- Behind a restart, an identifier that is in the table is not found, and would be redirected
without the filter. -/
theorem not_found_behind_restart :
    ∃ st, Reaches (shortenerSystem tableStore) Always st ∧
      (handle tableStore redirectRequest (HttpResponse.new false) st).1.statusAndLocation =
        (none, 404, []) ∧
      (handle tableStore redirectRequest (HttpResponse.new false)
        { st with bloom := none }).1.statusAndLocation = (none, 301, bytes "http://a") := by
  refine ⟨started shortened.store fun _ => 0, ?_, ?_, by decide +kernel⟩
  · exact .step (e := .restart fun _ => 0) (reaches_shortened.mono fun _ _ _ => trivial) trivial rfl
  · rw [handle_of_filtered rfl (by decide) (by simp)]
    rfl

end KamaHttp
