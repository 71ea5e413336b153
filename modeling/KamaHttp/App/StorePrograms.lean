import Mathlib.Logic.Equiv.Defs
import KamaHttp.App.Links
import KamaHttp.Foundations.Interaction

/-!
# The handlers, call by call

What the handlers that shorten and redirect do on a store whose operations are programs. A thread
keeps a part of what the store works on; the rest is outside, where the calls of the programs go.

* `Implements.run_handlerTask`: a program, run alone on programs that are the operations of a store,
  does what the handler does on that store.
* `keeps_program`: what the answers come from.
-/

namespace KamaHttp

open Interaction

variable {C : Type} {R : C → Type} {κ κ' σ τ : Type*}

/-- The operations of a store that the handlers use, as programs on what the thread keeps. -/
structure StoreProgram (C : Type) (R : C → Type) (κ : Type*) where
  get : Bytes → κ → Interaction C R (Except StdException (Option Bytes) × κ)
  setNX : Bytes → Bytes → ℤ → κ → Interaction C R (Except StdException Bool × κ)

/-- A handler, on its state but for what is outside. -/
abbrev HandlerProgram (C : Type) (R : C → Type) (κ : Type*) := Interaction C R (Answer × State κ)

/-! ## The handlers -/

section Handlers

variable (P : StoreProgram C R κ)

/-- The loop of `ShortenHandler::handle`. -/
def attemptsProgram (url : Bytes) (ttl : ℤ) (resp : HttpResponse) :
    ℕ → State κ → HandlerProgram C R κ
  | 0, st => .done (.returns ((resp.setStatusCode 500).setBody (bytes "exhausted id retries")), st)
  | n + 1, st =>
    let draw := ShortId.random 7 st.dist
    (P.setNX draw.1 url ttl st.store).bind fun
      | (.error e, store) => .done (.throws resp (.exception e), { st with store, dist := draw.2 })
      | (.ok true, store) =>
        .done (.returns (ShortenHandler.created draw.1 resp),
          State.count
            { st with store, dist := draw.2, bloom := st.bloom.map (Bloom.add · draw.1) } fun m =>
              { m with shortenOk := m.shortenOk + 1, storeSetnxOk := m.storeSetnxOk + 1 })
      | (.ok false, store) =>
        attemptsProgram url ttl resp n (State.count { st with store, dist := draw.2 } fun m =>
          { m with storeSetnxConflict := m.storeSetnxConflict + 1 })

/-- `ShortenHandler::handle`. -/
def shortenProgram (req : HttpRequest) (resp : HttpResponse) (st : State κ) :
    HandlerProgram C R κ :=
  let invalid := (Answer.returns (ShortenHandler.invalidUrl resp), st.count fun m =>
    { m with shortenBad := m.shortenBad + 1 })
  match parseJson req.getBody with
  | none => .done invalid
  | some (url, ttl) =>
    if UrlValidator.valid url then attemptsProgram P url ttl resp 5 st else .done invalid

/-- `RedirectHandler::handle`, behind the filter. -/
def lookupProgram (id : Bytes) (resp : HttpResponse) (st : State κ) : HandlerProgram C R κ :=
  (P.get id st.store).bind fun
    | (.error e, store) => .done (.throws resp (.exception e), { st with store })
    | (.ok none, store) =>
      .done (.returns (RedirectHandler.notFound resp), State.count { st with store } fun m =>
        { m with redirectMiss := m.redirectMiss + 1, storeGetMiss := m.storeGetMiss + 1 })
    | (.ok (some v), store) =>
      .done (.returns (RedirectHandler.moved v resp), State.count { st with store } fun m =>
        { m with redirectOk := m.redirectOk + 1, storeGetHit := m.storeGetHit + 1 })

/-- `RedirectHandler::handle`. -/
def redirectProgram (req : HttpRequest) (resp : HttpResponse) (st : State κ) :
    HandlerProgram C R κ :=
  let id := req.getPathParameters (bytes "param1")
  if id = [] then .done (.returns ((resp.setStatusCode 400).setBody (bytes "bad id")), st)
  else if st.bloom.any fun b => !b.mightContain id then
    .done (.returns (RedirectHandler.notFound resp), st.count fun m =>
      { m with redirectMiss := m.redirectMiss + 1 })
  else lookupProgram P id resp st

/-- A request that reaches a handler, with the response to fill and the state it finds. -/
inductive HandlerTask (κ : Type*)
  | shorten (req : HttpRequest) (resp : HttpResponse) (st : State κ)
  | redirect (req : HttpRequest) (resp : HttpResponse) (st : State κ)

def HandlerTask.program : HandlerTask κ → HandlerProgram C R κ
  | .shorten req resp st => shortenProgram P req resp st
  | .redirect req resp st => redirectProgram P req resp st

end Handlers

/-! ## The programs, run alone -/

section Run

/-- What a program alone comes to, where the function leaves what the store works on. -/
def alone {α : Type*} (e : κ × σ ≃ κ') (r : α × κ') : (α × κ) × σ :=
  ((r.1, (e.symm r.2).1), (e.symm r.2).2)

/-- The state of the handlers, with what is outside. -/
def State.onEnv (e : κ × σ ≃ κ') (st : State κ) (env : σ) : State κ' :=
  ⟨e (st.store, env), st.bloom, st.metrics, st.dist⟩

/-- What a handler alone comes to, where the function leaves a state. -/
def handlerAlone (e : κ × σ ≃ κ') (r : Answer × State κ') : (Answer × State κ) × σ :=
  ((r.1, ⟨(e.symm r.2.store).1, r.2.bloom, r.2.metrics, r.2.dist⟩), (e.symm r.2.store).2)

/-- A state that is taken apart and put together again. -/
theorem State.onEnv_symm (e : κ × σ ≃ κ') (store : κ') (bloom : Option Bloom)
    (metrics : Option Metrics) (dist : ℕ → Fin 62) :
    State.onEnv e ⟨(e.symm store).1, bloom, metrics, dist⟩ (e.symm store).2 =
      ⟨store, bloom, metrics, dist⟩ := by
  rw [State.onEnv, Prod.mk.eta, Equiv.apply_symm_apply]

theorem handlerAlone_onEnv (e : κ × σ ≃ κ') (a : Answer) (st : State κ) (env : σ) :
    handlerAlone e (a, st.onEnv e env) = ((a, st), env) := by
  rw [handlerAlone, State.onEnv, Equiv.symm_apply_apply]

/-- What a task does on a store. -/
def HandlerTask.handle (S : IStore κ') (e : κ × σ ≃ κ') : HandlerTask κ → σ → Answer × State κ'
  | .shorten req resp st, env => ShortenHandler.handle S req resp (st.onEnv e env)
  | .redirect req resp st, env => RedirectHandler.handle S req resp (st.onEnv e env)

/-- **The programs are the operations of a store**: run alone, they do what the operations do. -/
structure Implements (P : StoreProgram C R κ) (answer : (c : C) → σ → R c × σ) (S : IStore κ')
    (e : κ × σ ≃ κ') : Prop where
  get : ∀ key k env, (P.get key k).run answer env = alone e (S.get key (e (k, env)))
  setNX : ∀ key value ttlSec k env, (P.setNX key value ttlSec k).run answer env =
    alone e (S.setNX key value ttlSec (e (k, env)))

variable {P : StoreProgram C R κ} {answer : (c : C) → σ → R c × σ} {S : IStore κ'}
  {e : κ × σ ≃ κ'}

theorem Implements.run_attemptsProgram (h : Implements P answer S e) (url : Bytes) (ttl : ℤ)
    (resp : HttpResponse) (n : ℕ) (st : State κ) (env : σ) :
    (attemptsProgram P url ttl resp n st).run answer env =
      handlerAlone e (ShortenHandler.attempts S url ttl resp n (st.onEnv e env)) := by
  induction n generalizing st env with
  | zero => exact (handlerAlone_onEnv e _ st env).symm
  | succ n ih =>
    rw [attemptsProgram, run_bind, h.setNX, ShortenHandler.attempts]
    have hdist : (st.onEnv e env).dist = st.dist := rfl
    have hstore : (st.onEnv e env).store = e (st.store, env) := rfl
    rw [hdist, hstore]
    rcases S.setNX (ShortId.random 7 st.dist).1 url ttl (e (st.store, env)) with
      ⟨x | _ | _, store⟩
    · rfl
    · exact (ih _ _).trans (congrArg _ (congrArg _ (State.onEnv_symm e store ..)))
    · rfl

theorem Implements.run_lookupProgram (h : Implements P answer S e) (id : Bytes)
    (resp : HttpResponse) (st : State κ) (env : σ) :
    (lookupProgram P id resp st).run answer env =
      handlerAlone e (RedirectHandler.lookup S id resp (st.onEnv e env)) := by
  rw [lookupProgram, run_bind, h.get, RedirectHandler.lookup]
  have hstore : (st.onEnv e env).store = e (st.store, env) := rfl
  rw [hstore]
  rcases S.get id (e (st.store, env)) with ⟨x | _ | _, store⟩ <;> rfl

/-- **The program of a task, run alone**, does what the handler does on the store. -/
theorem Implements.run_handlerTask (h : Implements P answer S e) (task : HandlerTask κ) (env : σ) :
    (task.program P).run answer env = handlerAlone e (task.handle S e env) := by
  cases task with
  | shorten req resp st =>
    simp only [HandlerTask.program, HandlerTask.handle, shortenProgram, ShortenHandler.handle]
    rcases parseJson req.getBody with _ | ⟨url, ttl⟩
    · exact (handlerAlone_onEnv e _ (st.count _) env).symm
    · dsimp only
      split
      · exact h.run_attemptsProgram url ttl resp 5 st env
      · exact (handlerAlone_onEnv e _ (st.count _) env).symm
  | redirect req resp st =>
    have hbloom : (st.onEnv e env).bloom = st.bloom := rfl
    simp only [HandlerTask.program, HandlerTask.handle, redirectProgram, RedirectHandler.handle,
      hbloom]
    split
    · exact (handlerAlone_onEnv e _ st env).symm
    · split
      · exact (handlerAlone_onEnv e _ (st.count _) env).symm
      · exact h.run_lookupProgram _ resp st env

end Run

/-! ## What the answers come from -/

section Keeps

/-- Where an answer comes from: an identifier is handed out behind a `setNX` that has stored the URL
under it, and a redirect leads to what `get` has found under its identifier. -/
def HandlerTask.ComesFrom (stored : Bytes → Bytes → ℤ → τ → Prop)
    (found : Bytes → Bytes → τ → Prop) : HandlerTask κ → τ → Answer × State κ → Prop
  | .shorten req _ _, g, a => ∀ id, AnswersId id (true, a.1) →
    ∃ url ttl, parseJson req.getBody = some (url, ttl) ∧ stored id url ttl g
  | .redirect req _ _, g, a => ∀ url, AnswersUrl url (true, a.1) →
    found (req.getPathParameters (bytes "param1")) url g

variable {P : StoreProgram C R κ} {book : Book C R τ} {stored : Bytes → Bytes → ℤ → τ → Prop}
  {found : Bytes → Bytes → τ → Prop}

theorem keeps_attemptsProgram
    (hset : ∀ id url ttl k g, IsShortId id → (P.setNX id url ttl k).Keeps book
      (fun g a => a.1 = .ok true → stored id url ttl g) g)
    {req : HttpRequest} {resp resp' : HttpResponse} {url : Bytes} {ttl : ℤ}
    (hparsed : parseJson req.getBody = some (url, ttl)) (n : ℕ) (st st' : State κ) (g : τ) :
    (attemptsProgram P url ttl resp n st).Keeps book
      (HandlerTask.ComesFrom stored found (.shorten req resp' st')) g := by
  induction n generalizing st g with
  | zero =>
    rintro id ⟨-, -, h200, -⟩
    exact absurd h200 (by decide : (500 : ℤ) ≠ 200)
  | succ n ih =>
    rw [attemptsProgram]
    refine (hset _ url ttl st.store g (isShortId_random st.dist)).bind ?_
    rintro g ⟨x | _ | _, store⟩ hstored
    · rintro id ⟨-, hthrown, -⟩
      cases hthrown
    · exact ih _ _
    · intro id hid
      obtain rfl := id_of_answersId hid
      exact ⟨url, ttl, hparsed, hstored rfl⟩

/-- The URL can be read off the answer. -/
theorem url_of_answersUrl {resp : HttpResponse} {url v : Bytes}
    (h : AnswersUrl url (true, .returns (RedirectHandler.moved v resp))) : v = url := by
  obtain ⟨-, -, -, hheader⟩ := h
  have hother : bytes "Location" ≠ bytes "X-Cacheable" := by decide
  have hmoved : HttpResponse.getHeader (RedirectHandler.moved v resp) (bytes "Location") = v := by
    simp [RedirectHandler.moved, hother]
  exact hmoved.symm.trans hheader

/-- **What the programs keep to**, given what the operations of the store keep to. -/
theorem keeps_program
    (hset : ∀ id url ttl k g, IsShortId id → (P.setNX id url ttl k).Keeps book
      (fun g a => a.1 = .ok true → stored id url ttl g) g)
    (task : HandlerTask κ)
    (hget : ∀ req resp st, task = .redirect req resp st → ∀ k g,
      (P.get (req.getPathParameters (bytes "param1")) k).Keeps book
        (fun g a => ∀ v, a.1 = .ok (some v) →
          found (req.getPathParameters (bytes "param1")) v g) g) (g : τ) :
    (task.program P).Keeps book (task.ComesFrom stored found) g := by
  cases task with
  | shorten req resp st =>
    simp only [HandlerTask.program, shortenProgram]
    rcases hparsed : parseJson req.getBody with _ | ⟨url, ttl⟩
    · rintro id ⟨-, -, h200, -⟩
      exact absurd h200 (by decide : (400 : ℤ) ≠ 200)
    · dsimp only
      split
      · exact keeps_attemptsProgram hset hparsed 5 st st g
      · rintro id ⟨-, -, h200, -⟩
        exact absurd h200 (by decide : (400 : ℤ) ≠ 200)
  | redirect req resp st =>
    simp only [HandlerTask.program, redirectProgram]
    split
    · rintro url ⟨-, -, h301, -⟩
      exact absurd h301 (by decide : (400 : ℤ) ≠ 301)
    · split
      · rintro url ⟨-, -, h301, -⟩
        exact absurd h301 (by decide : (404 : ℤ) ≠ 301)
      · rw [lookupProgram]
        refine (hget req resp st rfl st.store g).bind ?_
        rintro g ⟨x | _ | v, store⟩ hfound url hurl
        · obtain ⟨-, hthrown, -⟩ := hurl
          cases hthrown
        · obtain ⟨-, -, h301, -⟩ := hurl
          exact absurd h301 (by decide : (404 : ℤ) ≠ 301)
        · obtain rfl := url_of_answersUrl hurl
          exact hfound v rfl

end Keeps

end KamaHttp
