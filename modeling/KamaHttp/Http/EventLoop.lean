import KamaHttp.Foundations.Machine
import KamaHttp.Http.HttpServer

/-!
# Calls of the parser that return

`parseRequest` runs in the event loop, which waits for it. Before `kGotAll` every iteration of its
loop leaves it or consumes a line. In `kGotAll` nothing happens, and the loop goes round for ever.
`onMessage` resets a context in `kGotAll` behind `onRequest`, but not where the callback throws.

* `state_ne_iff_of_onMessage`: an event leaves the parser in `kGotAll` exactly if the callback
  throws.
* `along_callReturns_iff`: in which runs every call of the parser returns.
-/

namespace KamaHttp

open Loop HttpContext HttpServer

/-- The order in which the parser goes through its states. -/
def HttpRequestParseState.rank : HttpRequestParseState → ℕ
  | .kExpectRequestLine => 0
  | .kExpectHeaders => 1
  | .kExpectBody => 2
  | .kGotAll => 3

/-- The iteration leaves the loop, or consumes some of the input, or advances the state. -/
def Progresses (t : Timestamp) (s : HttpContext × Bytes) : Prop :=
  ∀ s', parseIter t s = .next s' →
    s'.2.length < s.2.length ∨ s.1.state.rank < s'.1.state.rank

variable {κ : Type*} {httpCallback : HttpCallback κ} {c c' : Connection κ}
  {event : Bytes × Timestamp}

/-- The event completes a request on which the callback throws. -/
def CallbackThrows (httpCallback : HttpCallback κ) (c : Connection κ) :
    Bytes × Timestamp → Prop
  | (data, receiveTime) => ∃ p e app,
    parseRequest c.context (c.input ++ data) receiveTime = some p ∧ p.outcome = .complete ∧
      httpCallback p.context.request (HttpResponse.new (close p.context.request)) c.app =
        (.error e, app)

/-- Before `kGotAll` every iteration progresses, and there are only so many. -/
theorem progresses_of_visits {t : Timestamp} {s s' : HttpContext × Bytes}
    (hs : s.1.state ≠ .kGotAll) (h : Visits (parseIter t) s s') : Progresses t s' := by
  have hs' : s'.1.state ≠ .kGotAll :=
    h.of_invariant (fun s => s.1.state ≠ .kGotAll) hs fun _ _ ht hn => (parseIter_next ht hn).1
  exact fun _ hn => .inl (parseIter_next hs' hn).2

theorem not_progresses_of_gotAll {t : Timestamp} {r : HttpRequest} {buf : Bytes} :
    ¬ Progresses t (⟨.kGotAll, r⟩, buf) := by
  intro h
  rcases h _ (Iteration.gotAll (t := t)).parseIter_eq with hlt | hlt
  · exact Nat.lt_irrefl _ hlt
  · exact Nat.lt_irrefl _ hlt

/-- The loop returns exactly if it is not entered in `kGotAll`, and these are the calls in which
every iteration progresses. -/
theorem returns_iff_state_ne {c : HttpContext} {buf : Bytes} {t : Timestamp} :
    ((∃ p, Returns (parseIter t) (c, buf) p) ↔ c.state ≠ .kGotAll) ∧
      ((∀ s, Visits (parseIter t) (c, buf) s → Progresses t s) ↔ c.state ≠ .kGotAll) := by
  constructor
  · constructor
    · rintro ⟨p, hp⟩ hc
      obtain ⟨state, r⟩ := c
      obtain rfl : state = .kGotAll := hc
      exact diverges_of_next_self (Iteration.gotAll (t := t)).parseIter_eq p hp
    · intro hc
      obtain ⟨p, hp⟩ := exists_parseRequest hc buf t
      exact ⟨p, (parseRequest_eq_some_iff hc).1 hp⟩
  · constructor
    · rintro h hc
      obtain ⟨state, r⟩ := c
      obtain rfl : state = .kGotAll := hc
      exact not_progresses_of_gotAll (h _ .start)
    · exact fun hc s hs => progresses_of_visits hc hs

/-- **An event leaves the parser in `kGotAll` exactly if the callback throws.** -/
theorem state_ne_iff_of_onMessage (h : onMessage httpCallback c event = some c') :
    c'.context.state ≠ .kGotAll ↔ ¬ CallbackThrows httpCallback c event := by
  obtain ⟨data, t⟩ := event
  -- the outcome of the call, and of the callback on the request that is complete
  have hdet : ∀ {p p'}, parseRequest c.context (c.input ++ data) t = some p →
      parseRequest c.context (c.input ++ data) t = some p' → p = p' := fun hp hp' =>
    Option.some.inj (hp.symm.trans hp')
  cases handled h with
  | waits hp ho =>
    refine iff_of_true (Left.outcome_eq_incomplete.1 ho).2 ?_
    rintro ⟨p', e, app, hp', ho', -⟩
    rw [← hdet hp hp', ho] at ho'
    cases ho'
  | @refused p hp hi hc =>
    refine iff_of_true (state_ne_of_outcome_ne hp hc) ?_
    rintro ⟨p', e, app, hp', ho', -⟩
    exact hc (hdet hp hp' ▸ ho')
  | served hp ho hcb =>
    refine iff_of_true (fun hs => by cases hs) ?_
    rintro ⟨p', e, app, hp', -, hcb'⟩
    rw [← hdet hp hp', hcb] at hcb'
    cases hcb'
  | failed hp ho hcb =>
    refine iff_of_false (not_not.2 (Left.outcome_eq_complete.1 ho).2) (not_not.2 ?_)
    exact ⟨_, _, _, hp, ho, hcb⟩

/-! ## Runs -/

section Runs

variable (httpCallback : HttpCallback κ) (app : κ)

/-- The call of the parser behind the events `before` returns, and all its iterations progress. -/
def CallReturns (before : List (Bytes × Timestamp)) (event : Bytes × Timestamp) : Prop :=
  ∀ c, onMessages httpCallback (Connection.new app) before = some c →
    (∃ p, Returns (parseIter event.2) (c.context, c.input ++ event.1) p) ∧
      ∀ s, Visits (parseIter event.2) (c.context, c.input ++ event.1) s → Progresses event.2 s

/-- The callback returns on the request that the event completes, if it completes one. -/
def CallbackReturns (before : List (Bytes × Timestamp)) (event : Bytes × Timestamp) : Prop :=
  ∀ c, onMessages httpCallback (Connection.new app) before = some c →
    ¬ CallbackThrows httpCallback c event

variable {httpCallback app} {events : List (Bytes × Timestamp)} {event : Bytes × Timestamp}

theorem callReturns_iff_of_onMessages
    (h : onMessages httpCallback (Connection.new app) events = some c) :
    CallReturns httpCallback app events event ↔ c.context.state ≠ .kGotAll := by
  constructor
  · intro hcall
    exact returns_iff_state_ne.1.1 (hcall c h).1
  · intro hc c' hc'
    obtain rfl := Option.some.inj (h.symm.trans hc')
    exact ⟨returns_iff_state_ne.1.2 hc, returns_iff_state_ne.2.2 hc⟩

theorem state_new_ne (app : κ) : (Connection.new app).context.state ≠ .kGotAll := fun h => by
  cases h

/-- As long as the callback returns, so does `onMessage`, and the parser is not in `kGotAll`. -/
theorem exists_onMessages_of_along (h : Along (CallbackReturns httpCallback app) events) :
    ∃ c, onMessages httpCallback (Connection.new app) events = some c ∧
      c.context.state ≠ .kGotAll := by
  refine h.invariant (I := fun events => ∃ c,
    onMessages httpCallback (Connection.new app) events = some c ∧ c.context.state ≠ .kGotAll)
    ⟨_, rfl, state_new_ne app⟩ ?_
  rintro events ⟨data, t⟩ ⟨c, hc, hstate⟩ hreturns
  obtain ⟨c', hc'⟩ := exists_onMessage httpCallback hstate data t
  refine ⟨c', ?_, (state_ne_iff_of_onMessage hc').2 (hreturns c hc)⟩
  rw [onMessages_concat, hc]
  exact hc'

/-- **In which runs every call of the parser returns**: those in which the callback has returned on
every request that was complete before the last event. -/
theorem along_callReturns_iff (httpCallback : HttpCallback κ) (app : κ)
    (events : List (Bytes × Timestamp)) (event : Bytes × Timestamp) :
    Along (CallReturns httpCallback app) (events ++ [event]) ↔
      Along (CallbackReturns httpCallback app) events := by
  refine along_concat_iff (fun e => (callReturns_iff_of_onMessages rfl).2 (state_new_ne app)) ?_
  intro events e next halong
  -- the events before `e` return, so the next call starts where `e` leaves the parser
  obtain ⟨c, hc, hstate⟩ := exists_onMessages_of_along halong
  obtain ⟨c', hc'⟩ := exists_onMessage httpCallback hstate e.1 e.2
  have hnext : onMessages httpCallback (Connection.new app) (events ++ [e]) = some c' := by
    rw [onMessages_concat, hc]
    exact hc'
  rw [callReturns_iff_of_onMessages hnext, state_ne_iff_of_onMessage hc']
  constructor
  · intro hreturns c₁ hc₁
    rwa [← Option.some.inj (hc.symm.trans hc₁)]
  · intro hreturns
    exact hreturns c hc

/-- A callback that throws. -/
def throwing : HttpCallback Unit := fun _ _ _ => (.error (.runtimeError []), ())

/-- Behind a request on which the callback has thrown, the event loop is captured. -/
theorem throwing_captures :
    ¬ Along (CallReturns throwing ()) [(bytes "GET / HTTP/1.1\r\n\r\n", 0), (bytes "GET", 0)] := by
  intro h
  have hcall := h [(bytes "GET / HTTP/1.1\r\n\r\n", 0)] (bytes "GET", 0) [] rfl
  obtain ⟨c, hc, hstate⟩ : ∃ c, onMessages throwing (Connection.new ())
      [(bytes "GET / HTTP/1.1\r\n\r\n", 0)] = some c ∧ c.context.state = .kGotAll :=
    ⟨_, rfl, rfl⟩
  exact (callReturns_iff_of_onMessages hc).1 hcall hstate

end Runs

end KamaHttp
