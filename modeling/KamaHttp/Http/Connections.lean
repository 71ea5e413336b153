import Mathlib.Logic.Function.Basic
import KamaHttp.Http.HttpServer

/-!
# The connections of a server

Any number of connections share the state behind the callback. Each has a context and an input
buffer of its own. What is sent on any of them is recorded, each response with its request.

* `replies_of_onMessage`: the responses that are recorded are those whose text is sent.
* `of_reaches`: what the callback keeps of the state, and makes of every request, holds of every
  state and of every response of a run.
-/

namespace KamaHttp

open HttpContext HttpServer

variable {κ : Type*}

/-- The texts that `onRequest` has sent on the connection. -/
def Connection.replies (c : Connection κ) : List Bytes :=
  c.log.filterMap fun
    | .replied text => some text
    | _ => none

/-- The request that an event completes, with the response that `onRequest` hands to
`appendToBuffer`. -/
def responded (httpCallback : HttpCallback κ) (c : Connection κ) :
    Bytes × Timestamp → List (HttpRequest × HttpResponse)
  | (data, receiveTime) =>
    match parseRequest c.context (c.input ++ data) receiveTime with
    | none => []
    | some p =>
      if p.outcome = .complete then
        let req := p.context.request
        match httpCallback req (HttpResponse.new (close req)) c.app with
        | (.ok response, _) => [(req, finish req response)]
        | (.error _, _) => []
      else []

/-- The connections by number, the state behind the callback, and what has been sent. -/
structure Connections (κ : Type*) where
  conns : ℕ → HttpContext × Bytes
  app : κ
  sent : List (HttpRequest × HttpResponse)

/-- What happens to a server: a connection is opened, or bytes arrive on one. -/
inductive NetEvent
  | opened (i : ℕ)
  | received (i : ℕ) (data : Bytes) (receiveTime : Timestamp)

namespace Connections

/-- The connection `i`, as `onMessage` finds it. -/
def connection (s : Connections κ) (i : ℕ) : Connection κ :=
  ⟨(s.conns i).1, (s.conns i).2, s.app, []⟩

/-- The runs of a server, event by event, from states of the application with `Starts`. -/
def system (httpCallback : HttpCallback κ) (Starts : κ → Prop) :
    System (Connections κ) NetEvent where
  init s := (∀ i, s.conns i = (HttpContext.new, [])) ∧ Starts s.app ∧ s.sent = []
  step s e s' :=
    match e with
    | .opened i => s' = { s with conns := Function.update s.conns i (HttpContext.new, []) }
    | .received i data receiveTime =>
      ∃ c, onMessage httpCallback (s.connection i) (data, receiveTime) = some c ∧
        s' = ⟨Function.update s.conns i (c.context, c.input), c.app,
          s.sent ++ responded httpCallback (s.connection i) (data, receiveTime)⟩

end Connections

/-! ## One event -/

variable {httpCallback : HttpCallback κ} {c c' : Connection κ} {data : Bytes} {t : Timestamp}

theorem responded_of_not_complete {p : ParseResult}
    (hp : parseRequest c.context (c.input ++ data) t = some p) (hc : p.outcome ≠ .complete) :
    responded httpCallback c (data, t) = [] := by
  simp only [responded, hp, hc, if_false]

theorem responded_of_ok {p : ParseResult}
    (hp : parseRequest c.context (c.input ++ data) t = some p) (ho : p.outcome = .complete)
    {response : HttpResponse} {app : κ}
    (hcb : httpCallback p.context.request (HttpResponse.new (close p.context.request)) c.app =
      (.ok response, app)) :
    responded httpCallback c (data, t) =
      [(p.context.request, finish p.context.request response)] := by
  simp only [responded, hp, ho, if_true, hcb]

theorem responded_of_error {p : ParseResult}
    (hp : parseRequest c.context (c.input ++ data) t = some p) (ho : p.outcome = .complete)
    {e : StdException} {app : κ}
    (hcb : httpCallback p.context.request (HttpResponse.new (close p.context.request)) c.app =
      (.error e, app)) :
    responded httpCallback c (data, t) = [] := by
  simp only [responded, hp, ho, if_true, hcb]

/-- **The texts that an event sends are those of the responses it records.** -/
theorem replies_of_onMessage (h : onMessage httpCallback c (data, t) = some c') :
    c'.replies = c.replies ++ (responded httpCallback c (data, t)).map fun x =>
      x.2.appendToBuffer := by
  cases handled h with
  | waits hp ho =>
    have hc : Outcome.incomplete ≠ .complete := by simp
    rw [responded_of_not_complete hp (ho ▸ hc)]
    exact (List.append_nil _).symm
  | refused hp _ hc =>
    rw [responded_of_not_complete hp hc]
    simp [Connection.replies, badRequest, Connection.record, Connection.read]
  | served hp ho hcb =>
    rw [responded_of_ok hp ho hcb]
    simp only [Connection.replies, reply]
    split <;> simp
  | failed hp ho hcb =>
    rw [responded_of_error hp ho hcb]
    simp [Connection.replies, badRequest, Connection.record]

section Callback

variable {I : κ → Prop} {R : HttpRequest → HttpResponse → Prop}

/-- What the callback keeps, and makes of every request, holds behind an event. -/
theorem of_onMessage
    (hcallback : ∀ req w, I w → I (httpCallback req (HttpResponse.new (close req)) w).2 ∧
      ∀ r, (httpCallback req (HttpResponse.new (close req)) w).1 = .ok r → R req (finish req r))
    (h : onMessage httpCallback c (data, t) = some c') (hc : I c.app) :
    I c'.app ∧ ∀ x ∈ responded httpCallback c (data, t), R x.1 x.2 := by
  cases handled h with
  | waits hp ho =>
    have hne : Outcome.incomplete ≠ .complete := by simp
    rw [responded_of_not_complete hp (ho ▸ hne)]
    exact ⟨hc, fun x hx => by cases hx⟩
  | refused hp _ hne =>
    rw [responded_of_not_complete hp hne]
    exact ⟨hc, fun x hx => by cases hx⟩
  | @served p response app hp ho hcb =>
    obtain ⟨happ, hresponse⟩ := hcallback p.context.request c.app hc
    rw [hcb] at happ hresponse
    rw [responded_of_ok hp ho hcb]
    refine ⟨happ, fun x hx => ?_⟩
    rw [List.mem_singleton.1 hx]
    exact hresponse response rfl
  | @failed p e app hp ho hcb =>
    have happ := (hcallback p.context.request c.app hc).1
    rw [hcb] at happ
    rw [responded_of_error hp ho hcb]
    exact ⟨happ, fun x hx => by cases hx⟩

/-- **What the callback keeps, and makes of every request**, holds of the state and of the responses
of every run. -/
theorem Connections.of_reaches {Starts : κ → Prop} (hstarts : ∀ w, Starts w → I w)
    (hcallback : ∀ req w, I w → I (httpCallback req (HttpResponse.new (close req)) w).2 ∧
      ∀ r, (httpCallback req (HttpResponse.new (close req)) w).1 = .ok r → R req (finish req r))
    {s : Connections κ} (h : Reaches (Connections.system httpCallback Starts) Always s) :
    I s.app ∧ ∀ x ∈ s.sent, R x.1 x.2 := by
  refine h.invariant (I := fun s => I s.app ∧ ∀ x ∈ s.sent, R x.1 x.2) ?_ ?_
  · rintro s ⟨-, happ, hsent⟩
    refine ⟨hstarts _ happ, fun x hx => ?_⟩
    rw [hsent] at hx
    cases hx
  · rintro s e s' ⟨hI, hR⟩ - hs
    cases e with
    | opened i =>
      obtain rfl : s' = _ := hs
      exact ⟨hI, hR⟩
    | received i data t =>
      obtain ⟨c, hc, rfl⟩ := hs
      obtain ⟨happ, hnew⟩ := of_onMessage hcallback hc hI
      refine ⟨happ, fun x hx => ?_⟩
      rcases List.mem_append.1 hx with hx | hx
      · exact hR x hx
      · exact hnew x hx

end Callback

end KamaHttp
