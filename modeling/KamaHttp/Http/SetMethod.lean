import KamaHttp.Foundations.Machine
import KamaHttp.Http.HttpServer
import KamaHttp.Http.Message

/-!
# The assertion of `setMethod`

`setMethod` asserts that no method is set yet. A fresh request and a request behind `reset` have
none. A request line that is not accepted stays in the buffer, and the request keeps the method of
the line, so that the next event reads the line once more into the same request.

* `setMethodClean_iff_of_parseRequest`: which calls of the parser leave a method behind where the
  next call may set one.
* `along_asserts_iff`: in which runs the assertion holds at every call.
-/

namespace KamaHttp

open Search Loop HttpRequest HttpContext HttpServer

/-- An iteration from the state enters `setMethod`: the parser expects a request line, and the line
has a space. -/
def EntersSetMethod (s : HttpContext × Bytes) : Prop :=
  s.1.state = .kExpectRequestLine ∧ ∃ line rest, findCRLF s.2 = some (line, rest) ∧ 32 ∈ line

/-- No method is set where a request line is expected. -/
def SetMethodClean (c : HttpContext) : Prop :=
  c.state = .kExpectRequestLine → c.request.method = .kInvalid

/-- The parser is at a line that begins with a method and a space and is no request line. -/
def MethodRejected (c : HttpContext) (buf : Bytes) : Prop :=
  c.state = .kExpectRequestLine ∧ ∃ method target rest,
    findCRLF buf = some (method ++ 32 :: target, rest) ∧ methodOf method ≠ .kInvalid ∧
      ∀ l : RequestLine, l.text ≠ method ++ 32 :: target

variable {c : HttpContext} {buf : Bytes} {t : Timestamp} {p : ParseResult}

/-! ## One call of the parser -/

/-- Wherever the line is left, the request has its method. -/
theorem method_processRequestLine {line method rest : Bytes}
    (h : breakOn [32] line = some (method, rest)) (r : HttpRequest) :
    (processRequestLine r line).2.method = methodOf method := by
  simp only [processRequestLine, h, setMethod]
  by_cases hm : methodOf method = .kInvalid
  · simp only [ne_eq, hm, not_true_eq_false, decide_false, Bool.false_eq_true, if_false]
  · simp only [ne_eq, hm, not_false_eq_true, decide_true, if_true]
    rcases breakOn [32] rest with _ | ⟨target, version⟩
    · rfl
    · dsimp only
      split_ifs <;> rcases breakOn [63] target with _ | ⟨path, arguments⟩ <;> rfl

theorem method_processRequestLine_ne_iff {r : HttpRequest} (hr : r.method = .kInvalid)
    (line : Bytes) :
    (processRequestLine r line).2.method ≠ .kInvalid ↔
      ∃ method target, line = method ++ 32 :: target ∧ methodOf method ≠ .kInvalid := by
  rcases h : breakOn [32] line with _ | ⟨method, rest⟩
  · have hleft : (processRequestLine r line).2 = r := by simp only [processRequestLine, h]
    rw [hleft]
    refine iff_of_false (not_not.2 hr) ?_
    rintro ⟨method, target, rfl, -⟩
    exact breakOn_singleton_none.1 h (by simp)
  · rw [method_processRequestLine h]
    constructor
    · exact fun hm => ⟨method, rest, (breakOn_singleton_iff.1 h).1, hm⟩
    · rintro ⟨method', target, rfl, hm⟩
      rw [breakOn_singleton (space_not_mem_of_methodOf hm), Option.some.injEq, Prod.mk.injEq] at h
      rwa [← h.1]

/-- The parser expects a request line at the beginning of a call only. -/
theorem state_ne_of_next {s s' : HttpContext × Bytes} (h : parseIter t s = .next s') :
    s'.1.state ≠ .kExpectRequestLine := by
  cases iteration_of_eq h with
  | _ => exact fun hs => by cases hs

/-- A call that begins behind the request line ends behind it. -/
theorem state_ne_of_returns {s : HttpContext × Bytes} (h : Returns (parseIter t) s p)
    (hs : s.1.state ≠ .kExpectRequestLine) : p.context.state ≠ .kExpectRequestLine := by
  refine h.of_invariant (fun s => s.1.state ≠ .kExpectRequestLine)
    (Q := fun p => p.context.state ≠ .kExpectRequestLine) hs
    (fun _ _ _ hn => state_ne_of_next hn) fun s p hs hstop => ?_
  cases iteration_of_eq hstop with
  | noLine | badRequestLine => exact absurd rfl hs
  | _ => exact fun hs => by cases hs

/-- The parser leaves a line that is rejected in the buffer, with its method in the request. -/
theorem MethodRejected.eq_of_parseRequest (h : MethodRejected c buf)
    (hp : parseRequest c buf t = some p) :
    p.outcome = .rejected ∧ p.context.state = .kExpectRequestLine ∧
      p.context.request.method ≠ .kInvalid ∧ p.unread = buf := by
  obtain ⟨hc, method, target, rest, hb, hm, htext⟩ := h
  obtain ⟨state, r⟩ := c
  obtain rfl : state = .kExpectRequestLine := hc
  have hl : (processRequestLine r (method ++ 32 :: target)).1 = false := by
    refine Bool.eq_false_iff.2 fun hl => ?_
    obtain ⟨l, hl⟩ := exists_requestLine (isLine_of_findCRLF hb) hl
    exact htext l hl
  have hi := (Iteration.badRequestLine (t := t) hb hl).parseIter_eq
  obtain rfl := (returns_iff_of_stop hi).1 ((parseRequest_eq_some_iff (by simp)).1 hp)
  refine ⟨rfl, rfl, ?_, rfl⟩
  change (processRequestLine r (method ++ 32 :: target)).2.method ≠ .kInvalid
  rwa [method_processRequestLine (breakOn_singleton (space_not_mem_of_methodOf hm) target)]

/-- **A call leaves a method behind where the next one may set one** exactly if it finds a line that
is rejected behind its method. -/
theorem setMethodClean_iff_of_parseRequest (hp : parseRequest c buf t = some p)
    (hc : SetMethodClean c) : SetMethodClean p.context ↔ ¬ MethodRejected c buf := by
  refine ⟨fun hclean h => ?_, fun hnot => ?_⟩
  · obtain ⟨-, hstate, hmethod, -⟩ := h.eq_of_parseRequest hp
    exact hmethod (hclean hstate)
  have hret := (parseRequest_eq_some_iff (state_ne_of_parseRequest hp)).1 hp
  by_cases hstate : c.state = .kExpectRequestLine
  · obtain ⟨state, r⟩ := c
    obtain rfl : state = .kExpectRequestLine := hstate
    generalize hi : parseIter t (⟨.kExpectRequestLine, r⟩, buf) = x
    cases iteration_of_eq hi with
    | noLine hb =>
      obtain rfl := (returns_iff_of_stop hi).1 hret
      exact hc
    | requestLine hb hl =>
      have hnext := (returns_iff_of_next hi).1 hret
      exact fun h => absurd h (state_ne_of_returns hnext (by simp))
    | @badRequestLine _ _ line rest hb hl =>
      obtain rfl := (returns_iff_of_stop hi).1 hret
      refine fun _ => not_not.1 fun hmethod => hnot ?_
      obtain ⟨method, target, rfl, hm⟩ := (method_processRequestLine_ne_iff (hc rfl) line).1 hmethod
      refine ⟨rfl, method, target, rest, hb, hm, fun l hl' => ?_⟩
      rw [← hl', processRequestLine_text] at hl
      cases hl
  · exact fun h => absurd h (state_ne_of_returns hret hstate)

/-! ## One event -/

variable {κ : Type*} {httpCallback : HttpCallback κ} {conn conn' : Connection κ}
  {event next : Bytes × Timestamp}

/-- The assertion holds at every call of `setMethod` that the event makes. -/
def AssertionHolds (conn : Connection κ) (event : Bytes × Timestamp) : Prop :=
  ∀ s, Visits (parseIter event.2) (conn.context, conn.input ++ event.1) s → EntersSetMethod s →
    s.1.request.method = .kInvalid

theorem assertionHolds_of_clean (hc : SetMethodClean conn.context) : AssertionHolds conn event := by
  intro s hs henters
  have hclean : SetMethodClean s.1 := hs.of_invariant (fun s => SetMethodClean s.1) hc
    fun _ _ _ hn h => absurd h (state_ne_of_next hn)
  exact hclean henters.1

/-- A line that is rejected is read again by the next event. -/
theorem not_assertionHolds_of_rejected (h : onMessage httpCallback conn event = some conn')
    (hr : MethodRejected conn.context (conn.input ++ event.1)) : ¬ AssertionHolds conn' next := by
  obtain ⟨data, t⟩ := event
  -- the event answers 400, and the line is where it was
  obtain ⟨p, hp, rfl⟩ : ∃ p, parseRequest conn.context (conn.input ++ data) t = some p ∧
      conn' = badRequest (conn.read p) := by
    cases handled h with
    | refused hp _ _ => exact ⟨_, hp, rfl⟩
    | waits hp ho | served hp ho _ | failed hp ho _ =>
      rw [(hr.eq_of_parseRequest hp).1] at ho
      cases ho
  obtain ⟨-, hstate, hmethod, hunread⟩ := hr.eq_of_parseRequest hp
  obtain ⟨-, method, target, rest, hb, -⟩ := hr
  intro holds
  refine hmethod (holds _ .start ⟨hstate, method ++ 32 :: target, rest ++ next.1, ?_, by simp⟩)
  change findCRLF (p.unread ++ next.1) = _
  rw [hunread]
  exact findCRLF_append hb next.1

theorem setMethodClean_iff_of_onMessage (h : onMessage httpCallback conn event = some conn')
    (hc : SetMethodClean conn.context) :
    SetMethodClean conn'.context ↔ ¬ MethodRejected conn.context (conn.input ++ event.1) := by
  obtain ⟨data, t⟩ := event
  cases handled h with
  | waits hp _ => exact setMethodClean_iff_of_parseRequest hp hc
  | refused hp _ _ => exact setMethodClean_iff_of_parseRequest hp hc
  | served hp ho hcb =>
    rw [← setMethodClean_iff_of_parseRequest hp hc]
    have hstate := (Left.outcome_eq_complete.1 ho).2
    exact iff_of_true (fun _ => rfl) fun h => by rw [hstate] at h; cases h
  | failed hp _ _ => exact setMethodClean_iff_of_parseRequest hp hc

/-! ## Runs -/

section Runs

variable (httpCallback : HttpCallback κ) (app : κ)

/-- The assertion holds at every call of `setMethod` that the event behind `before` makes. -/
def Asserts (before : List (Bytes × Timestamp)) (event : Bytes × Timestamp) : Prop :=
  ∀ conn, onMessages httpCallback (Connection.new app) before = some conn →
    AssertionHolds conn event

/-- The event behind `before` does not find a line that is rejected behind its method. -/
def Accepts (before : List (Bytes × Timestamp)) (event : Bytes × Timestamp) : Prop :=
  ∀ conn, onMessages httpCallback (Connection.new app) before = some conn →
    ¬ MethodRejected conn.context (conn.input ++ event.1)

variable {httpCallback app} {events : List (Bytes × Timestamp)}

theorem setMethodClean_of_along (h : Along (Accepts httpCallback app) events)
    (hconn : onMessages httpCallback (Connection.new app) events = some conn) :
    SetMethodClean conn.context := by
  suffices ∀ conn, onMessages httpCallback (Connection.new app) events = some conn →
      SetMethodClean conn.context from this conn hconn
  refine h.invariant (I := fun events => ∀ conn,
    onMessages httpCallback (Connection.new app) events = some conn → SetMethodClean conn.context)
    ?_ ?_
  · intro conn hconn
    cases hconn
    exact fun _ => rfl
  · intro events event ih haccepts conn' hconn'
    rw [onMessages_concat, Option.bind_eq_some_iff] at hconn'
    obtain ⟨conn, hconn, hstep⟩ := hconn'
    exact (setMethodClean_iff_of_onMessage hstep (ih conn hconn)).2 (haccepts conn hconn)

/-- **In which runs the assertion of `setMethod` holds at every call**: those in which no event
before the last one has found a line that is rejected behind its method. -/
theorem along_asserts_iff (httpCallback : HttpCallback κ) (app : κ)
    (events : List (Bytes × Timestamp)) (event : Bytes × Timestamp) :
    Along (Asserts httpCallback app) (events ++ [event]) ↔
      Along (Accepts httpCallback app) events := by
  refine along_concat_iff (fun event conn hconn => ?_) fun events event next halong => ?_
  · cases hconn
    exact assertionHolds_of_clean fun _ => rfl
  constructor
  · -- a rejected line is there when the next event comes
    intro hasserts conn hconn hr
    obtain ⟨conn', hconn'⟩ : ∃ conn', onMessage httpCallback conn event = some conn' :=
      exists_onMessage httpCallback (by simp [hr.1]) event.1 event.2
    have hnext : onMessages httpCallback (Connection.new app) (events ++ [event]) = some conn' := by
      rw [onMessages_concat, hconn]
      exact hconn'
    exact not_assertionHolds_of_rejected hconn' hr (hasserts conn' hnext)
  · intro haccepts conn' hconn'
    rw [onMessages_concat, Option.bind_eq_some_iff] at hconn'
    obtain ⟨conn, hconn, hstep⟩ := hconn'
    have hclean := setMethodClean_of_along halong hconn
    exact assertionHolds_of_clean
      ((setMethodClean_iff_of_onMessage hstep hclean).2 (haccepts conn hconn))

/-- A callback that leaves the response as it is given. -/
def idle : HttpCallback Unit := fun _ response app => (.ok response, app)

/-- A GET of an unknown version is answered 400, and with the next byte `setMethod` is entered with
the method set. -/
theorem unknownVersion_asserts :
    ¬ Along (Asserts idle ()) [(bytes "GET /a HTTP/2.0\r\n", 0), (bytes "x", 0)] := by
  intro h
  have hasserts := h [(bytes "GET /a HTTP/2.0\r\n", 0)] (bytes "x", 0) [] rfl
  have hmethod := hasserts _ rfl _ .start
    ⟨rfl, bytes "GET /a HTTP/2.0", bytes "x", rfl, by decide⟩
  cases hmethod

end Runs

end KamaHttp
