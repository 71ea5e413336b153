import KamaHttp.Foundations.Throttle
import KamaHttp.Http.HttpServer
import KamaHttp.Http.Isolation

/-!
# Several requests on one connection

A client may send requests without waiting for the answers, and the network may deliver any number
of them in one segment. `onMessage` parses once an event, so it answers at most one request an
event; what is complete behind it stays in the buffer until more bytes arrive. The requests are
answered in order and none twice, as by a worker that takes one job a round.

* `Mirrors.waits`: a connection that waits stands where it would stand had it read nothing yet.
* `Position.step`: one event answers the next request, if it is complete by then.
* `calls_eq_requests_iff`: when all requests of a stream are answered.
-/

namespace KamaHttp

open Loop HttpContext HttpServer

/-- The bytes of a sequence of messages. -/
def texts (ms : List Message) : Bytes := (ms.map Message.text).flatten

@[simp] theorem texts_nil : texts [] = [] := rfl

@[simp] theorem texts_cons (m : Message) (ms : List Message) :
    texts (m :: ms) = m.text ++ texts ms := rfl

theorem texts_append (ms ms' : List Message) : texts (ms ++ ms') = texts ms ++ texts ms' := by
  simp [texts]

/-- The requests of a sequence of messages, without their receive times. Each is filled beside the
body and Content-Length that the one before it left. -/
def requestsFrom : Bytes → ℕ → List Message → List HttpRequest
  | _, _, [] => []
  | x, n, m :: ms =>
    let r := (m.fill (HttpRequest.new.carrying 0 x n) 0).untimed
    r :: requestsFrom r.content r.contentLength ms

/-- The requests of a connection on which the messages are sent. -/
def requests (ms : List Message) : List HttpRequest := requestsFrom [] 0 ms

@[simp] theorem length_requestsFrom (x : Bytes) (n : ℕ) (ms : List Message) :
    (requestsFrom x n ms).length = ms.length := by
  induction ms generalizing x n with
  | nil => rfl
  | cons m ms ih => simp [requestsFrom, ih]

/-- How many messages of a sequence its first `n` bytes hold completely. -/
def completed : List Message → ℕ → ℕ
  | [], _ => 0
  | m :: ms, n => if m.text.length ≤ n then completed ms (n - m.text.length) + 1 else 0

theorem completed_append (before after : List Message) (n : ℕ) :
    completed (before ++ after) ((texts before).length + n) =
      before.length + completed after n := by
  induction before with
  | nil => simp
  | cons m before ih =>
    have hlen : (texts (m :: before)).length + n - m.text.length = (texts before).length + n := by
      simp only [texts_cons, List.length_append]
      omega
    have hle : m.text.length ≤ (texts (m :: before)).length + n := by
      simp only [texts_cons, List.length_append]
      omega
    rw [List.cons_append, completed, if_pos hle, hlen, ih, List.length_cons]
    omega

theorem completed_texts (ms : List Message) : completed ms (texts ms).length = ms.length := by
  have h := completed_append ms [] 0
  simpa [completed] using h

theorem Message.length_text_pos (m : Message) : 0 < m.text.length :=
  List.length_pos_iff.2 m.text_ne_nil

theorem completed_zero (ms : List Message) : completed ms 0 = 0 := by
  cases ms with
  | nil => rfl
  | cons m ms =>
    have := m.length_text_pos
    rw [completed, if_neg (by omega)]

theorem Message.fill_untimed (m : Message) (r : HttpRequest) (t : Timestamp) :
    (m.fill r t).untimed = (m.fill r 0).untimed := by
  have h : ∀ t, (m.fillHead r t).untimed = (m.fillHead r 0).untimed := by
    intro t
    unfold fillHead
    induction m.fields using List.reverseRecOn with
    | nil => rfl
    | append_singleton fs f ih =>
      rw [HttpRequest.addFields_concat, HttpRequest.addFields_concat]
      simp only [HttpRequest.untimed, HttpRequest.mk.injEq, HttpRequest.addHeader] at ih ⊢
      simp [ih]
  have ht := h t
  unfold fill
  split
  · simp only [HttpRequest.untimed, HttpRequest.mk.injEq] at ht ⊢
    simp [ht]
  · exact ht

namespace HttpContext

/-! ## Where a connection stands -/

/-- From `c` with `buf` unread the parser goes on as from `c'` with `buf'` unread, the receive time
aside. -/
structure Mirrors (c : HttpContext) (buf : Bytes) (c' : HttpContext) (buf' : Bytes) : Prop where
  state : c.state ≠ .kGotAll
  state' : c'.state ≠ .kGotAll
  parse : ∀ s t, (parseRequest c (buf ++ s) t).map Left.untimed =
    (parseRequest c' (buf' ++ s) t).map Left.untimed

theorem Mirrors.refl {c : HttpContext} (hc : c.state ≠ .kGotAll) (buf : Bytes) :
    Mirrors c buf c buf := ⟨hc, hc, fun _ _ => rfl⟩

variable {c c' : HttpContext} {buf buf' s : Bytes} {t : Timestamp} {p : ParseResult}

/-- The calls on both sides end alike. -/
theorem Mirrors.exists_parseRequest (h : Mirrors c buf c' buf') (s : Bytes) (t : Timestamp) :
    ∃ p q, parseRequest c (buf ++ s) t = some p ∧ parseRequest c' (buf' ++ s) t = some q ∧
      p.untimed = q.untimed := by
  obtain ⟨p, hp⟩ := HttpContext.exists_parseRequest h.state (buf ++ s) t
  obtain ⟨q, hq⟩ := HttpContext.exists_parseRequest h.state' (buf' ++ s) t
  have he := h.parse s t
  rw [hp, hq, Option.map_some, Option.map_some, Option.some.injEq] at he
  exact ⟨p, q, hp, hq, he⟩

/-- **A call that waits leaves the parser where it would stand had it read nothing yet.** -/
theorem Mirrors.waits (h : Mirrors c buf c' buf') (hp : parseRequest c (buf ++ s) t = some p)
    (hw : p.outcome = .incomplete) : Mirrors p.context p.unread c' (buf' ++ s) := by
  refine ⟨(Left.outcome_eq_incomplete.1 hw).2, h.state', fun s' t' => ?_⟩
  rw [parseRequest_untimed rfl _ t' t, parseRequest_resumed h.state hp hw, List.append_assoc,
    parseRequest_untimed rfl _ t t', h.parse, List.append_assoc]

/-- The parser completes a message that is there. -/
theorem parseRequest_leftover_text (m : Message) (x : Bytes) (n : ℕ) (rest : Bytes)
    (t : Timestamp) : parseRequest (leftover x n) (m.text ++ rest) t =
      some ⟨.ok true, ⟨.kGotAll, m.fill (HttpRequest.new.carrying 0 x n) t⟩, rest⟩ :=
  (parseRequest_eq_some_iff_reads (leftover_state x n)).2 (reads_message m rfl rest)

/-- The parser waits for the end of a message that is not there yet. -/
theorem parseRequest_leftover_waits {ms : List Message} {rest : Bytes}
    (h : buf ++ rest = texts ms) (hms : ∀ m ∈ ms.head?, buf.length < m.text.length) {x : Bytes}
    {n : ℕ} (hp : parseRequest (leftover x n) buf t = some p) : p.outcome = .incomplete := by
  have hr := (parseRequest_eq_some_iff_reads (leftover_state x n)).1 hp
  cases ms with
  | nil =>
    obtain rfl : buf = [] := (List.append_eq_nil_iff.1 h).1
    have hnone : findCRLF ([] : Bytes) = none := rfl
    have hi := (Iteration.noLine (t := t) (r := HttpRequest.new.carrying 0 x n) hnone).parseIter_eq
    rw [(returns_iff_of_stop hi).1 hr]
    rfl
  | cons m ms =>
    have hlt : buf.length < m.text.length := hms m rfl
    obtain ⟨u, hu⟩ : buf <+: m.text :=
      List.prefix_of_prefix_length_le ⟨rest, h⟩ (List.prefix_append _ _) hlt.le
    have hne : u ≠ [] := by
      rintro rfl
      rw [List.append_nil] at hu
      rw [hu] at hlt
      exact lt_irrefl _ hlt
    have hm := reads_message (t := t) (r := HttpRequest.new.carrying 0 x n) m rfl []
    rw [List.append_nil, ← hu] at hm
    exact Reader.waits_of_reads_append hm rfl hne hr

end HttpContext

namespace HttpServer

variable {κ : Type*} {httpCallback : HttpCallback κ}

/-! ## The runs of a connection -/

/-- Of the messages `msgs`, the bytes `arrived` have been delivered and the first `d` requests have
been answered; the parser stands where the messages behind them begin. -/
def Position (msgs : List Message) (arrived : Bytes) (d : ℕ) (c : Connection κ) : Prop :=
  ∃ before after x n pending, msgs = before ++ after ∧ before.length = d ∧
    arrived = texts before ++ pending ∧ c.calls.map HttpRequest.untimed = requests before ∧
    (∀ ms, requests (before ++ ms) = requests before ++ requestsFrom x n ms) ∧
    Mirrors c.context c.input (leftover x n) pending

theorem Position.new (msgs : List Message) (w : κ) : Position msgs [] 0 (Connection.new w) :=
  ⟨[], msgs, [], 0, [], rfl, rfl, rfl, rfl, fun _ => rfl, Mirrors.refl (leftover_state [] 0) []⟩

/-- The requests that were answered are the first of the stream. -/
theorem Position.calls_eq {msgs : List Message} {arrived : Bytes} {d : ℕ} {c : Connection κ}
    (h : Position msgs arrived d c) : c.calls.map HttpRequest.untimed = (requests msgs).take d := by
  obtain ⟨before, after, x, n, pending, rfl, rfl, -, hcalls, hreq, -⟩ := h
  have hlen : (requests before).length = before.length := length_requestsFrom [] 0 before
  rw [hcalls, hreq, ← hlen, List.take_left]

theorem calls_served (c : Connection κ) (p : ParseResult) (req : HttpRequest)
    (response : HttpResponse) (w : κ) :
    (⟨p.context.reset, p.unread, w, c.log ++ .called req :: reply req response⟩ :
      Connection κ).calls = c.calls ++ [req] := by
  simp only [Connection.calls, reply, List.filterMap_append]
  split <;> rfl

/-- The request of a message that is complete in the buffer is answered. -/
theorem onMessage_of_complete
    (hcb : ∀ req resp w, ∃ resp' w', httpCallback req resp w = (.ok resp', w')) {c : Connection κ}
    {data : Bytes} {t : Timestamp} {p : ParseResult}
    (hp : parseRequest c.context (c.input ++ data) t = some p) (ho : p.outcome = .complete) :
    ∃ response w, onMessage httpCallback c (data, t) = some ⟨p.context.reset, p.unread, w,
      c.log ++ .called p.context.request :: reply p.context.request response⟩ := by
  have hc := state_ne_of_parseRequest hp
  obtain ⟨c', hc'⟩ := exists_onMessage httpCallback hc data t
  obtain ⟨response, w, hok⟩ := hcb p.context.request (HttpResponse.new (close p.context.request))
    c.app
  refine ⟨response, w, ?_⟩
  rw [hc', Option.some.injEq]
  cases handled hc' with
  | waits hp' ho' => grind
  | refused hp' _ ho' => grind
  | failed hp' _ hcb' => grind
  | served hp' ho' hcb' => grind

/-- An event behind which the parser waits changes nothing but its position. -/
theorem onMessage_of_incomplete {c : Connection κ} (hc : c.context.state ≠ .kGotAll) {data : Bytes}
    {t : Timestamp} {p : ParseResult} (hp : parseRequest c.context (c.input ++ data) t = some p)
    (ho : p.outcome = .incomplete) : onMessage httpCallback c (data, t) = some (c.read p) := by
  obtain ⟨c', hc'⟩ := exists_onMessage httpCallback hc data t
  rw [hc', Option.some.injEq]
  cases handled hc' with
  | waits hp' _ => grind
  | refused hp' _ _ => grind
  | failed hp' ho' _ => grind
  | served hp' ho' _ => grind

/-- **One event answers the next request, if it is complete by then.** -/
theorem Position.step (hcb : ∀ req resp w, ∃ resp' w', httpCallback req resp w = (.ok resp', w'))
    {msgs : List Message} {arrived data : Bytes} {d : ℕ} {c : Connection κ} (t : Timestamp)
    (h : Position msgs arrived d c) (hs : arrived ++ data <+: texts msgs) :
    ∃ c', onMessage httpCallback c (data, t) = some c' ∧
      Position msgs (arrived ++ data) (min (d + 1) (completed msgs (arrived ++ data).length))
        c' := by
  obtain ⟨before, after, x, n, pending, rfl, rfl, rfl, hcalls, hreq, hmir⟩ := h
  obtain ⟨p, q, hp, hq, he⟩ := hmir.exists_parseRequest data t
  have hcount : completed (before ++ after) (texts before ++ pending ++ data).length =
      before.length + completed after (pending ++ data).length := by
    rw [List.append_assoc, List.length_append, completed_append]
  obtain ⟨rest, hrest⟩ : pending ++ data <+: texts after := by
    rwa [texts_append, List.append_assoc, List.prefix_append_right_inj] at hs
  rw [hcount]
  by_cases hfull : ∀ m ∈ after.head?, (pending ++ data).length < m.text.length
  · -- the next message is not complete: the parser waits
    have hw : p.outcome = .incomplete := by
      rw [Left.outcome_eq_of_untimed he]
      exact parseRequest_leftover_waits hrest hfull hq
    refine ⟨c.read p, onMessage_of_incomplete hmir.state hp hw, before, after, x, n,
      pending ++ data, rfl, ?_, by rw [List.append_assoc], hcalls, hreq, hmir.waits hp hw⟩
    have hzero : completed after (pending ++ data).length = 0 := by
      cases after with
      | nil => rfl
      | cons m after => exact if_neg (Nat.not_le.2 (hfull m rfl))
    omega
  · obtain ⟨m, after, rfl⟩ : ∃ m ms, after = m :: ms := by
      cases after with
      | nil => exact absurd (by simp) hfull
      | cons m ms => exact ⟨m, ms, rfl⟩
    have hle : m.text.length ≤ (pending ++ data).length := by simpa using hfull
    obtain ⟨pending', hpending⟩ : m.text <+: pending ++ data :=
      List.prefix_of_prefix_length_le (List.prefix_append _ _) ⟨rest, hrest⟩ hle
    -- the next message is complete: its request is answered and the context reset
    rw [← hpending, parseRequest_leftover_text, Option.some.injEq] at hq
    subst hq
    have ho : p.outcome = .complete := Left.outcome_eq_of_untimed he
    obtain ⟨response, w, hon⟩ := onMessage_of_complete hcb hp ho
    have hreqeq : p.context.request.untimed =
        (m.fill (HttpRequest.new.carrying 0 x n) 0).untimed := by
      have h := (untimed_eq_iff.1 (congrArg (fun p : ParseResult => p.context) he)).2
      exact h.trans (m.fill_untimed _ t)
    have hunread : p.unread = pending' := congrArg (fun p : ParseResult => p.unread) he
    have hres := HttpRequest.residue_eq_of_untimed_eq hreqeq
    have hreq' : ∀ ms, requests (before ++ [m] ++ ms) = requests (before ++ [m]) ++
        requestsFrom p.context.request.content p.context.request.contentLength ms := by
      intro ms
      rw [List.append_assoc, List.singleton_append, hreq, hreq, List.append_assoc, hres.1, hres.2]
      rfl
    refine ⟨_, hon, before ++ [m], after, p.context.request.content,
      p.context.request.contentLength, pending', by simp, ?_, ?_, ?_, hreq', ?_⟩
    · have hpos : 0 < completed (m :: after) (pending ++ data).length := by
        rw [completed, if_pos hle]
        omega
      rw [List.length_append, List.length_singleton]
      omega
    · rw [texts_append, List.append_assoc, List.append_assoc, ← hpending]
      simp
    · rw [calls_served, List.map_append, hcalls, hreq, List.map_singleton, hreqeq]
      rfl
    · rw [hunread, reset_eq_leftover]
      exact Mirrors.refl (leftover_state _ _) pending'

/-- How many requests of a stream are complete after the first `j` of the events. -/
def ready (msgs : List Message) (events : List (Bytes × Timestamp)) (j : ℕ) : ℕ :=
  completed msgs (stream (events.take j)).length

theorem ready_zero (msgs : List Message) (events : List (Bytes × Timestamp)) :
    ready msgs events 0 = 0 := completed_zero msgs

theorem stream_append (events events' : List (Bytes × Timestamp)) :
    stream (events ++ events') = stream events ++ stream events' := by
  simp [stream]

/-- **After `j` events the connection has answered what a worker that takes one job a round has
taken after `j` rounds.** -/
theorem exists_position (server : HttpServer κ) (w : κ) {msgs : List Message}
    {events : List (Bytes × Timestamp)} (h : stream events = texts msgs) {j : ℕ}
    (hj : j ≤ events.length) :
    ∃ c, onMessages server.handleRequest (Connection.new w) (events.take j) = some c ∧
      Position msgs (stream (events.take j)) (taken (ready msgs events) j) c := by
  induction j with
  | zero => exact ⟨Connection.new w, rfl, Position.new msgs w⟩
  | succ j ih =>
    obtain ⟨c, hc, hpos⟩ := ih (by omega)
    obtain ⟨⟨data, t⟩, he⟩ : ∃ e, events.take (j + 1) = events.take j ++ [e] :=
      ⟨events[j], (List.take_append_getElem hj).symm⟩
    have harrived : stream (events.take j) ++ data = stream (events.take (j + 1)) := by
      rw [he, stream_append]
      simp
    have hpre : stream (events.take j) ++ data <+: texts msgs := by
      refine ⟨stream (events.drop (j + 1)), ?_⟩
      rw [harrived, ← stream_append, List.take_append_drop, h]
    obtain ⟨c', hc', hpos'⟩ := hpos.step server.handleRequest_eq_ok t hpre
    refine ⟨c', ?_, ?_⟩
    · simp only [onMessages] at hc ⊢
      rw [he, List.foldlM_append, hc]
      simpa using hc'
    · rw [harrived] at hpos'
      exact hpos'

/-- **When all requests of a stream are answered.** A stream of complete requests, cut into events
in any way, ends with every request handed to the callback, once and in order, exactly when from no
event on more requests become complete than events are left. -/
theorem calls_eq_requests_iff (server : HttpServer κ) (w : κ) (msgs : List Message)
    (events : List (Bytes × Timestamp)) (h : stream events = texts msgs) :
    ∃ c, onMessages server.handleRequest (Connection.new w) events = some c ∧
      (c.calls.map HttpRequest.untimed = requests msgs ↔
        ∀ j ≤ events.length, msgs.length - ready msgs events j ≤ events.length - j) := by
  obtain ⟨c, hc, hpos⟩ := exists_position server w h le_rfl
  rw [List.take_length] at hc hpos
  refine ⟨c, hc, ?_⟩
  have hready : ready msgs events events.length = msgs.length := by
    rw [ready, List.take_length, h, completed_texts]
  have hle : taken (ready msgs events) events.length ≤ msgs.length :=
    hready ▸ taken_le_ready events.length
  have hlen : (requests msgs).length = msgs.length := length_requestsFrom [] 0 msgs
  have hiff := taken_eq_iff (ready_zero msgs events) events.length
  rw [hready] at hiff
  rw [hpos.calls_eq, ← hiff, List.take_eq_self_iff, hlen]
  omega

/-- The message `GET / HTTP/1.1` without fields. -/
def getRoot : Message := .get (bytes "/") [] (by decide) (by decide)

theorem calls_eq_requests_iff_getRoot :
    ∃ c, onMessages (handleRequest ⟨[], Router.empty⟩) (Connection.new ())
        [(getRoot.text, 1), (getRoot.text, 2)] = some c ∧
      (c.calls.map HttpRequest.untimed = requests [getRoot, getRoot] ↔
        ∀ j ≤ [(getRoot.text, (1 : Timestamp)), (getRoot.text, 2)].length,
          [getRoot, getRoot].length -
              ready [getRoot, getRoot] [(getRoot.text, 1), (getRoot.text, 2)] j ≤
            [(getRoot.text, (1 : Timestamp)), (getRoot.text, 2)].length - j) :=
  calls_eq_requests_iff ⟨[], Router.empty⟩ () [getRoot, getRoot]
    [(getRoot.text, 1), (getRoot.text, 2)] (by decide)

/-- Two requests in one segment: the second is complete in the buffer and is not answered. In two
segments both are. -/
theorem second_request_unanswered :
    ∃ c c', onMessages (handleRequest ⟨[], Router.empty⟩) (Connection.new ())
        [(getRoot.text ++ getRoot.text, 1)] = some c ∧
      onMessages (handleRequest ⟨[], Router.empty⟩) (Connection.new ())
        [(getRoot.text, 1), (getRoot.text, 2)] = some c' ∧
      c.calls.length = 1 ∧ c.input = getRoot.text ∧ c'.calls.length = 2 :=
  ⟨_, _, rfl, rfl, rfl, rfl, rfl⟩

end HttpServer

end KamaHttp
