import KamaHttp.Http.Message

/-!
# One request after the other on a connection

Between two requests of a connection its context is `reset`. `HttpRequest::swap` does not exchange
the body and the Content-Length, so a reset context is a fresh one beside a residue: what earlier
requests left in these two fields. Handing the request out to the callback changes neither, as the
callback sees it through a `const` reference.

* `Served.exists_residue`: the residue of a served connection is empty exactly when none of its
  requests carried a body.
* `Served.exists_received`: the requests of a connection are those of messages, filled beside a
  residue (`Received`).
* `request_isolation_iff`: the next request is the one a fresh context yields exactly when the
  residue is empty or the request carries a body of its own, which replaces it.
-/

namespace KamaHttp

open Loop HttpRequest

/-- A complete request with a body that is not empty stands at the front of the bytes. -/
def CarriesBody (buf : Bytes) : Prop := ∃ m : Message, m.body ≠ [] ∧ m.text <+: buf

namespace HttpContext

/-- The contexts of a connection between requests, with the bytes each request was read from:
fed chunk by chunk until the parser completed, then reset. Histories in which the parser refused
something are left out, also those in which a request was completed behind that: a connection that
has been answered 400 still receives. -/
inductive Served : List Bytes → HttpContext → Prop
  | new : Served [] HttpContext.new
  | request {history c buf chunks p} (h : Served history c) (hp : feed c buf chunks = some p)
      (hd : p.outcome = .complete) : Served ((buf ++ stream chunks) :: history) p.context.reset

/-- A fresh context beside a residue. -/
def leftover (x : Bytes) (n : ℕ) : HttpContext :=
  ⟨.kExpectRequestLine, HttpRequest.new.carrying 0 x n⟩

theorem reset_eq_leftover (c : HttpContext) :
    c.reset = leftover c.request.content c.request.contentLength := rfl

theorem leftover_state (x : Bytes) (n : ℕ) : (leftover x n).state ≠ .kGotAll := by
  intro h
  cases h

variable {t : Timestamp} {c : HttpContext} {buf x : Bytes} {n : ℕ} {p : ParseResult}

/-- The body is written when the parser completes, and at no other time. -/
theorem content_of_not_complete (h : (httpReader t).Reads c buf p) (hp : p.outcome ≠ .complete) :
    p.context.request.content = c.request.content := by
  refine Returns.of_invariant (fun s => s.1.request.content = c.request.content)
    (Q := fun p => p.outcome ≠ .complete → p.context.request.content = c.request.content)
    h rfl (fun s s' hs hi => ?_) (fun s p hs hi hp => ?_) hp
  · cases iteration_of_eq hi with
    | @requestLine r _ line _ _ _ => exact (processRequestLine_residue r line).1.trans hs
    | _ => exact hs
  · cases iteration_of_eq hi with
    | @badRequestLine r _ line _ _ _ => exact (processRequestLine_residue r line).1.trans hs
    | body _ => exact absurd rfl hp
    | _ => exact hs

/-- What one call does beside a residue: a body replaces it, and without one it stays. -/
theorem parseRequest_leftover (h : parseRequest (leftover x n) buf t = some p) :
    (CarriesBody buf ∧ p.context.request.content ≠ []) ∨
      (¬ CarriesBody buf ∧ p.context.request.content = x ∧ (p.outcome = .complete →
        p.context.request.contentLength = n ∨ p.context.request.contentLength = 0)) := by
  have hr := (parseRequest_eq_some_iff_reads (leftover_state x n)).1 h
  have hnone : (HttpRequest.new.carrying 0 x n).headers = ∅ := rfl
  by_cases hb : CarriesBody buf
  · obtain ⟨m, hm, rest, rfl⟩ := hb
    have he := Returns.deterministic hr (reads_message m hnone rest)
    refine .inl ⟨⟨m, hm, rest, rfl⟩, ?_⟩
    rw [he, m.fill_content, if_neg hm]
    exact hm
  · refine .inr ⟨hb, ?_⟩
    by_cases hp : p.outcome = .complete
    · obtain ⟨m, hbuf, he⟩ := exists_message hnone hr hp
      have hm : m.body = [] := by
        by_contra hm
        exact hb ⟨m, hm, p.unread, hbuf.symm⟩
      rw [he, m.fill_content, m.fill_contentLength, if_pos hm, hm]
      refine ⟨rfl, fun _ => ?_⟩
      split
      · exact .inr rfl
      · exact .inl rfl
    · exact ⟨content_of_not_complete hr hp, fun h => absurd h hp⟩

/-- The chunks are read as their concatenation is: the request is the one of a single call. -/
theorem exists_feed_leftover (x : Bytes) (n : ℕ) (buf : Bytes) {chunks : List (Bytes × Timestamp)}
    (hne : chunks ≠ []) :
    ∃ p q, feed (leftover x n) buf chunks = some p ∧
      parseRequest (leftover x n) (buf ++ stream chunks) 0 = some q ∧ p.untimed = q.untimed := by
  obtain ⟨q, hq⟩ := exists_parseRequest (leftover_state x n) (buf ++ stream chunks) 0
  have h := feed_untimed (leftover_state x n) buf hne 0
  rw [hq] at h
  obtain ⟨p, hp, he⟩ := Option.map_eq_some_iff.1 h
  exact ⟨p, q, hp, hq, he⟩

/-- A complete request that arrives in chunks is the one of a single call. -/
theorem exists_parseRequest_of_feed_leftover {chunks : List (Bytes × Timestamp)}
    (hp : feed (leftover x n) buf chunks = some p) (hd : p.outcome = .complete) :
    ∃ q, parseRequest (leftover x n) (buf ++ stream chunks) 0 = some q ∧
      p.untimed = q.untimed ∧ q.outcome = .complete := by
  have hne : chunks ≠ [] := by
    rintro rfl
    cases hp
    cases hd
  obtain ⟨p', q, hp', hq, he⟩ := exists_feed_leftover x n buf hne
  obtain rfl : p = p' := Option.some.inj (hp.symm.trans hp')
  exact ⟨q, hq, he, (Left.outcome_eq_of_untimed he).symm.trans hd⟩

/-- **The residue of a served connection is empty exactly when none of its requests carried a
body.** -/
theorem Served.exists_residue {history : List Bytes} (h : Served history c) :
    ∃ x n, c = leftover x n ∧ (x = [] ↔ ∀ m ∈ history, ¬ CarriesBody m) ∧ (x = [] → n = 0) := by
  induction h with
  | new => exact ⟨[], 0, rfl, by simp, fun _ => rfl⟩
  | @request history c buf chunks p h hp hd ih =>
    obtain ⟨x, n, rfl, hx, hn⟩ := ih
    refine ⟨_, _, reset_eq_leftover _, ?_⟩
    obtain ⟨q, hq, he, hd'⟩ := exists_parseRequest_of_feed_leftover hp hd
    have hres := HttpRequest.residue_eq_of_untimed_eq
      (untimed_eq_iff.1 (congrArg (fun p : ParseResult => p.context) he)).2
    rw [hres.1, hres.2]
    rcases parseRequest_leftover hq with ⟨hb, hc⟩ | ⟨hb, hc, hl⟩
    · exact ⟨⟨fun h => absurd h hc, fun h => absurd hb (h _ (by simp))⟩, fun h => absurd h hc⟩
    · rw [hc]
      refine ⟨⟨fun h m hm => ?_, fun h => hx.2 fun m hm => h m (by simp [hm])⟩, fun h => ?_⟩
      · rcases List.mem_cons.1 hm with rfl | hm
        · exact hb
        · exact hx.1 h m hm
      · exact (hl hd').elim (fun h' => h'.trans (hn h)) id

/-- A request as the parser produces it: a message that was read at some time, beside what the
connection had left. -/
structure Received where
  message : Message
  content : Bytes
  contentLength : ℕ
  receiveTime : Timestamp

def Received.request (w : Received) : HttpRequest :=
  w.message.fill (HttpRequest.new.carrying 0 w.content w.contentLength) w.receiveTime

theorem Received.method_request (w : Received) :
    w.request.method = methodOf w.message.line.method :=
  w.message.fill_method _ _

theorem Received.path_request (w : Received) : w.request.path = w.message.line.path :=
  w.message.fill_path _ _

theorem Received.getHeader_request (w : Received) (name : Bytes) :
    w.request.getHeader name = (lastValue name w.message.fields).getD [] :=
  w.message.getHeader_fill rfl w.receiveTime name

/-- **The requests of a connection are those of messages.** -/
theorem Served.exists_received {history : List Bytes} (h : Served history c)
    {chunks : List (Bytes × Timestamp)} (hp : feed c buf chunks = some p)
    (hd : p.outcome = .complete) :
    ∃ w : Received, w.message.text <+: buf ++ stream chunks ∧
      p.context.request.untimed = w.request.untimed := by
  obtain ⟨x, n, rfl, -, -⟩ := h.exists_residue
  obtain ⟨q, hq, he, hd'⟩ := exists_parseRequest_of_feed_leftover hp hd
  have hreads := (parseRequest_eq_some_iff_reads (leftover_state x n)).1 hq
  obtain ⟨m, hbuf, hm⟩ := exists_message rfl hreads hd'
  refine ⟨⟨m, x, n, 0⟩, ⟨q.unread, hbuf.symm⟩, ?_⟩
  have hreq := (untimed_eq_iff.1 (congrArg (fun p : ParseResult => p.context) he)).2
  rw [hreq, hm]
  rfl

/-- Beside a residue and on its own, the parser fills requests that agree exactly when there is no
residue or the request carries a body. -/
theorem feed_leftover_iff (hn : x = [] → n = 0) (buf : Bytes)
    {chunks : List (Bytes × Timestamp)} (hne : chunks ≠ []) :
    ∃ p q, feed (leftover x n) buf chunks = some p ∧ feed HttpContext.new buf chunks = some q ∧
      (p.context.request.untimed = q.context.request.untimed ↔
        x = [] ∨ CarriesBody (buf ++ stream chunks)) := by
  obtain ⟨p, p', hp, hp', hpe⟩ := exists_feed_leftover x n buf hne
  obtain ⟨q, q', hq, hq', hqe⟩ := exists_feed_leftover [] 0 buf hne
  refine ⟨p, q, hp, hq, ?_⟩
  have hpr := (untimed_eq_iff.1 (congrArg (fun p : ParseResult => p.context) hpe)).2
  have hqr := (untimed_eq_iff.1 (congrArg (fun p : ParseResult => p.context) hqe)).2
  rw [hpr, hqr]
  rcases parseRequest_leftover hp' with ⟨hb, hc⟩ | ⟨hb, hc, -⟩
  · -- the body that is there replaces both residues
    refine iff_of_true ?_ (.inr hb)
    have hreads := (parseRequest_eq_some_iff_reads (leftover_state x n)).1 hp'
    have hpar : Parallel x [] n 0 (leftover x n, buf ++ stream chunks)
        (leftover [] 0, buf ++ stream chunks) :=
      ⟨rfl, rfl, rfl, rfl, rfl, .inr ⟨by simp [leftover], rfl, rfl⟩⟩
    obtain ⟨q'', hq'', hres⟩ := reads_parallel 0 hpar hreads
    have he := (parseRequest_eq_some_iff_reads (leftover_state [] 0)).2 hq''
    obtain rfl : q' = q'' := Option.some.inj (hq'.symm.trans he)
    have hc' : q'.context.request.content ≠ [] := by
      rcases parseRequest_leftover hq' with ⟨-, hc'⟩ | ⟨hb', -⟩
      · exact hc'
      · exact absurd hb hb'
    rcases hres.residue with ⟨h₁, h₂⟩ | ⟨-, h, -⟩
    · exact hres.head.untimed_eq h₁ h₂
    · exact absurd h hc'
  · have hc' : q'.context.request.content = [] := by
      rcases parseRequest_leftover hq' with ⟨hb', -⟩ | ⟨-, hc', -⟩
      · exact absurd hb' hb
      · exact hc'
    constructor
    · intro h
      rw [← hc, (HttpRequest.residue_eq_of_untimed_eq h).1, hc']
      exact .inl rfl
    · rintro (rfl | hb')
      · obtain rfl := hn rfl
        rw [Option.some.inj (hp'.symm.trans hq')]
      · exact absurd hb' hb

/-- **When a request on a used connection is the one a fresh context yields.** On the same bytes, in
the same chunks, the two agree in every field but the receive time exactly when no earlier request
of the connection carried a body, or this one carries a body itself. -/
theorem request_isolation_iff {history : List Bytes} (h : Served history c) (buf s : Bytes)
    (t : Timestamp) (chunks : List (Bytes × Timestamp)) :
    ∃ p q, feed c buf ((s, t) :: chunks) = some p ∧
      feed HttpContext.new buf ((s, t) :: chunks) = some q ∧
      (p.context.request.untimed = q.context.request.untimed ↔
        (∀ m ∈ history, ¬ CarriesBody m) ∨ CarriesBody (buf ++ stream ((s, t) :: chunks))) := by
  obtain ⟨x, n, rfl, hx, hn⟩ := h.exists_residue
  obtain ⟨p, q, hp, hq, hiff⟩ :=
    feed_leftover_iff hn buf (List.cons_ne_nil (s, t) chunks)
  exact ⟨p, q, hp, hq, hiff.trans (or_congr hx Iff.rfl)⟩

/-- A POST with a body of one byte. -/
def postOne : Bytes := bytes "POST / HTTP/1.1\r\nContent-Length: 1\r\n\r\nx"

/-- A connection that has served `postOne`. -/
theorem served_postOne : Served [postOne] (leftover (bytes "x") 1) := by
  have hp : feed HttpContext.new [] [(postOne, 1)] = some ⟨.ok true, ⟨.kGotAll, _⟩, []⟩ := rfl
  exact .request .new hp rfl

theorem request_isolation_iff_postOne :
    Served [postOne] (leftover (bytes "x") 1) ∧
      ∃ p q, feed (leftover (bytes "x") 1) [] [(postOne, 2)] = some p ∧
        feed HttpContext.new [] [(postOne, 2)] = some q ∧
        (p.context.request.untimed = q.context.request.untimed ↔
          (∀ m ∈ [postOne], ¬ CarriesBody m) ∨ CarriesBody ([] ++ stream [(postOne, 2)])) :=
  ⟨served_postOne, request_isolation_iff served_postOne [] postOne 2 []⟩

/-- The body of a POST and its length are still there in the GET that follows. -/
theorem get_keeps_body_of_post :
    ∃ c p q, Served [postOne] c ∧
      feed c [] [(bytes "GET / HTTP/1.1\r\n\r\n", 2)] = some p ∧
      feed HttpContext.new [] [(bytes "GET / HTTP/1.1\r\n\r\n", 2)] = some q ∧
      p.outcome = .complete ∧ p.context.request.method = .kGet ∧
      p.context.request.getBody = bytes "x" ∧ p.context.request.contentLength = 1 ∧
      q.context.request.getBody = [] ∧ q.context.request.contentLength = 0 ∧
      p.context.request.untimed ≠ q.context.request.untimed :=
  ⟨leftover (bytes "x") 1, ⟨.ok true, ⟨.kGotAll, _⟩, []⟩, ⟨.ok true, ⟨.kGotAll, _⟩, []⟩,
    served_postOne, rfl, rfl, rfl, rfl, rfl, rfl, rfl, rfl, by decide⟩

end HttpContext

end KamaHttp
