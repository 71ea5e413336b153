import KamaHttp.Http.ResponseReader

/-!
# The exits of `handleRequest`

A request is answered in one of three ways: a hook or the handler throws a response (`Throws`), an
exception ends its way before the hooks `after` (`Fails`), or it comes to their end (`Passes`).

* `handleRequest_cases`: there is no other way.
* `handleRequest_of_throws`, `handleRequest_of_fails`, `handleRequest_of_passes`: the response that
  each of them leaves.
* `handleRequest_forall_iff`: what holds of the response that is left, way by way.
* `handleRequest_leads_iff`: what every call on the way leads to, call by call.
* `closes_iff_of_ok`: what is sent and done with the response that is left.
* `handleRequest_respects`: what every hook and every handler respects, `handleRequest` respects.
-/

namespace KamaHttp

/-! ## Call by call -/

/-- A call that returns leaves a response with `Q`. One that throws ends the way with a response
that has `R`: the one it throws, or the one it leaves behind an exception. -/
def Answer.Leads (Q R : HttpResponse → Prop) : Answer → Prop
  | ⟨left, none⟩ => Q left
  | ⟨_, some (.response r)⟩ => R r
  | ⟨left, some (.exception _)⟩ => R left

theorem Answer.Leads.mono {Q Q' R : HttpResponse → Prop} (hQ : ∀ r, Q r → Q' r) {a : Answer}
    (h : a.Leads Q R) : a.Leads Q' R := by
  rcases a with ⟨left, _ | r | e⟩
  · exact hQ left h
  · exact h
  · exact h

namespace MiddlewareChain

variable {σ : Type*}

/-- On its way along the hooks `before`, the request comes to a hook in some shape and state. -/
inductive CallsBefore :
    List (Middleware σ) → HttpRequest → σ → Middleware σ → HttpRequest → σ → Prop
  | here {m ms request w} : CallsBefore (m :: ms) request w m request w
  | later {m ms request w request' w' m' request'' w''}
      (hm : m.before request w = (.ok request', w'))
      (h : CallsBefore ms request' w' m' request'' w'') :
      CallsBefore (m :: ms) request w m' request'' w''

/-- On its way along the hooks `after`, the response comes to a hook in some shape and state. -/
inductive CallsAfter :
    List (Middleware σ) → HttpResponse → σ → Middleware σ → HttpResponse → σ → Prop
  | here {m ms response w} : CallsAfter (m :: ms) response w m response w
  | later {m ms response w response' w' m' response'' w''}
      (hm : m.after response w = (⟨response', none⟩, w'))
      (h : CallsAfter ms response' w' m' response'' w'') :
      CallsAfter (m :: ms) response w m' response'' w''

variable {ms : List (Middleware σ)} {m : Middleware σ} {request request' : HttpRequest}
  {response response' : HttpResponse} {w w' w₁ : σ} {x : Thrown} {Q R : HttpResponse → Prop}

theorem CallsBefore.mem (h : CallsBefore ms request w m request' w') : m ∈ ms := by
  induction h with
  | here => exact List.mem_cons_self
  | later _ _ ih => exact List.mem_cons_of_mem _ ih

theorem CallsAfter.mem (h : CallsAfter ms response w m response' w') : m ∈ ms := by
  induction h with
  | here => exact List.mem_cons_self
  | later _ _ ih => exact List.mem_cons_of_mem _ ih

/-- The hooks `before` throw what a hook on the way throws. -/
theorem CallsBefore.error (h : CallsBefore ms request w m request' w')
    (hm : m.before request' w' = (.error x, w₁)) :
    processBefore ms request w = (.error x, w₁) := by
  induction h with
  | here => rw [processBefore, hm]
  | later hb _ ih =>
    rw [processBefore, hb]
    exact ih hm

/-- And nothing else. -/
theorem exists_callsBefore (h : processBefore ms request w = (.error x, w₁)) :
    ∃ m request' w', CallsBefore ms request w m request' w' ∧
      m.before request' w' = (.error x, w₁) := by
  induction ms generalizing request w with
  | nil => cases h
  | cons m ms ih =>
    rw [processBefore] at h
    rcases hb : m.before request w with ⟨x' | request', w'⟩
    · rw [hb] at h
      exact ⟨m, request, w, .here, hb.trans h⟩
    · rw [hb] at h
      obtain ⟨m', request'', w'', hcall, hm'⟩ := ih h
      exact ⟨m', request'', w'', .later hb hcall, hm'⟩

/-- The hooks `after` throw what a hook on the way throws. -/
theorem CallsAfter.throws (h : CallsAfter ms response w m response' w')
    (hm : (m.after response' w').1.thrown = some x) :
    (runAfter ms response w).1 = .throws (m.after response' w').1.response x := by
  induction h with
  | @here m ms response w =>
    rw [runAfter]
    rcases ha : m.after response w with ⟨⟨left, _ | x'⟩, w₁⟩
    · rw [ha] at hm
      cases hm
    · rw [ha] at hm
      cases hm
      rfl
  | later ha _ ih =>
    rw [runAfter, ha]
    exact ih hm

/-- **What every hook leads to, the hooks `after` lead to.** -/
theorem leads_runAfter
    (h : ∀ m r w', CallsAfter ms response w m r w' → Q r → (m.after r w').1.Leads Q R)
    (hresponse : Q response) : (runAfter ms response w).1.Leads Q R := by
  induction ms generalizing response w with
  | nil => exact hresponse
  | cons m ms ih =>
    have hm := h m response w .here hresponse
    rw [runAfter]
    rcases ha : m.after response w with ⟨⟨response', _ | x⟩, w'⟩
    · rw [ha] at hm
      exact ih (fun m' r w'' hcall => h m' r w'' (.later ha hcall)) hm
    · rw [ha] at hm
      exact hm

theorem leads_processAfter (h : (runAfter ms.reverse response w).1.Leads R R) :
    (processAfter ms response w).1.Leads R R := by
  rw [processAfter]
  split
  · rename_i ha
    rw [ha] at h
    exact h
  · exact h

end MiddlewareChain

/-! ## The three ways -/

namespace HttpServer

open MiddlewareChain HttpContext

variable {σ : Type*} (server : HttpServer σ) (req : HttpRequest) (resp : HttpResponse) (w : σ)

/-- On its way the request meets a hook or a handler that throws a response. -/
inductive Throws : HttpResponse → Prop
  | before {r w₁} (hb : processBefore server.middlewares req w = (.error (.response r), w₁)) :
      Throws r
  | handler {req' w₁ found left r w₂}
      (hb : processBefore server.middlewares req w = (.ok req', w₁))
      (hr : server.router.route req' resp w₁ = (found, ⟨left, some (.response r)⟩, w₂)) : Throws r
  | after {req' w₁ found left w₂ left' r w₃}
      (hb : processBefore server.middlewares req w = (.ok req', w₁))
      (hr : server.router.route req' resp w₁ = (found, ⟨left, none⟩, w₂))
      (ha : processAfter server.middlewares (if found then left else notFound left) w₂ =
        (⟨left', some (.response r)⟩, w₃)) : Throws r

/-- A hook `before` or the handler throws an exception and leaves a response as far as it got. -/
inductive Fails : HttpResponse → StdException → Prop
  | before {e w₁} (hb : processBefore server.middlewares req w = (.error (.exception e), w₁)) :
      Fails resp e
  | handler {req' w₁ found left e w₂}
      (hb : processBefore server.middlewares req w = (.ok req', w₁))
      (hr : server.router.route req' resp w₁ = (found, ⟨left, some (.exception e)⟩, w₂)) :
      Fails left e

/-- The request is routed, and the hooks `after` make a response of the one they are given. An
exception among them is swallowed. -/
inductive Passes : HttpResponse → HttpResponse → Prop
  | mk {req' w₁ found left w₂ r w₃}
      (hb : processBefore server.middlewares req w = (.ok req', w₁))
      (hr : server.router.route req' resp w₁ = (found, ⟨left, none⟩, w₂))
      (ha : processAfter server.middlewares (if found then left else notFound left) w₂ =
        (⟨r, none⟩, w₃)) : Passes (if found then left else notFound left) r

variable {server req resp w} {r left given : HttpResponse} {e : StdException}

theorem processAfter_ne_exception (ms : List (Middleware σ)) (response : HttpResponse) (w : σ) :
    (processAfter ms response w).1.thrown ≠ some (.exception e) := by
  rw [processAfter]
  rcases hr : runAfter ms.reverse response w with ⟨⟨response', _ | r | e'⟩, w'⟩ <;>
    simp [Answer.returns]

theorem handleRequest_of_throws (h : Throws server req resp w r) :
    (server.handleRequest req resp w).1 = .ok r := by
  cases h with
  | before hb => simp [handleRequest, hb, caught]
  | handler hb hr => simp [handleRequest, hb, hr, caught]
  | after hb hr ha => simp only [handleRequest, hb, hr, ha, caught]

theorem handleRequest_of_fails (h : Fails server req resp w left e) :
    (server.handleRequest req resp w).1 = .ok (caught left (.exception e)) := by
  cases h with
  | before hb => simp [handleRequest, hb]
  | handler hb hr => simp [handleRequest, hb, hr]

theorem handleRequest_of_passes (h : Passes server req resp w given r) :
    (server.handleRequest req resp w).1 = .ok r := by
  cases h with
  | mk hb hr ha => simp only [handleRequest, hb, hr, ha]

/-- **A request is answered in one of the three ways.** -/
theorem handleRequest_cases (server : HttpServer σ) (req : HttpRequest) (resp : HttpResponse)
    (w : σ) :
    (∃ r, Throws server req resp w r) ∨ (∃ left e, Fails server req resp w left e) ∨
      ∃ given r, Passes server req resp w given r := by
  rcases hb : processBefore server.middlewares req w with ⟨(r | e) | req', w₁⟩
  · exact .inl ⟨r, .before hb⟩
  · exact .inr (.inl ⟨resp, e, .before hb⟩)
  rcases hr : server.router.route req' resp w₁ with ⟨found, ⟨left, _ | r | e⟩, w₂⟩
  · rcases ha : processAfter server.middlewares (if found then left else notFound left) w₂ with
      ⟨⟨left', _ | r | e⟩, w₃⟩
    · exact .inr (.inr ⟨_, left', .mk hb hr ha⟩)
    · exact .inl ⟨r, .after hb hr ha⟩
    · exact absurd (by rw [ha]) (processAfter_ne_exception (e := e) server.middlewares _ w₂)
  · exact .inl ⟨r, .handler hb hr⟩
  · exact .inr (.inl ⟨left, e, .handler hb hr⟩)

/-- What holds of the response that is left, holds of it on each of the three ways. -/
theorem handleRequest_forall_iff {Q : HttpResponse → Prop} :
    (∀ r, (server.handleRequest req resp w).1 = .ok r → Q r) ↔
      (∀ r, Throws server req resp w r → Q r) ∧
        (∀ left e, Fails server req resp w left e → Q (caught left (.exception e))) ∧
        ∀ given r, Passes server req resp w given r → Q r := by
  constructor
  · intro h
    exact ⟨fun r ht => h r (handleRequest_of_throws ht),
      fun left e hf => h _ (handleRequest_of_fails hf),
      fun given r hp => h r (handleRequest_of_passes hp)⟩
  · rintro ⟨hthrown, hfailed, hpassed⟩ r hr
    rcases handleRequest_cases server req resp w with ⟨r', ht⟩ | ⟨left, e, hf⟩ | ⟨given, r', hp⟩
    · obtain rfl := Except.ok.inj ((handleRequest_of_throws ht).symm.trans hr)
      exact hthrown _ ht
    · obtain rfl := Except.ok.inj ((handleRequest_of_fails hf).symm.trans hr)
      exact hfailed left e hf
    · obtain rfl := Except.ok.inj ((handleRequest_of_passes hp).symm.trans hr)
      exact hpassed given _ hp

variable (server req resp w) in
/-- The request comes to the hooks `after`, with the response and the state that they are given. -/
inductive Given : HttpResponse → σ → Prop
  | mk {req' w₁ found left w₂} (hb : processBefore server.middlewares req w = (.ok req', w₁))
      (hr : server.router.route req' resp w₁ = (found, ⟨left, none⟩, w₂)) :
      Given (if found then left else notFound left) w₂

/-- **What is left has `R` exactly if every call on the way leads there**: what a hook `before`
throws, the handler, and the hooks `after` together. -/
theorem handleRequest_leads_iff {R : HttpResponse → Prop}
    (hcaught : ∀ r e, R (caught r (.exception e)) ↔ R r) :
    (∀ r, (server.handleRequest req resp w).1 = .ok r → R r) ↔
      (∀ m req' w' x w₁, CallsBefore server.middlewares req w m req' w' →
        m.before req' w' = (.error x, w₁) → R (caught resp x)) ∧
      (∀ req' w', processBefore server.middlewares req w = (.ok req', w') →
        (server.router.route req' resp w').2.1.Leads (fun _ => True) R) ∧
      ∀ given w', Given server req resp w given w' →
        (runAfter server.middlewares.reverse given w').1.Leads R R := by
  rw [handleRequest_forall_iff]
  constructor
  · rintro ⟨hthrown, hfailed, hpassed⟩
    refine ⟨fun m req' w' x w₁ hcall hm => ?_, fun req' w' hb => ?_, fun given w' hgiven => ?_⟩
    · cases x with
      | response r => exact hthrown r (.before (hcall.error hm))
      | exception e => exact hfailed resp e (.before (hcall.error hm))
    · rcases hr : server.router.route req' resp w' with ⟨found, ⟨left, _ | r | e⟩, w₂⟩
      · trivial
      · exact hthrown r (.handler hb hr)
      · exact (hcaught left e).1 (hfailed left e (.handler hb hr))
    · cases hgiven with
      | mk hb hr =>
        rcases hrun : runAfter server.middlewares.reverse _ w' with ⟨⟨left, _ | r | e⟩, w₃⟩
        · exact hpassed _ left (.mk hb hr (by rw [processAfter, hrun]))
        · exact hthrown r (.after hb hr (by rw [processAfter, hrun]))
        · exact hpassed _ left (.mk hb hr (by rw [processAfter, hrun]; rfl))
  · rintro ⟨hbefore, hroute, hafter⟩
    have herror : ∀ {x w₁}, processBefore server.middlewares req w = (.error x, w₁) →
        R (caught resp x) := fun hb => by
      obtain ⟨m, req', w', hcall, hm⟩ := exists_callsBefore hb
      exact hbefore m req' w' _ _ hcall hm
    refine ⟨fun r h => ?_, fun left e h => ?_, fun given r h => ?_⟩
    · cases h with
      | before hb => exact herror hb
      | handler hb hr =>
        have hleads := hroute _ _ hb
        rw [hr] at hleads
        exact hleads
      | after hb hr ha =>
        have hleads := leads_processAfter (hafter _ _ (.mk hb hr))
        rw [ha] at hleads
        exact hleads
    · cases h with
      | before hb => exact herror hb
      | handler hb hr =>
        have hleads := hroute _ _ hb
        rw [hr] at hleads
        exact (hcaught left e).2 hleads
    · cases h with
      | mk hb hr ha =>
        have hleads := leads_processAfter (hafter _ _ (.mk hb hr))
        rw [ha] at hleads
        exact hleads

/-- The state behind a request: as the hooks `before` left it, or the handler, or the hooks
`after`. -/
theorem handleRequest_state (server : HttpServer σ) (req : HttpRequest) (resp : HttpResponse)
    (w : σ) :
    (∃ x, processBefore server.middlewares req w =
        (.error x, (server.handleRequest req resp w).2)) ∨
      ∃ req' w₁, processBefore server.middlewares req w = (.ok req', w₁) ∧
        ((server.handleRequest req resp w).2 = (server.router.route req' resp w₁).2.2 ∨
          ∃ given, (server.handleRequest req resp w).2 =
            (processAfter server.middlewares given (server.router.route req' resp w₁).2.2).2) := by
  rcases hb : processBefore server.middlewares req w with ⟨x | req', w₁⟩
  · exact .inl ⟨x, by simp only [handleRequest, hb]⟩
  refine .inr ⟨req', w₁, rfl, ?_⟩
  rcases hr : server.router.route req' resp w₁ with ⟨found, ⟨left, _ | x⟩, w₂⟩
  · refine .inr ⟨if found then left else notFound left, ?_⟩
    rcases ha : processAfter server.middlewares (if found then left else notFound left) w₂ with
      ⟨⟨left', _ | x⟩, w₃⟩ <;> simp only [handleRequest, hb, hr, ha]
  · exact .inl (by simp only [handleRequest, hb, hr])

/-- A request that passes a part of the chain and is stopped by the next hook. -/
theorem throws_of_before {m : Middleware σ} {front back : List (Middleware σ)}
    (hchain : server.middlewares = front ++ m :: back) {req' : HttpRequest} {w₁ w₂ : σ}
    (hfront : processBefore front req w = (.ok req', w₁))
    (hm : m.before req' w₁ = (.error (.response r), w₂)) : Throws server req resp w r := by
  have hb : processBefore server.middlewares req w = (.error (.response r), w₂) := by
    rw [hchain, processBefore_append hfront, processBefore, hm]
  exact .before hb

/-! ## What is done with the response -/

/-- The text of a response begins with a status line and the line `Connection: close`. -/
def SaysClose (text : Bytes) : Prop :=
  ∃ status rest, findCRLF status = none ∧
    text = status ++ (crlf ++ (bytes "Connection: close" ++ (crlf ++ rest)))

/-- The client is told that the connection is closed, and it is shut down behind the response. -/
def Closes (httpCallback : HttpCallback σ) (req : HttpRequest) (c : Connection σ) : Prop :=
  ∃ text, SaysClose text ∧
    (onRequest httpCallback req c).2.log = c.log ++ [.called req, .replied text, .shutdown]

theorem crlf_not_mem_statusText (req : HttpRequest) (resp : HttpResponse) :
    findCRLF (snprintf 32 (finish req resp).statusText ++ (finish req resp).statusMessage) =
      none := by
  obtain ⟨hversion, hstatus, hmessage, -⟩ := finish_spec req resp
  have htext : 13 ∉ (finish req resp).statusText := by
    have hver : 13 ∉ sentVersion req := not_mem_sentVersion (by decide) req
    have hnull : 0 ∉ sentVersion req := not_mem_sentVersion (by decide) req
    have hdecimal : 13 ∉ decimal resp.statusCode := not_mem_decimal (by decide) _
    rw [HttpResponse.statusText, hversion, hstatus, cStr_of_no_null hnull]
    simp [hver, hdecimal]
  refine findCRLF_of_not_mem fun h => ?_
  rcases List.mem_append.1 h with h | h
  · exact htext (List.mem_of_mem_take h)
  · rw [hmessage] at h
    exact reason_plain _ h

/-- **A connection is closed exactly if the response that is sent has the flag.** -/
theorem closes_iff_of_ok {httpCallback : HttpCallback σ} {c : Connection σ} {app : σ}
    (h : httpCallback req (HttpResponse.new (close req)) c.app = (.ok r, app)) :
    Closes httpCallback req c ↔ (finish req r).closeConnection := by
  rw [Closes, onRequest_of_ok h, reply]
  constructor
  · rintro ⟨text, -, hlog⟩
    by_contra hopen
    simp [hopen] at hlog
  · intro hclose
    refine ⟨(finish req r).appendToBuffer, ?_, by simp [hclose]⟩
    refine ⟨_, ((finish req r).headersVector.flatMap fun p => p.1 ++ bytes ": " ++ p.2 ++ crlf) ++
      (crlf ++ (finish req r).body), crlf_not_mem_statusText req r, ?_⟩
    have hline : bytes "Connection: close\r\n" = bytes "Connection: close" ++ crlf := by decide
    have hcrlf : bytes "\r\n" = crlf := by decide
    rw [HttpResponse.appendToBuffer, hclose, if_pos rfl, hline, hcrlf]
    simp only [List.append_assoc]

/-- What is sent has the flag if the response has it, or the request falls back to HTTP/1.0. -/
theorem closeConnection_finish (req : HttpRequest) (r : HttpResponse) :
    (finish req r).closeConnection = (decide (Downgrades req) || r.closeConnection) := by
  have hcomplete : (complete r).closeConnection = r.closeConnection := by
    unfold complete
    split <;> rfl
  have hclosing : (closing (complete r)).closeConnection = true := by
    unfold closing
    split <;> rfl
  rw [finish_eq]
  change (if Downgrades req then closing (complete r) else complete r).closeConnection = _
  split <;> rename_i hdown <;> simp [hdown, hcomplete, hclosing]

end HttpServer

/-! ## What hooks and handlers respect -/

section Respects

open HttpServer MiddlewareChain

variable {σ : Type*} (P : HttpRequest → Prop) (Q : HttpResponse → Prop) (I : σ → Prop)

/-- A call ends in a state with `I`, and with responses that have `Q`: the one it leaves, and the
one it throws. -/
structure Answer.Respects (x : Answer × σ) : Prop where
  state : I x.2
  left : Q x.1.response
  thrown : ∀ r, x.1.thrown = some (.response r) → Q r

variable {Q I} in
/-- A call that returns. -/
theorem Answer.Respects.of_eq {x : Answer × σ} {r : HttpResponse} (h : x.1 = .returns r) (hr : Q r)
    (hw : I x.2) : Answer.Respects Q I x := by
  refine ⟨hw, ?_, fun r' hr' => ?_⟩
  · rw [h]
    exact hr
  · rw [h] at hr'
    cases hr'

variable {Q I} in
theorem Answer.Respects.leads {x : Answer × σ} (h : Answer.Respects Q I x) : x.1.Leads Q Q := by
  rcases hx : x.1 with ⟨left, _ | r | e⟩
  · have hleft := h.left
    rwa [hx] at hleft
  · exact h.thrown r (by rw [hx])
  · have hleft := h.left
    rwa [hx] at hleft

variable {Q I} in
theorem Answer.Respects.returns {r : HttpResponse} {w : σ} (hr : Q r) (hw : I w) :
    Answer.Respects Q I (Answer.returns r, w) := .of_eq rfl hr hw

/-- The hooks of the middleware respect a property of requests, one of responses and one of
states. -/
structure Middleware.Respects (m : Middleware σ) : Prop where
  before : ∀ request w, P request → I w → I (m.before request w).2 ∧
    (∀ r, (m.before request w).1 = .ok r → P r) ∧
    ∀ r, (m.before request w).1 = .error (.response r) → Q r
  after : ∀ response w, Q response → I w → Answer.Respects Q I (m.after response w)

def Handler.Respects (f : Handler σ) : Prop :=
  ∀ req resp w, P req → Q resp → I w → Answer.Respects Q I (f req resp w)

variable {P Q I} {ms : List (Middleware σ)} {router : Router σ} {w : σ}

theorem MiddlewareChain.processBefore_respects (hms : ∀ m ∈ ms, m.Respects P Q I)
    {request : HttpRequest} (hreq : P request) (hw : I w) :
    I (processBefore ms request w).2 ∧ (∀ r, (processBefore ms request w).1 = .ok r → P r) ∧
      ∀ r, (processBefore ms request w).1 = .error (.response r) → Q r := by
  induction ms generalizing request w with
  | nil =>
    refine ⟨hw, fun r hr => ?_, fun r hr => by cases hr⟩
    cases hr
    exact hreq
  | cons m ms ih =>
    obtain ⟨hI, hP, hQ⟩ := (hms m (by simp)).before request w hreq hw
    rw [processBefore]
    rcases hb : m.before request w with ⟨x | request', w'⟩
    · rw [hb] at hI hQ
      exact ⟨hI, fun r hr => (by cases hr), hQ⟩
    · rw [hb] at hI hP
      exact ih (fun m' hm' => hms m' (by simp [hm'])) (hP request' rfl) hI

theorem MiddlewareChain.runAfter_respects
    (hms : ∀ m ∈ ms, ∀ response w, Q response → I w → Answer.Respects Q I (m.after response w))
    {response : HttpResponse} (hresp : Q response) (hw : I w) :
    Answer.Respects Q I (runAfter ms response w) := by
  induction ms generalizing response w with
  | nil => exact ⟨hw, hresp, fun r hr => by cases hr⟩
  | cons m ms ih =>
    have hm := hms m (by simp) response w hresp hw
    rw [runAfter]
    rcases ha : m.after response w with ⟨⟨response', _ | x⟩, w'⟩
    · rw [ha] at hm
      exact ih (fun m' hm' => hms m' (by simp [hm'])) hm.left hm.state
    · rw [ha] at hm
      exact hm

theorem MiddlewareChain.processAfter_respects (hms : ∀ m ∈ ms, m.Respects P Q I)
    {response : HttpResponse} (hresp : Q response) (hw : I w) :
    Answer.Respects Q I (processAfter ms response w) := by
  have h := runAfter_respects (fun m hm => (hms m (List.mem_reverse.1 hm)).after) hresp hw
  rw [processAfter]
  split
  · rename_i ha
    rw [ha] at h
    exact ⟨h.state, h.left, fun r hr => by cases hr⟩
  · exact h

/-- The functions that are registered are invoked on the request, or on the request with the groups
of its path. -/
theorem Router.route_respects (hf : ∀ f, router.Registers f → Handler.Respects P Q I f)
    (hgroups : ∀ groups r, P r → P (Router.extractPathParameters groups r)) {req : HttpRequest}
    {resp : HttpResponse} (hreq : P req) (hresp : Q resp) (hw : I w) :
    Answer.Respects Q I (router.route req resp w).2 := by
  unfold Router.route
  split
  · rename_i f h
    exact hf f (.handler h) req resp w hreq hresp hw
  split
  · rename_i f h
    exact hf f (.callback h) req resp w hreq hresp hw
  split
  · rename_i f groups h
    obtain ⟨r, hr, rfl⟩ := Router.exists_of_findRoute h
    exact hf _ (.regexHandler hr) _ resp w (hgroups groups req hreq) hresp hw
  split
  · rename_i f groups h
    obtain ⟨r, hr, rfl⟩ := Router.exists_of_findRoute h
    exact hf _ (.regexCallback hr) req resp w hreq hresp hw
  · exact ⟨hw, hresp, fun r hr => by cases hr⟩

/-- **What every hook and every registered function respects, `handleRequest` respects**, if it is
kept by what it does itself: the answer to an exception and to a request without a route. -/
theorem HttpServer.handleRequest_respects {server : HttpServer σ}
    (hms : ∀ m ∈ server.middlewares, m.Respects P Q I)
    (hf : ∀ f, server.router.Registers f → Handler.Respects P Q I f)
    (hgroups : ∀ groups r, P r → P (Router.extractPathParameters groups r))
    (hcaught : ∀ r e, Q r → Q (caught r (.exception e))) (hnotFound : ∀ r, Q r → Q (notFound r))
    {req : HttpRequest} {resp : HttpResponse} (hreq : P req) (hresp : Q resp) (hw : I w) :
    I (server.handleRequest req resp w).2 ∧
      ∀ r, (server.handleRequest req resp w).1 = .ok r → Q r := by
  obtain ⟨hI, hP, hQ⟩ := processBefore_respects hms hreq hw
  unfold handleRequest
  rcases hb : processBefore server.middlewares req w with ⟨(x | e) | req', w₁⟩
  · rw [hb] at hI hQ
    exact ⟨hI, fun r hr => Except.ok.inj hr ▸ hQ x rfl⟩
  · rw [hb] at hI
    exact ⟨hI, fun r hr => Except.ok.inj hr ▸ hcaught resp e hresp⟩
  rw [hb] at hI hP
  have hroute := Router.route_respects hf hgroups (hP req' rfl) hresp hI
  rcases hr : server.router.route req' resp w₁ with ⟨found, ⟨left, _ | x | e⟩, w₂⟩
  · rw [hr] at hroute
    have hgiven : Q (if found then left else notFound left) := by
      cases found
      · exact hnotFound left hroute.left
      · exact hroute.left
    have hafter := processAfter_respects hms hgiven hroute.state
    simp only [hr]
    rcases ha : processAfter server.middlewares (if found then left else notFound left) w₂ with
      ⟨⟨left', _ | x | e⟩, w₃⟩
    · rw [ha] at hafter
      exact ⟨hafter.state, fun r hr => Except.ok.inj hr ▸ hafter.left⟩
    · rw [ha] at hafter
      exact ⟨hafter.state, fun r hr => Except.ok.inj hr ▸ hafter.thrown x rfl⟩
    · exact absurd (by rw [ha]) (processAfter_ne_exception (e := e) server.middlewares _ w₂)
  · rw [hr] at hroute
    simp only [hr]
    exact ⟨hroute.state, fun r hr => Except.ok.inj hr ▸ hroute.thrown x rfl⟩
  · rw [hr] at hroute
    simp only [hr]
    exact ⟨hroute.state, fun r hr => Except.ok.inj hr ▸ hcaught left e hroute.left⟩

end Respects

end KamaHttp
