import KamaHttp.Http.Exits

/-!
# Handlers that fail half-way

A handler fills a response step by step (`Mutation`) and may throw an exception after any of the
steps. `handleRequest` then sets the status and the body and leaves everything else, and `onRequest`
adds a length where there is none.

* `getElem?_headers_finish`: the headers that `onRequest` makes of those it is given.
* `discards_iff`: when what a failed handler has set is discarded.
-/

namespace KamaHttp

open HttpServer MiddlewareChain

/-- What a handler does to a response. -/
inductive Mutation
  | setVersion (version : Bytes)
  | setStatusCode (code : ℤ)
  | setStatusMessage (message : Bytes)
  | setCloseConnection (on : Bool)
  | setContentType (contentType : Bytes)
  | setContentLength (length : UInt64)
  | addHeader (key value : Bytes)
  | setBody (body : Bytes)
  | setStatusLine (version : Bytes) (statusCode : ℤ) (statusMessage : Bytes)
  | clearHeaders
  | assign (response : HttpResponse)

namespace Mutation

/-- The response behind the mutation. -/
def apply (r : HttpResponse) : Mutation → HttpResponse
  | setVersion version => r.setVersion version
  | setStatusCode code => r.setStatusCode code
  | setStatusMessage message => r.setStatusMessage message
  | setCloseConnection on => r.setCloseConnection on
  | setContentType contentType => r.setContentType contentType
  | setContentLength length => r.setContentLength length
  | addHeader key value => r.addHeader key value
  | setBody body => r.setBody body
  | setStatusLine version statusCode statusMessage =>
    r.setStatusLine version statusCode statusMessage
  | clearHeaders => r.clearHeaders
  | assign response => response

/-- The headers that the mutation sets. -/
def Sets (f : Bytes × Bytes) : Mutation → Prop
  | setContentType contentType => f = (bytes "Content-Type", contentType)
  | setContentLength length => f = (bytes "Content-Length", decimal length.toNat)
  | addHeader key value => f = (key, value)
  | assign response => f ∈ response.headersVector
  | _ => False

/-- The response behind the mutations, one after the other. -/
def applyAll (r : HttpResponse) (ms : List Mutation) : HttpResponse := ms.foldl apply r

theorem sets_or_mem_of_mem_apply {r : HttpResponse} {m : Mutation} {f : Bytes × Bytes}
    (h : f ∈ (apply r m).headersVector) : m.Sets f ∨ f ∈ r.headersVector := by
  cases m with
  | setContentType | setContentLength | addHeader => exact mem_headersVector_addHeader h
  | clearHeaders => simp [apply, mem_headersVector, HttpResponse.clearHeaders] at h
  | assign => exact .inl h
  | _ => exact .inr h

/-- **A header that stands behind mutations was set by one of them**, or stood there before. -/
theorem exists_sets_of_mem_applyAll {r : HttpResponse} {ms : List Mutation} {f : Bytes × Bytes}
    (h : f ∈ (applyAll r ms).headersVector) :
    (∃ m ∈ ms, m.Sets f) ∨ f ∈ r.headersVector := by
  induction ms generalizing r with
  | nil => exact .inr h
  | cons m ms ih =>
    rcases ih h with ⟨m', hm', hsets⟩ | hmem
    · exact .inl ⟨m', List.mem_cons_of_mem m hm', hsets⟩
    · rcases sets_or_mem_of_mem_apply hmem with hsets | hmem
      · exact .inl ⟨m, List.mem_cons_self, hsets⟩
      · exact .inr hmem

end Mutation

/-! ## The headers of a response that is sent -/

namespace HttpServer

variable {req : HttpRequest} {r : HttpResponse}

theorem getElem?_headers_addHeader (r : HttpResponse) (key value name : Bytes) :
    (r.addHeader key value).headers[name]? =
      if name = key then some value else r.headers[name]? := by
  by_cases h : name = key
  · simp [HttpResponse.addHeader, h]
  · simp [HttpResponse.addHeader, Std.ExtTreeMap.getElem?_insert, h, Ne.symm h]

theorem getElem?_headers_complete (r : HttpResponse) (name : Bytes) :
    (complete r).headers[name]? =
      if name = bytes "Content-Length" ∧ r.getHeader (bytes "Content-Length") = [] ∧
          r.getHeader (bytes "Transfer-Encoding") = [] then some (decimal r.body.length)
      else r.headers[name]? := by
  by_cases h : r.getHeader (bytes "Content-Length") = [] ∧
      r.getHeader (bytes "Transfer-Encoding") = []
  · rw [complete, if_pos h, getElem?_headers_addHeader]
    simp only [h, and_self, and_true]
  · rw [complete, if_neg h, if_neg fun hn => h hn.2]

theorem getElem?_headers_closing (r : HttpResponse) (name : Bytes) :
    (closing r).headers[name]? =
      if name = bytes "Connection" ∧ r.getHeader (bytes "Connection") = [] then
        some (bytes "close")
      else r.headers[name]? := by
  by_cases h : r.getHeader (bytes "Connection") = []
  · have hset : (r.setCloseConnection true).getHeader (bytes "Connection") = [] := h
    rw [closing, if_pos hset, getElem?_headers_addHeader]
    simp only [h, and_true]
    rfl
  · have hset : ¬ (r.setCloseConnection true).getHeader (bytes "Connection") = [] := h
    rw [closing, if_neg hset, if_neg fun hn => h hn.2]
    rfl

/-- **The headers that are sent**: a length where there is neither one nor an encoding, the line for
a request of HTTP/1.0, and otherwise those of the response. -/
theorem getElem?_headers_finish (req : HttpRequest) (r : HttpResponse) (name : Bytes) :
    (finish req r).headers[name]? =
      if name = bytes "Content-Length" ∧ r.getHeader (bytes "Content-Length") = [] ∧
          r.getHeader (bytes "Transfer-Encoding") = [] then some (decimal r.body.length)
      else if name = bytes "Connection" ∧ Downgrades req ∧
          r.getHeader (bytes "Connection") = [] then some (bytes "close")
      else r.headers[name]? := by
  have hconnection : (complete r).getHeader (bytes "Connection") =
      r.getHeader (bytes "Connection") := by
    have hne : bytes "Connection" ≠ bytes "Content-Length" := by decide
    simp only [HttpResponse.getHeader, getElem?_headers_complete, hne, false_and, if_false]
  rw [finish_eq]
  change (if Downgrades req then closing (complete r) else complete r).headers[name]? = _
  by_cases hdown : Downgrades req
  · rw [if_pos hdown, getElem?_headers_closing, hconnection, getElem?_headers_complete]
    have hne : ¬ (name = bytes "Connection" ∧ name = bytes "Content-Length") := by
      rintro ⟨rfl, h⟩
      exact absurd h (by decide)
    split_ifs <;> grind
  · rw [if_neg hdown, getElem?_headers_complete]
    simp only [hdown, false_and, and_false, if_false]

end HttpServer

/-! ## What becomes of a failed handler -/

/-- The response that a handler leaves that has been given a fresh one. -/
def leftBy (req : HttpRequest) (ms : List Mutation) : HttpResponse :=
  Mutation.applyAll (HttpResponse.new (close req)) ms

/-- The response that is sent when the handler throws an exception behind the mutations. -/
def failure (req : HttpRequest) (ms : List Mutation) (e : StdException) : HttpResponse :=
  finish req (caught (leftBy req ms) (.exception e))

/-- What the handler has done to the response is discarded: the status is 500, the body the text of
the exception, the length that of the body, and no header that the handler has set is sent, except
as the server sends it after a handler that throws at once. -/
structure Discards (req : HttpRequest) (ms : List Mutation) (e : StdException) : Prop where
  status : (failure req ms e).statusCode = 500
  body : (failure req ms e).body = e.what
  length : (failure req ms e).getHeader (bytes "Content-Length") = decimal e.what.length
  headers : ∀ m ∈ ms, ∀ f, m.Sets f → f ∈ (failure req ms e).headersVector →
    f ∈ (failure req [] e).headersVector

/-- The headers that a handler may leave: a length that is empty or that of the text of the
exception, and, where the server adds the line, one that is empty or says the same. -/
def Harmless (req : HttpRequest) (e : StdException) (f : Bytes × Bytes) : Prop :=
  f.1 = bytes "Content-Length" ∧ (f.2 = [] ∨ f.2 = decimal e.what.length) ∨
    f.1 = bytes "Connection" ∧ Downgrades req ∧ (f.2 = [] ∨ f.2 = bytes "close")

section Discards

variable {req : HttpRequest} {ms : List Mutation} {e : StdException}

/-- The headers of the answer to a failed handler. -/
theorem getElem?_headers_failure (req : HttpRequest) (ms : List Mutation) (e : StdException)
    (name : Bytes) :
    (failure req ms e).headers[name]? =
      if name = bytes "Content-Length" ∧ (leftBy req ms).getHeader (bytes "Content-Length") = [] ∧
          (leftBy req ms).getHeader (bytes "Transfer-Encoding") = [] then
        some (decimal e.what.length)
      else if name = bytes "Connection" ∧ Downgrades req ∧
          (leftBy req ms).getHeader (bytes "Connection") = [] then some (bytes "close")
      else (leftBy req ms).headers[name]? :=
  getElem?_headers_finish req _ name

/-- The headers of the answer to a handler that throws at once. -/
theorem mem_failure_nil {f : Bytes × Bytes} :
    f ∈ (failure req [] e).headersVector ↔
      f = (bytes "Content-Length", decimal e.what.length) ∨
        Downgrades req ∧ f = (bytes "Connection", bytes "close") := by
  have hleft : ∀ name : Bytes, (leftBy req []).headers[name]? = none := fun name => by
    simp [leftBy, Mutation.applyAll, HttpResponse.new]
  have hget : ∀ name : Bytes, (leftBy req []).getHeader name = [] := fun name => by
    rw [HttpResponse.getHeader, hleft]
    rfl
  obtain ⟨name, value⟩ := f
  have hne : bytes "Connection" ≠ bytes "Content-Length" := by decide
  rw [mem_headersVector, getElem?_headers_failure]
  simp only [hget, hleft, and_true, Prod.mk.injEq]
  by_cases hl : name = bytes "Content-Length"
  · simp [hl, Ne.symm hne, eq_comm]
  · by_cases hc : name = bytes "Connection" ∧ Downgrades req
    · simp [hc, hne, eq_comm]
    · simp only [hl, hc, if_false, false_and, false_or]
      simp only [reduceCtorEq, false_iff]
      exact fun h => hc ⟨h.2.1, h.1⟩

/-- A header that the handler has left was set by it. -/
theorem exists_sets_of_mem_leftBy {f : Bytes × Bytes} (h : f ∈ (leftBy req ms).headersVector) :
    ∃ m ∈ ms, m.Sets f := by
  rcases Mutation.exists_sets_of_mem_applyAll h with hsets | hnew
  · exact hsets
  · simp [mem_headersVector, HttpResponse.new] at hnew

theorem getHeader_of_mem {r : HttpResponse} {f : Bytes × Bytes} (h : f ∈ r.headersVector) :
    r.getHeader f.1 = f.2 := by
  rw [HttpResponse.getHeader, mem_headersVector.1 h]
  rfl

theorem mem_of_getHeader {r : HttpResponse} {name value : Bytes} (h : r.getHeader name = value)
    (hne : value ≠ []) : (name, value) ∈ r.headersVector := by
  rw [mem_headersVector]
  rw [HttpResponse.getHeader] at h
  cases hget : r.headers[name]? with
  | none =>
    rw [hget] at h
    exact absurd h.symm hne
  | some v =>
    rw [hget] at h
    exact congrArg some h

theorem Discards.harmless (h : Discards req ms e) :
    ∀ f ∈ (leftBy req ms).headersVector, Harmless req e f := by
  intro f hf
  have hvalue := getHeader_of_mem hf
  by_cases hempty : f.2 = [] ∧
      (f.1 = bytes "Content-Length" ∨ f.1 = bytes "Connection" ∧ Downgrades req)
  · obtain ⟨hnil, hl | ⟨hc, hdown⟩⟩ := hempty
    · exact .inl ⟨hl, .inl hnil⟩
    · exact .inr ⟨hc, hdown, .inl hnil⟩
  -- the header is sent as it was left
  have hsent : (failure req ms e).headers[f.1]? = some f.2 := by
    rw [getElem?_headers_failure, if_neg, if_neg]
    · exact mem_headersVector.1 hf
    · rintro ⟨hc, hdown, hnil⟩
      rw [← hc, hvalue] at hnil
      exact hempty ⟨hnil, .inr ⟨hc, hdown⟩⟩
    · rintro ⟨hl, hnil, -⟩
      rw [← hl, hvalue] at hnil
      exact hempty ⟨hnil, .inl hl⟩
  obtain ⟨m, hm, hsets⟩ := exists_sets_of_mem_leftBy hf
  have hserver := h.headers m hm f hsets (mem_headersVector.2 hsent)
  rcases mem_failure_nil.1 hserver with hl | ⟨hdown, hc⟩
  · rw [hl]
    exact .inl ⟨rfl, .inr rfl⟩
  · rw [hc]
    exact .inr ⟨rfl, hdown, .inr rfl⟩

/-- With harmless headers only, the length that is sent is that of the text of the exception. -/
theorem contentLength_of_harmless (h : ∀ f ∈ (leftBy req ms).headersVector, Harmless req e f) :
    (failure req ms e).headers[bytes "Content-Length"]? = some (decimal e.what.length) := by
  have hencoding : (leftBy req ms).getHeader (bytes "Transfer-Encoding") = [] := by
    have hlength : bytes "Transfer-Encoding" ≠ bytes "Content-Length" := by decide
    have hconnection : bytes "Transfer-Encoding" ≠ bytes "Connection" := by decide
    by_contra hne
    rcases h _ (mem_of_getHeader rfl hne) with ⟨hl, -⟩ | ⟨hc, -⟩
    · exact hlength hl
    · exact hconnection hc
  have hne : bytes "Content-Length" ≠ bytes "Connection" := by decide
  rw [getElem?_headers_failure]
  by_cases hnil : (leftBy req ms).getHeader (bytes "Content-Length") = []
  · rw [if_pos ⟨rfl, hnil, hencoding⟩]
  · have hmem := mem_of_getHeader rfl hnil
    rw [if_neg fun hc => hnil hc.2.1, if_neg fun hc => hne hc.1, mem_headersVector.1 hmem]
    rcases h _ hmem with ⟨-, hv | hv⟩ | ⟨hc, -⟩
    · exact absurd hv hnil
    · exact congrArg some hv
    · exact absurd hc hne

theorem discards_of_harmless (h : ∀ f ∈ (leftBy req ms).headersVector, Harmless req e f) :
    Discards req ms e := by
  have hlength := contentLength_of_harmless h
  obtain ⟨-, hstatus, -, hbody⟩ :=
    finish_spec req (caught (leftBy req ms) (.exception e))
  refine ⟨hstatus, hbody, ?_, fun m _ f _ hf => mem_failure_nil.2 ?_⟩
  · rw [HttpResponse.getHeader, hlength]
    rfl
  rw [mem_headersVector] at hf
  by_cases hl : f.1 = bytes "Content-Length"
  · rw [hl, hlength] at hf
    exact .inl (Prod.ext hl (Option.some.inj hf).symm)
  rw [getElem?_headers_failure, if_neg fun hc => hl hc.1] at hf
  split at hf
  · rename_i hc
    exact .inr ⟨hc.2.1, Prod.ext hc.1 (Option.some.inj hf).symm⟩
  · rename_i hc
    have hmem := mem_headersVector.2 hf
    rcases h f hmem with ⟨hname, -⟩ | ⟨hname, hdown, hv | hv⟩
    · exact absurd hname hl
    · refine absurd ⟨hname, hdown, ?_⟩ hc
      rw [← hname, getHeader_of_mem hmem, hv]
    · exact .inr ⟨hdown, Prod.ext hname hv⟩

end Discards

/-- **When a half-built response is discarded.** Whatever the server, the request and the mutations
that the handler gets to before it throws: what is sent is the answer to the exception alone exactly
if the handler leaves harmless headers only. -/
theorem discards_iff {σ : Type*} (server : HttpServer σ) {req req' : HttpRequest}
    {c : Connection σ} {w₁ w₂ : σ} {found : Bool} {ms : List Mutation} {e : StdException}
    (hbefore : processBefore server.middlewares req c.app = (.ok req', w₁))
    (hroute : server.router.route req' (HttpResponse.new (close req)) w₁ =
      (found, ⟨leftBy req ms, some (.exception e)⟩, w₂)) :
    (onRequest server.handleRequest req c).2.log =
        c.log ++ .called req :: .replied (failure req ms e).appendToBuffer ::
          (if (failure req ms e).closeConnection then [.shutdown] else []) ∧
      (Discards req ms e ↔ ∀ f ∈ (leftBy req ms).headersVector, Harmless req e f) := by
  have hfails : Fails server req (HttpResponse.new (close req)) c.app (leftBy req ms) e :=
    .handler hbefore hroute
  obtain ⟨r, app, h⟩ := server.handleRequest_eq_ok req (HttpResponse.new (close req)) c.app
  have hr : r = caught (leftBy req ms) (.exception e) := by
    have hfst := handleRequest_of_fails hfails
    rw [h] at hfst
    exact Except.ok.inj hfst
  rw [hr] at h
  refine ⟨?_, Discards.harmless, discards_of_harmless⟩
  rw [onRequest_of_ok h, reply]
  rfl

/-- A server whose handler performs the mutations and throws. -/
def failingServer (ms : List Mutation) (e : StdException) : HttpServer Unit :=
  ⟨[], { Router.empty with
    handlers := fun _ _ => some fun _ resp w =>
      (.throws (Mutation.applyAll resp ms) (.exception e), w) }⟩

def getRequest : HttpRequest :=
  { HttpRequest.new with
    method := .kGet
    path := bytes "/"
    version := bytes "HTTP/1.1" }

/-- A handler that has set a status, a body, the length of the text of its exception and, for a
request of HTTP/1.0, that the connection is closed. -/
theorem discards_of_left_headers :
    let req := { getRequest with version := bytes "HTTP/1.0" }
    let ms := [Mutation.setStatusCode 200, .setContentLength 4,
      .addHeader (bytes "Connection") (bytes "close"), .setBody (bytes "partial")]
    (leftBy req ms).headersVector =
        [(bytes "Connection", bytes "close"), (bytes "Content-Length", bytes "4")] ∧
      Discards req ms (.runtimeError (bytes "boom")) := by
  intro req ms
  have hleft : (leftBy req ms).headersVector =
      [(bytes "Connection", bytes "close"), (bytes "Content-Length", bytes "4")] := by
    decide +kernel
  refine ⟨hleft, (discards_iff (failingServer ms (.runtimeError (bytes "boom")))
    (c := Connection.new ()) rfl rfl).2.2 fun f hf => ?_⟩
  rw [hleft, List.mem_pair] at hf
  rcases hf with rfl | rfl
  · exact .inr ⟨rfl, by decide, .inr rfl⟩
  · exact .inl ⟨rfl, .inr (by decide +kernel)⟩

/-- A handler that has set a length and a type: the client is sent four bytes and told of fifty. -/
theorem length_of_failed_handler :
    let ms := [Mutation.setContentType (bytes "text/html"), .setContentLength 50]
    let server := failingServer ms (.runtimeError (bytes "boom"))
    (onRequest server.handleRequest getRequest (Connection.new ())).2.log =
        [.called getRequest, .replied (bytes "HTTP/1.1 500 Internal Server Error\r\n" ++
          bytes "Connection: Keep-Alive\r\nContent-Length: 50\r\nContent-Type: text/html\r\n" ++
          bytes "\r\nboom")] ∧
      ¬ Discards getRequest ms (.runtimeError (bytes "boom")) := by
  intro ms server
  refine ⟨by decide +kernel, fun h => ?_⟩
  have hlength : (failure getRequest ms (.runtimeError (bytes "boom"))).getHeader
      (bytes "Content-Length") = bytes "50" := by decide +kernel
  have hfour := h.length
  rw [hlength] at hfour
  exact absurd hfour (by decide +kernel)

end KamaHttp
