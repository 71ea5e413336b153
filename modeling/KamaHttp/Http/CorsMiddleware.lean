import KamaHttp.Http.Exits

/-!
# The middleware for requests from other origins

`CorsMiddleware.h`, `CorsMiddleware.cpp`, `CorsConfig.h`. The hook `before` answers preflight
requests with a response that it throws; the hook `after` adds the headers to every other response
that it is given.

* `preflight_agrees_iff`: when the two of them allow the same origin.
-/

namespace KamaHttp

structure CorsConfig where
  allowedOrigins : List Bytes
  allowedMethods : List Bytes
  allowedHeaders : List Bytes
  allowCredentials : Bool := false
  maxAge : ℤ := 3600

/-- `defaultConfig`. -/
def CorsConfig.defaultConfig : CorsConfig where
  allowedOrigins := [bytes "*"]
  allowedMethods := [bytes "GET", bytes "POST", bytes "PUT", bytes "DELETE", bytes "OPTIONS"]
  allowedHeaders := [bytes "Content-Type", bytes "Authorization"]

namespace CorsMiddleware

/-- `join`. -/
def join (strings : List Bytes) (delimiter : Bytes) : Bytes := delimiter.intercalate strings

def isOriginAllowed (config : CorsConfig) (origin : Bytes) : Bool :=
  config.allowedOrigins.isEmpty || config.allowedOrigins.contains (bytes "*") ||
    config.allowedOrigins.contains origin

/-- `addCorsHeaders`, header by header. -/
def addCorsHeaders (config : CorsConfig) (response : HttpResponse) (origin : Bytes) :
    HttpResponse :=
  let response := response.addHeader (bytes "Access-Control-Allow-Origin") origin
  let response :=
    if config.allowCredentials then
      response.addHeader (bytes "Access-Control-Allow-Credentials") (bytes "true")
    else response
  let response :=
    if config.allowedMethods ≠ [] then
      response.addHeader (bytes "Access-Control-Allow-Methods")
        (join config.allowedMethods (bytes ", "))
    else response
  let response :=
    if config.allowedHeaders ≠ [] then
      response.addHeader (bytes "Access-Control-Allow-Headers")
        (join config.allowedHeaders (bytes ", "))
    else response
  response.addHeader (bytes "Access-Control-Max-Age") (decimal config.maxAge)

def handlePreflightRequest (config : CorsConfig) (request : HttpRequest)
    (response : HttpResponse) : HttpResponse :=
  let origin := request.getHeader (bytes "Origin")
  if isOriginAllowed config origin then
    (addCorsHeaders config response origin).setStatusCode 204
  else response.setStatusCode 403

/-- `before`: a preflight request is answered with a response that closes the connection, as it is
default-constructed. -/
def before {σ : Type*} (config : CorsConfig) (request : HttpRequest) (w : σ) :
    Except Thrown HttpRequest × σ :=
  if request.method = .kOptions then
    (.error (.response (handlePreflightRequest config request (HttpResponse.new true))), w)
  else (.ok request, w)

def after {σ : Type*} (config : CorsConfig) (response : HttpResponse) (w : σ) : Answer × σ :=
  match config.allowedOrigins with
  | [] => (.returns response, w)
  | origin :: _ =>
    if config.allowedOrigins.contains (bytes "*") then
      (.returns (addCorsHeaders config response (bytes "*")), w)
    else (.returns (addCorsHeaders config response origin), w)

/-- The headers of the default configuration. -/
theorem addCorsHeaders_default (response : HttpResponse) (origin : Bytes) :
    addCorsHeaders .defaultConfig response origin =
      (((response.addHeader (bytes "Access-Control-Allow-Origin") origin).addHeader
        (bytes "Access-Control-Allow-Methods") (join CorsConfig.defaultConfig.allowedMethods
          (bytes ", "))).addHeader
        (bytes "Access-Control-Allow-Headers") (join CorsConfig.defaultConfig.allowedHeaders
          (bytes ", "))).addHeader
        (bytes "Access-Control-Max-Age") (decimal CorsConfig.defaultConfig.maxAge) := by
  simp [addCorsHeaders, CorsConfig.defaultConfig]

/-- The default configuration allows every origin. -/
theorem handlePreflightRequest_default (request : HttpRequest) (response : HttpResponse) :
    handlePreflightRequest .defaultConfig request response =
      (addCorsHeaders .defaultConfig response (request.getHeader (bytes "Origin"))).setStatusCode
        204 := by
  have hallowed : isOriginAllowed .defaultConfig (request.getHeader (bytes "Origin")) := by
    simp [isOriginAllowed, CorsConfig.defaultConfig]
  rw [handlePreflightRequest, if_pos hallowed]

@[simp] theorem closeConnection_addCorsHeaders (config : CorsConfig) (response : HttpResponse)
    (origin : Bytes) :
    (addCorsHeaders config response origin).closeConnection = response.closeConnection := by
  simp only [addCorsHeaders]
  split_ifs <;> rfl

theorem statusCode_addCorsHeaders (config : CorsConfig) (response : HttpResponse)
    (origin : Bytes) :
    (addCorsHeaders config response origin).statusCode = response.statusCode := by
  simp only [addCorsHeaders]
  split_ifs <;> rfl

/-- What a preflight request is answered with closes the connection as the response does. -/
theorem closeConnection_handlePreflightRequest (config : CorsConfig) (request : HttpRequest)
    (response : HttpResponse) :
    (handlePreflightRequest config request response).closeConnection =
      response.closeConnection := by
  simp only [handlePreflightRequest]
  split
  · exact closeConnection_addCorsHeaders config response _
  · rfl

/-- The origin that a response names: any, or the first one that is allowed. -/
def answeredOrigin (config : CorsConfig) : Bytes :=
  if config.allowedOrigins.contains (bytes "*") then bytes "*" else config.allowedOrigins.headD []

/-- With origins that are allowed, the hook `after` adds the headers to every response. -/
theorem after_eq {σ : Type*} {config : CorsConfig} (h : config.allowedOrigins ≠ [])
    (response : HttpResponse) (w : σ) :
    after config response w =
      (.returns (addCorsHeaders config response (answeredOrigin config)), w) := by
  rw [after, answeredOrigin]
  split
  · rename_i hnil
    exact absurd hnil h
  · rename_i origin origins horigins
    split
    · rfl
    · rw [horigins]
      rfl

/-! ## Preflight and response -/

/-- The response names the origin, or any. -/
def Admits (origin : Bytes) (response : HttpResponse) : Prop :=
  response.headers[bytes "Access-Control-Allow-Origin"]? = some origin ∨
    response.headers[bytes "Access-Control-Allow-Origin"]? = some (bytes "*")

instance (origin : Bytes) (response : HttpResponse) : Decidable (Admits origin response) :=
  inferInstanceAs (Decidable (_ ∨ _))

/-- The headers that are added leave the origin. -/
theorem allowOrigin_addCorsHeaders (config : CorsConfig) (response : HttpResponse)
    (origin : Bytes) :
    (addCorsHeaders config response origin).headers[bytes "Access-Control-Allow-Origin"]? =
      some origin := by
  have hother : ∀ (r : HttpResponse) {key : Bytes} (value : Bytes),
      key ≠ bytes "Access-Control-Allow-Origin" →
        r.headers[bytes "Access-Control-Allow-Origin"]? = some origin →
        (r.addHeader key value).headers[bytes "Access-Control-Allow-Origin"]? = some origin := by
    intro r key value hkey hr
    rw [HttpResponse.addHeader, Std.ExtTreeMap.getElem?_insert, if_neg (by simpa using hkey), hr]
  have hif : ∀ (p : Prop) [Decidable p] (r : HttpResponse) {key : Bytes} (value : Bytes),
      key ≠ bytes "Access-Control-Allow-Origin" →
        r.headers[bytes "Access-Control-Allow-Origin"]? = some origin →
        (if p then r.addHeader key value else r).headers[bytes "Access-Control-Allow-Origin"]? =
          some origin := by
    intro p _ r key value hkey hr
    split
    · exact hother r value hkey hr
    · exact hr
  refine hother _ _ (by decide) (hif _ _ _ (by decide) (hif _ _ _ (by decide)
    (hif _ _ _ (by decide) ?_)))
  simp [HttpResponse.addHeader]

theorem admits_addCorsHeaders (config : CorsConfig) (response : HttpResponse)
    (origin origin' : Bytes) :
    Admits origin' (addCorsHeaders config response origin) ↔
      origin = origin' ∨ origin = bytes "*" := by
  rw [Admits, allowOrigin_addCorsHeaders, Option.some.injEq, Option.some.injEq]

/-- A preflight request is answered 204, with an origin that admits its own. -/
def PreflightAdmits {σ : Type*} (config : CorsConfig) (request : HttpRequest) (w : σ) : Prop :=
  ∃ response, (before config request w).1 = .error (.response response) ∧
    response.statusCode = 204 ∧ Admits (request.getHeader (bytes "Origin")) response

/-- Whatever the response, the hook `after` gives it an origin that admits `origin`. -/
def ResponseAdmits {σ : Type*} (config : CorsConfig) (origin : Bytes) (w : σ) : Prop :=
  ∀ response, Admits origin (after config response w).1.response

variable {σ : Type*} {config : CorsConfig} {request : HttpRequest} {origin : Bytes} {w : σ}

/-- Preflight requests are answered by the list of origins. -/
theorem preflightAdmits_iff (h : request.method = .kOptions) :
    PreflightAdmits config request w ↔
      isOriginAllowed config (request.getHeader (bytes "Origin")) := by
  have hbefore : (before config request w).1 =
      .error (.response (handlePreflightRequest config request (HttpResponse.new true))) := by
    rw [before, if_pos h]
  constructor
  · rintro ⟨response, hresponse, hstatus, -⟩
    obtain rfl := Thrown.response.inj (Except.error.inj (hbefore.symm.trans hresponse))
    by_contra hnot
    rw [handlePreflightRequest, if_neg hnot] at hstatus
    cases hstatus
  · intro hallowed
    rw [handlePreflightRequest, if_pos hallowed] at hbefore
    exact ⟨_, hbefore, rfl, (admits_addCorsHeaders config _ _ _).2 (.inl rfl)⟩

/-- Responses are given any origin or the first one of the list, and no origin if there is none. -/
theorem responseAdmits_iff :
    ResponseAdmits config origin w ↔
      bytes "*" ∈ config.allowedOrigins ∨ config.allowedOrigins.head? = some origin := by
  rcases horigins : config.allowedOrigins with _ | ⟨first, rest⟩
  · refine iff_of_false (fun h => ?_) (by simp)
    have hnew := h (HttpResponse.new false)
    simp only [after, horigins] at hnew
    exact absurd hnew (by simp [Admits, Answer.returns, HttpResponse.new])
  · have hne : config.allowedOrigins ≠ [] := by simp [horigins]
    have hafter : ResponseAdmits config origin w ↔
        answeredOrigin config = origin ∨ answeredOrigin config = bytes "*" := by
      simp only [ResponseAdmits, after_eq hne, Answer.returns, admits_addCorsHeaders]
      exact ⟨fun hall => hall (HttpResponse.new false), fun hadmits _ => hadmits⟩
    rw [hafter, answeredOrigin, horigins]
    split
    · rename_i hany
      exact iff_of_true (.inr rfl) (.inl (List.contains_iff_mem.1 hany))
    · rename_i hany
      rw [List.contains_iff_mem] at hany
      have hfirst : first ≠ bytes "*" := fun he => hany (he ▸ List.mem_cons_self)
      simp only [List.headD_cons, List.head?_cons, Option.some.injEq, hfirst, or_false, hany,
        false_or]

/-- **When preflight and response agree.** Whatever the list of origins: exactly if any origin is
allowed, or there is a list and no origin of it but the first one asks. -/
theorem preflight_agrees_iff (config : CorsConfig) (request : HttpRequest) (w : σ)
    (h : request.method = .kOptions) :
    (PreflightAdmits config request w ↔
        ResponseAdmits config (request.getHeader (bytes "Origin")) w) ↔
      bytes "*" ∈ config.allowedOrigins ∨
        (config.allowedOrigins ≠ [] ∧
          (request.getHeader (bytes "Origin") ∈ config.allowedOrigins →
            config.allowedOrigins.head? = some (request.getHeader (bytes "Origin")))) := by
  generalize horigin : request.getHeader (bytes "Origin") = origin
  rw [preflightAdmits_iff h, responseAdmits_iff, horigin]
  simp only [isOriginAllowed, Bool.or_eq_true, List.isEmpty_iff, List.contains_iff_mem]
  rcases config.allowedOrigins with _ | ⟨first, rest⟩
  · simp
  · by_cases hany : bytes "*" ∈ first :: rest
    · simp [hany]
    · simp only [hany, reduceCtorEq, false_or, ne_eq, not_false_eq_true, true_and]
      refine ⟨fun hagree => hagree.1, fun hfirst => ⟨hfirst, fun hhead => ?_⟩⟩
      rw [List.head?_cons, Option.some.injEq] at hhead
      exact hhead ▸ List.mem_cons_self

/-- A preflight request from an origin. -/
def preflightRequest (origin : Bytes) : HttpRequest :=
  { HttpRequest.new with
    method := .kOptions
    headers := (∅ : StringMap).insert (bytes "Origin") origin }

/-- The default configuration with a list of origins. -/
def originsConfig (origins : List Bytes) : CorsConfig :=
  { CorsConfig.defaultConfig with allowedOrigins := origins }

theorem preflight_agrees_iff_first :
    let config := originsConfig [bytes "http://a"]
    let request := preflightRequest (bytes "http://a")
    request.method = .kOptions ∧
      ((PreflightAdmits config request () ↔
          ResponseAdmits config (request.getHeader (bytes "Origin")) ()) ↔
        bytes "*" ∈ config.allowedOrigins ∨
          (config.allowedOrigins ≠ [] ∧
            (request.getHeader (bytes "Origin") ∈ config.allowedOrigins →
              config.allowedOrigins.head? = some (request.getHeader (bytes "Origin"))))) :=
  ⟨rfl, preflight_agrees_iff _ _ _ rfl⟩

/-- The second origin of a list passes the preflight, and so does every origin if the list is empty;
the responses name the first origin, and none. -/
theorem preflight_disagrees :
    (PreflightAdmits (originsConfig [bytes "http://a", bytes "http://b"])
        (preflightRequest (bytes "http://b")) () ∧
      ¬ ResponseAdmits (originsConfig [bytes "http://a", bytes "http://b"])
        (bytes "http://b") ()) ∧
      PreflightAdmits (originsConfig []) (preflightRequest (bytes "http://b")) () ∧
        ¬ ResponseAdmits (originsConfig []) (bytes "http://b") () := by
  have hoptions : ∀ origin, (preflightRequest origin).method = .kOptions := fun _ => rfl
  simp only [preflightAdmits_iff (hoptions _), responseAdmits_iff]
  decide

end CorsMiddleware

/-- The hooks, by the configuration. -/
def corsMiddleware {σ : Type*} (config : CorsConfig) : Middleware σ :=
  ⟨CorsMiddleware.before config, CorsMiddleware.after config⟩

theorem corsMiddleware_filters {σ : Type*} (config : CorsConfig) :
    MiddlewareChain.Filters (corsMiddleware config : Middleware σ) := by
  intro request w r h
  simp only [corsMiddleware, CorsMiddleware.before] at h
  split at h
  · cases h
  · exact (Except.ok.inj h).symm

@[simp] theorem corsMiddleware_before_snd {σ : Type*} (config : CorsConfig)
    (request : HttpRequest) (w : σ) : ((corsMiddleware config).before request w).2 = w := by
  simp only [corsMiddleware, CorsMiddleware.before]
  split <;> rfl

/-- What is kept where the headers are added, and has the answer to every preflight request. -/
theorem corsMiddleware_respects {σ : Type*} {P : HttpRequest → Prop} {Q : HttpResponse → Prop}
    {I : σ → Prop} {config : CorsConfig}
    (hpreflight : ∀ request, P request → request.method = .kOptions →
      Q (CorsMiddleware.handlePreflightRequest config request (HttpResponse.new true)))
    (hadd : ∀ response origin, origin ∈ config.allowedOrigins → Q response →
      Q (CorsMiddleware.addCorsHeaders config response origin)) :
    (corsMiddleware config : Middleware σ).Respects P Q I where
  before request w hreq hw := by
    simp only [corsMiddleware, CorsMiddleware.before]
    split
    · rename_i hoptions
      refine ⟨hw, fun _ h => (by cases h), fun r h => ?_⟩
      exact Thrown.response.inj (Except.error.inj h) ▸ hpreflight request hreq hoptions
    · exact ⟨hw, fun _ h => Except.ok.inj h ▸ hreq, fun _ h => by cases h⟩
  after response w hresp hw := by
    simp only [corsMiddleware, CorsMiddleware.after]
    split
    · exact .returns hresp hw
    · rename_i origin origins horigins
      split
      · rename_i hany
        exact .returns (hadd response _ (List.contains_iff_mem.1 hany) hresp) hw
      · exact .returns (hadd response origin (by simp [horigins]) hresp) hw

end KamaHttp
