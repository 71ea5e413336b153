import KamaHttp.Http.PathPattern

/-!
# The order of the routes

A router is built by registrations (`Router.h`, `Router.cpp`): exact routes replace those that were
registered before for the same method and path, and dynamic routes stand behind those that were. The
expressions of `std::regex` are those that its constructor makes of a text, or it throws.

* `Chosen`: what is to serve a request, by the registrations alone.
* `route_of_chosen`, `route_of_not_chosen`: `route` serves a request so.
* `route_invokes`: one function is invoked, or none.
* `delivers_iff`: the requests that reach the functions of dynamic routes with the parameters.
-/

namespace KamaHttp

/-- What the constructor of `std::regex` makes of a text: `regex_match` with the expression, or
nothing, if it throws. -/
abbrev RegexCompiler := Bytes → Option (Bytes → Option (List Bytes))

namespace Router

variable {σ : Type*}

def registerHandler (method : HttpRequest.Method) (path : Bytes) (handler : Handler σ)
    (router : Router σ) : Router σ :=
  { router with
    handlers := fun m p => if m = method ∧ p = path then some handler else router.handlers m p }

def registerCallback (method : HttpRequest.Method) (path : Bytes) (callback : Handler σ)
    (router : Router σ) : Router σ :=
  { router with
    callbacks := fun m p =>
      if m = method ∧ p = path then some callback else router.callbacks m p }

/-- The entry for a dynamic route, if `convertToRegex` does not throw. -/
def regexRoute (compile : RegexCompiler) (method : HttpRequest.Method) (path : Bytes)
    (f : Handler σ) : List (RegexRoute σ) :=
  match compile (convertToRegex path) with
  | some pattern => [⟨method, pattern, f⟩]
  | none => []

def addRegexHandler (compile : RegexCompiler) (method : HttpRequest.Method) (path : Bytes)
    (handler : Handler σ) (router : Router σ) : Router σ :=
  { router with
    regexHandlers := router.regexHandlers ++ regexRoute compile method path handler }

def addRegexCallback (compile : RegexCompiler) (method : HttpRequest.Method) (path : Bytes)
    (callback : Handler σ) (router : Router σ) : Router σ :=
  { router with
    regexCallbacks := router.regexCallbacks ++ regexRoute compile method path callback }

end Router

/-! ## Registrations -/

/-- A call that registers a target. -/
inductive Registration (ι : Type*)
  | registerHandler (method : HttpRequest.Method) (path : Bytes) (target : ι)
  | registerCallback (method : HttpRequest.Method) (path : Bytes) (target : ι)
  | addRegexHandler (method : HttpRequest.Method) (path : Bytes) (target : ι)
  | addRegexCallback (method : HttpRequest.Method) (path : Bytes) (target : ι)

namespace Registration

variable {ι σ : Type*}

/-- The call, on a router. -/
def register (compile : RegexCompiler) (f : ι → Handler σ) (router : Router σ) :
    Registration ι → Router σ
  | registerHandler method path i => router.registerHandler method path (f i)
  | registerCallback method path i => router.registerCallback method path (f i)
  | addRegexHandler method path i => router.addRegexHandler compile method path (f i)
  | addRegexCallback method path i => router.addRegexCallback compile method path (f i)

/-- The router after the calls. -/
def build (compile : RegexCompiler) (f : ι → Handler σ) (regs : List (Registration ι)) :
    Router σ := regs.foldl (register compile f) Router.empty

/-! ## What serves a request -/

variable (compile : RegexCompiler) (req : HttpRequest)

/-- The captures of the path, if the pattern matches it. -/
def captured (pathPattern : Bytes) : Option (List Bytes) :=
  (compile (Router.convertToRegex pathPattern)).bind fun pattern => pattern req.path

/-- The target of a handler for exactly the method and path. -/
def handlerFor : Registration ι → Option ι
  | registerHandler method path i => if method = req.method ∧ path = req.path then some i else none
  | _ => none

/-- The target of a callback for exactly the method and path. -/
def callbackFor : Registration ι → Option ι
  | registerCallback method path i =>
    if method = req.method ∧ path = req.path then some i else none
  | _ => none

/-- The target of a dynamic route to a handler that matches, with the captures. -/
def regexHandlerFor : Registration ι → Option (ι × List Bytes)
  | addRegexHandler method path i =>
    if method = req.method then (captured compile req path).map fun groups => (i, groups) else none
  | _ => none

/-- The target of a dynamic route to a callback that matches, with the captures. -/
def regexCallbackFor : Registration ι → Option (ι × List Bytes)
  | addRegexCallback method path i =>
    if method = req.method then (captured compile req path).map fun groups => (i, groups) else none
  | _ => none

/-- The first registration of a kind is one of `x`. -/
def First {β : Type*} (kind : Registration ι → Option β) (regs : List (Registration ι)) (x : β) :
    Prop :=
  ∃ before r after, regs = before ++ r :: after ∧ kind r = some x ∧ ∀ r' ∈ before, kind r' = none

/-- The last registration of a kind is one of `x`. -/
def Last {β : Type*} (kind : Registration ι → Option β) (regs : List (Registration ι)) (x : β) :
    Prop :=
  ∃ before r after, regs = before ++ r :: after ∧ kind r = some x ∧ ∀ r' ∈ after, kind r' = none

/-- There is no registration of a kind. -/
def Absent {β : Type*} (kind : Registration ι → Option β) (regs : List (Registration ι)) : Prop :=
  ∀ r ∈ regs, kind r = none

/-- How a request is served. -/
inductive Way
  | exact
  | regexHandler (groups : List Bytes)
  | regexCallback (groups : List Bytes)

/-- The captures, if the route is dynamic. -/
def Way.groups? : Way → Option (List Bytes)
  | exact => none
  | regexHandler groups | regexCallback groups => some groups

/-- The target that is to serve a request: that of the last handler for exactly the method and path,
else of the last callback, else of the first dynamic route to a handler that matches, else of the
first to a callback. -/
inductive Chosen (regs : List (Registration ι)) : ι → Way → Prop
  | handler {i} (h : Last (handlerFor req) regs i) : Chosen regs i .exact
  | callback {i} (hhandler : Absent (handlerFor req) regs) (h : Last (callbackFor req) regs i) :
    Chosen regs i .exact
  | regexHandler {i groups} (hhandler : Absent (handlerFor req) regs)
    (hcallback : Absent (callbackFor req) regs)
    (h : First (regexHandlerFor compile req) regs (i, groups)) :
    Chosen regs i (.regexHandler groups)
  | regexCallback {i groups} (hhandler : Absent (handlerFor req) regs)
    (hcallback : Absent (callbackFor req) regs)
    (hregex : Absent (regexHandlerFor compile req) regs)
    (h : First (regexCallbackFor compile req) regs (i, groups)) :
    Chosen regs i (.regexCallback groups)

/-! ## The tables -/

section Tables

variable {compile req} {β : Type*} {kind : Registration ι → Option β}
  {regs : List (Registration ι)} {x : β} (f : ι → Handler σ)

theorem findSome?_eq_some_iff_first : regs.findSome? kind = some x ↔ First kind regs x :=
  List.findSome?_eq_some_iff

theorem findSome?_reverse_eq_some_iff_last :
    regs.reverse.findSome? kind = some x ↔ Last kind regs x := by
  rw [List.findSome?_eq_some_iff]
  constructor
  · rintro ⟨after, r, before, he, hr, hafter⟩
    refine ⟨before.reverse, r, after.reverse, ?_, hr, fun r' hr' => hafter r' (by simpa using hr')⟩
    rw [List.reverse_eq_iff.1 he]
    simp
  · rintro ⟨before, r, after, rfl, hr, hafter⟩
    exact ⟨after.reverse, r, before.reverse, by simp, hr,
      fun r' hr' => hafter r' (by simpa using hr')⟩

theorem findSome?_eq_none_iff_absent : regs.findSome? kind = none ↔ Absent kind regs :=
  List.findSome?_eq_none_iff

theorem findSome?_reverse_eq_none_iff_absent :
    regs.reverse.findSome? kind = none ↔ Absent kind regs := by
  simp [Absent, List.findSome?_eq_none_iff]

theorem build_concat (compile : RegexCompiler) (regs : List (Registration ι))
    (r : Registration ι) :
    build compile f (regs ++ [r]) = register compile f (build compile f regs) r := by
  rw [build, List.foldl_append]
  rfl

/-- Where a registration replaces what there was, the last one stands. -/
theorem last_build {kind : Registration ι → Option ι} (entry : Router σ → Option (Handler σ))
    (hempty : entry .empty = none)
    (hregister : ∀ router r,
      entry (register compile f router r) = ((kind r).map f).or (entry router))
    (regs : List (Registration ι)) :
    entry (build compile f regs) = (regs.reverse.findSome? kind).map f := by
  induction regs using List.reverseRecOn with
  | nil => exact hempty
  | append_singleton regs r ih =>
    rw [build_concat, hregister, ih, List.reverse_concat, List.findSome?_cons]
    cases kind r <;> rfl

/-- Where a registration comes behind those there were, the first one that matches stands. -/
theorem first_build {β γ : Type*} {kind : Registration ι → Option β} (g : β → γ)
    (entry : Router σ → Option γ) (hempty : entry .empty = none)
    (hregister : ∀ router r,
      entry (register compile f router r) = (entry router).or ((kind r).map g))
    (regs : List (Registration ι)) :
    entry (build compile f regs) = (regs.findSome? kind).map g := by
  induction regs using List.reverseRecOn with
  | nil => exact hempty
  | append_singleton regs r ih =>
    rw [build_concat, hregister, ih, List.findSome?_append, Option.map_or,
      List.findSome?_singleton]

/-- The handler for the method and path is the last that was registered. -/
theorem handlers_build (regs : List (Registration ι)) :
    (build compile f regs).handlers req.method req.path =
      (regs.reverse.findSome? (handlerFor req)).map f := by
  refine last_build f (fun router => router.handlers req.method req.path) rfl
    (fun router r => ?_) regs
  cases r with
  | registerHandler method path i =>
    simp only [register, Router.registerHandler, handlerFor, @eq_comm _ req.method,
      @eq_comm _ req.path]
    split <;> rfl
  | registerCallback | addRegexHandler | addRegexCallback => rfl

/-- The callback for the method and path is the last that was registered. -/
theorem callbacks_build (regs : List (Registration ι)) :
    (build compile f regs).callbacks req.method req.path =
      (regs.reverse.findSome? (callbackFor req)).map f := by
  refine last_build f (fun router => router.callbacks req.method req.path) rfl
    (fun router r => ?_) regs
  cases r with
  | registerCallback method path i =>
    simp only [register, Router.registerCallback, callbackFor, @eq_comm _ req.method,
      @eq_comm _ req.path]
    split <;> rfl
  | registerHandler | addRegexHandler | addRegexCallback => rfl

/-- What is found when there is an entry more, for a dynamic route. -/
theorem findRoute_append_regexRoute (routes : List (RegexRoute σ)) (method : HttpRequest.Method)
    (path : Bytes) (i : ι) :
    Router.findRoute (routes ++ Router.regexRoute compile method path (f i)) req =
      (Router.findRoute routes req).or
        ((if method = req.method then (captured compile req path).map fun groups => (i, groups)
          else none).map fun x => (f x.1, x.2)) := by
  refine (List.findSome?_append ..).trans (congrArg _ ?_)
  unfold Router.regexRoute captured
  cases compile (Router.convertToRegex path) with
  | none => simp
  | some pattern =>
    by_cases hmethod : method = req.method
    · cases hpattern : pattern req.path <;> simp [hmethod, hpattern]
    · simp [hmethod]

/-- The dynamic route to a handler that is found is the first that was registered. -/
theorem findRoute_regexHandlers_build (regs : List (Registration ι)) :
    Router.findRoute (build compile f regs).regexHandlers req =
      (regs.findSome? (regexHandlerFor compile req)).map fun x => (f x.1, x.2) := by
  refine first_build f _ (fun router => Router.findRoute router.regexHandlers req) rfl
    (fun router r => ?_) regs
  cases r with
  | addRegexHandler method path i => exact findRoute_append_regexRoute f _ method path i
  | registerHandler | registerCallback | addRegexCallback => exact (Option.or_none).symm

/-- The dynamic route to a callback that is found is the first that was registered. -/
theorem findRoute_regexCallbacks_build (regs : List (Registration ι)) :
    Router.findRoute (build compile f regs).regexCallbacks req =
      (regs.findSome? (regexCallbackFor compile req)).map fun x => (f x.1, x.2) := by
  refine first_build f _ (fun router => Router.findRoute router.regexCallbacks req) rfl
    (fun router r => ?_) regs
  cases r with
  | addRegexCallback method path i => exact findRoute_append_regexRoute f _ method path i
  | registerHandler | registerCallback | addRegexHandler => exact (Option.or_none).symm

end Tables

/-! ## What `route` does -/

section Route

variable {compile req} {regs : List (Registration ι)} {i : ι} {way : Way}

/-- The request that the target is invoked with: the path parameters reach handlers only. -/
def Way.delivered (way : Way) (req : HttpRequest) : HttpRequest :=
  match way with
  | exact | regexCallback _ => req
  | regexHandler groups => Router.extractPathParameters groups req

/-- The target that is to serve a request is invoked. -/
theorem route_of_chosen (f : ι → Handler σ) (h : Chosen compile req regs i way)
    (resp : HttpResponse) (w : σ) :
    (build compile f regs).route req resp w = (true, f i (way.delivered req) resp w) := by
  unfold Router.route
  rw [handlers_build, callbacks_build, findRoute_regexHandlers_build,
    findRoute_regexCallbacks_build]
  cases h with
  | handler h => rw [findSome?_reverse_eq_some_iff_last.2 h]; rfl
  | callback hhandler h =>
    rw [findSome?_reverse_eq_none_iff_absent.2 hhandler, findSome?_reverse_eq_some_iff_last.2 h]
    rfl
  | regexHandler hhandler hcallback h =>
    rw [findSome?_reverse_eq_none_iff_absent.2 hhandler,
      findSome?_reverse_eq_none_iff_absent.2 hcallback, findSome?_eq_some_iff_first.2 h]
    rfl
  | regexCallback hhandler hcallback hregex h =>
    rw [findSome?_reverse_eq_none_iff_absent.2 hhandler,
      findSome?_reverse_eq_none_iff_absent.2 hcallback, findSome?_eq_none_iff_absent.2 hregex,
      findSome?_eq_some_iff_first.2 h]
    rfl

/-- If there is none, the response stays. -/
theorem route_of_not_chosen (f : ι → Handler σ) (h : ∀ i way, ¬ Chosen compile req regs i way)
    (resp : HttpResponse) (w : σ) :
    (build compile f regs).route req resp w = (false, .returns resp, w) := by
  have hhandler : regs.reverse.findSome? (handlerFor req) = none :=
    Option.eq_none_iff_forall_ne_some.2 fun i hi =>
      h i _ (.handler (findSome?_reverse_eq_some_iff_last.1 hi))
  have hcallback : regs.reverse.findSome? (callbackFor req) = none :=
    Option.eq_none_iff_forall_ne_some.2 fun i hi =>
      h i _ (.callback (findSome?_reverse_eq_none_iff_absent.1 hhandler)
        (findSome?_reverse_eq_some_iff_last.1 hi))
  have hregexHandler : regs.findSome? (regexHandlerFor compile req) = none :=
    Option.eq_none_iff_forall_ne_some.2 fun x hx =>
      h x.1 _ (.regexHandler (findSome?_reverse_eq_none_iff_absent.1 hhandler)
        (findSome?_reverse_eq_none_iff_absent.1 hcallback) (findSome?_eq_some_iff_first.1 hx))
  have hregexCallback : regs.findSome? (regexCallbackFor compile req) = none :=
    Option.eq_none_iff_forall_ne_some.2 fun x hx =>
      h x.1 _ (.regexCallback (findSome?_reverse_eq_none_iff_absent.1 hhandler)
        (findSome?_reverse_eq_none_iff_absent.1 hcallback)
        (findSome?_eq_none_iff_absent.1 hregexHandler) (findSome?_eq_some_iff_first.1 hx))
  unfold Router.route
  rw [handlers_build, callbacks_build, findRoute_regexHandlers_build,
    findRoute_regexCallbacks_build, hhandler, hcallback, hregexHandler, hregexCallback]
  rfl

end Route

/-! ## What is invoked -/

section Invoked

variable {compile req} {regs : List (Registration ι)} {i : ι} {way : Way}

/-- The functions, with a record of their invocations and the requests of these. -/
def recorded (f : ι → Handler σ) (i : ι) : Handler (σ × List (ι × HttpRequest)) :=
  fun req resp w =>
    let (answer, w') := f i req resp w.1
    (answer, w', w.2 ++ [(i, req)])

/-- **The order of the routes**: the target that is to serve a request is invoked, and no other; if
there is none, nothing is invoked and the response stays. -/
theorem route_invokes (compile : RegexCompiler) (f : ι → Handler σ)
    (regs : List (Registration ι)) (req : HttpRequest) (resp : HttpResponse) (w : σ) :
    (∀ i way, Chosen compile req regs i way →
      ∃ req', (build compile (recorded f) regs).route req resp (w, []) =
        (true, (f i req' resp w).1, (f i req' resp w).2, [(i, req')])) ∧
      ((∀ i way, ¬ Chosen compile req regs i way) →
        (build compile (recorded f) regs).route req resp (w, []) =
          (false, .returns resp, w, [])) :=
  ⟨fun _ way h => ⟨way.delivered req, route_of_chosen (recorded f) h resp (w, [])⟩,
    fun h => route_of_not_chosen (recorded f) h resp (w, [])⟩

/-- A request that differs from another in that its path parameters bind `param1`, `param2` and so
on to the captures. -/
def Delivers (groups : List Bytes) (req req' : HttpRequest) : Prop :=
  req' = { req with pathParameters := req'.pathParameters } ∧
    (∀ i g, groups[i]? = some g →
      req'.pathParameters[bytes "param" ++ decimal (i + 1 : ℕ)]? = some g) ∧
    ∀ key, (∀ i < groups.length, key ≠ bytes "param" ++ decimal (i + 1 : ℕ)) →
      req'.pathParameters[key]? = req.pathParameters[key]?

theorem delivers_extractPathParameters (groups : List Bytes) (req : HttpRequest) :
    Delivers groups req (Router.extractPathParameters groups req) :=
  ⟨Router.extractPathParameters_eq groups req,
    fun _ _ hg => Router.getElem?_extractPathParameters hg,
    fun _ hkey => Router.getElem?_extractPathParameters_of_ne hkey⟩

/-- **When a dynamic route delivers its parameters**: when it leads to a handler, or the request has
them already. -/
theorem delivers_iff (f : ι → Handler σ) {groups : List Bytes}
    (h : Chosen compile req regs i way) (hgroups : way.groups? = some groups)
    (resp : HttpResponse) (w : σ) :
    (∃ req', ((build compile (recorded f) regs).route req resp (w, [])).2.2.2 = [(i, req')] ∧
      Delivers groups req req') ↔
      way = .regexHandler groups ∨
        ∀ i g, groups[i]? = some g →
          req.pathParameters[bytes "param" ++ decimal (i + 1 : ℕ)]? = some g := by
  have hinvoked : ((build compile (recorded f) regs).route req resp (w, [])).2.2.2 =
      [(i, way.delivered req)] := by
    rw [route_of_chosen (recorded f) h]
    rfl
  simp only [hinvoked, List.cons.injEq, Prod.mk.injEq, true_and, and_true, exists_eq_left']
  cases way with
  | exact => cases hgroups
  | regexHandler groups' =>
    obtain rfl := Option.some.inj hgroups
    exact ⟨fun _ => .inl rfl, fun _ => delivers_extractPathParameters groups' req⟩
  | regexCallback groups' =>
    obtain rfl := Option.some.inj hgroups
    constructor
    · exact fun hreq => .inr hreq.2.1
    · rintro (hway | hreq)
      · cases hway
      · exact ⟨rfl, hreq, fun _ _ => rfl⟩

/-- A request for `/s/a`. -/
def getItem : HttpRequest := { HttpRequest.new with method := .kGet, path := bytes "/s/a" }

theorem delivers_iff_getItem :
    (∃ req', ((build Regex.compile (recorded fun _ : Unit => fun _ resp w => (.returns resp, w))
        [.addRegexHandler .kGet (bytes "/s/:id") ()]).route getItem (HttpResponse.new true)
          ((), [])).2.2.2 = [((), req')] ∧ Delivers [bytes "a"] getItem req') ↔
      Way.regexHandler [bytes "a"] = .regexHandler [bytes "a"] ∨
        ∀ i g, [bytes "a"][i]? = some g →
          getItem.pathParameters[bytes "param" ++ decimal (i + 1 : ℕ)]? = some g :=
  delivers_iff _ (.regexHandler (by simp [Absent, handlerFor]) (by simp [Absent, callbackFor])
    ⟨[], .addRegexHandler .kGet (bytes "/s/:id") (), [], rfl, rfl, by simp⟩) rfl _ ()

/-- A callback of a dynamic route does not receive the parameter. -/
theorem not_delivers_getItem :
    Chosen Regex.compile getItem [.addRegexCallback .kGet (bytes "/s/:id") ()] ()
        (.regexCallback [bytes "a"]) ∧
      ¬ ∃ req', ((build Regex.compile
          (recorded fun _ : Unit => fun _ resp w => (.returns resp, w))
          [.addRegexCallback .kGet (bytes "/s/:id") ()]).route getItem (HttpResponse.new true)
            ((), [])).2.2.2 = [((), req')] ∧ Delivers [bytes "a"] getItem req' := by
  have hchosen : Chosen Regex.compile getItem [.addRegexCallback .kGet (bytes "/s/:id") ()] ()
      (.regexCallback [bytes "a"]) :=
    .regexCallback (by simp [Absent, handlerFor]) (by simp [Absent, callbackFor])
      (by simp [Absent, regexHandlerFor])
      ⟨[], .addRegexCallback .kGet (bytes "/s/:id") (), [], rfl, rfl, by simp⟩
  refine ⟨hchosen, ?_⟩
  rw [route_of_chosen _ hchosen]
  rintro ⟨req', hreq', -, hbound, -⟩
  obtain rfl : getItem = req' := by simpa [recorded, Way.delivered] using hreq'
  exact absurd (hbound 0 (bytes "a") rfl) (by decide)

end Invoked

end Registration

end KamaHttp
