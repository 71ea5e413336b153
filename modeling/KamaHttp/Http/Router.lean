import KamaHttp.Http.Middleware

/-!
# The router

Requests are routed by method and path: first by the exact path, to a handler or a callback, then
by the patterns of the dynamic routes in the order they were registered (`Router.h`, `Router.cpp`).
-/

namespace KamaHttp

/-- A handler or callback: `handle` on a request and the response it fills. -/
abbrev Handler (σ : Type*) := HttpRequest → HttpResponse → σ → Answer × σ

/-- A dynamic route. `pattern` is `std::regex_match` on the path: the texts of its groups. -/
structure RegexRoute (σ : Type*) where
  method : HttpRequest.Method
  pattern : Bytes → Option (List Bytes)
  handler : Handler σ

@[ext]
structure Router (σ : Type*) where
  handlers : HttpRequest.Method → Bytes → Option (Handler σ)
  callbacks : HttpRequest.Method → Bytes → Option (Handler σ)
  regexHandlers : List (RegexRoute σ)
  regexCallbacks : List (RegexRoute σ)

namespace Router

variable {σ : Type*}

/-- A router without routes. -/
def empty : Router σ := ⟨fun _ _ => none, fun _ _ => none, [], []⟩

/-- `extractPathParameters`: the groups become `param1`, `param2` and so on. -/
def extractPathParameters (groups : List Bytes) (request : HttpRequest) : HttpRequest :=
  groups.zipIdx.foldl
    (fun r g => r.setPathParameters (bytes "param" ++ decimal (g.2 + 1)) g.1) request

/-- What a request keeps when a path parameter is set, it keeps when the groups are. -/
theorem extractPathParameters_keeps {P : HttpRequest → Prop}
    (h : ∀ r key value, P r → P (r.setPathParameters key value)) (groups : List Bytes)
    {request : HttpRequest} (hr : P request) : P (extractPathParameters groups request) := by
  unfold extractPathParameters
  generalize groups.zipIdx = pairs
  induction pairs generalizing request with
  | nil => exact hr
  | cons g pairs ih => exact ih (h _ _ _ hr)

/-- The keys of the path parameters are different. -/
theorem paramKey_injective {m n : ℕ} (h : bytes "param" ++ decimal m = bytes "param" ++ decimal n) :
    m = n := by
  have hstrtol := congrArg strtol (List.append_cancel_left h)
  rw [strtol_decimal, strtol_decimal] at hstrtol
  exact Int.ofNat_inj.1 (Option.some.inj hstrtol)

section Bound

variable {groups : List Bytes} {k : ℕ} {request : HttpRequest} {key : Bytes}

/-- The fold of `extractPathParameters`, with the groups counted from a number on. -/
private abbrev boundFrom (groups : List Bytes) (k : ℕ) (request : HttpRequest) : HttpRequest :=
  (groups.zipIdx k).foldl
    (fun r g => r.setPathParameters (bytes "param" ++ decimal (g.2 + 1)) g.1) request

private theorem getElem?_boundFrom_of_ne
    (h : ∀ i < groups.length, key ≠ bytes "param" ++ decimal (k + i + 1 : ℕ)) :
    (boundFrom groups k request).pathParameters[key]? = request.pathParameters[key]? := by
  induction groups generalizing k request with
  | nil => rfl
  | cons g groups ih =>
    rw [boundFrom, List.zipIdx_cons, List.foldl_cons]
    have hne : bytes "param" ++ decimal (k + 1 : ℕ) ≠ key := Ne.symm (h 0 (Nat.succ_pos _))
    have hrest : ∀ i < groups.length, key ≠ bytes "param" ++ decimal (k + 1 + i + 1 : ℕ) :=
      fun i hi => by
        have hkey := h (i + 1) (Nat.succ_lt_succ hi)
        rwa [show k + (i + 1) + 1 = k + 1 + i + 1 by omega] at hkey
    refine (ih hrest).trans ?_
    exact (Std.ExtTreeMap.getElem?_insert ..).trans
      (if_neg fun he => hne (Std.LawfulEqCmp.compare_eq_iff_eq.1 he))

private theorem getElem?_boundFrom {i : ℕ} {g : Bytes} (h : groups[i]? = some g) :
    (boundFrom groups k request).pathParameters[bytes "param" ++ decimal (k + i + 1 : ℕ)]? =
      some g := by
  induction groups generalizing k request i with
  | nil => cases h
  | cons g' groups ih =>
    rw [boundFrom, List.zipIdx_cons, List.foldl_cons]
    cases i with
    | zero =>
      obtain rfl := Option.some.inj h
      refine (getElem?_boundFrom_of_ne fun i _ he => ?_).trans
        Std.ExtTreeMap.getElem?_insert_self
      have := paramKey_injective he
      omega
    | succ i =>
      rw [show k + (i + 1) + 1 = k + 1 + i + 1 by omega]
      exact ih h

/-- Every group is bound to its key. -/
theorem getElem?_extractPathParameters {i : ℕ} {g : Bytes} (h : groups[i]? = some g) :
    (extractPathParameters groups request).pathParameters[
      bytes "param" ++ decimal (i + 1 : ℕ)]? = some g := by
  have hbound : (boundFrom groups 0 request).pathParameters[
      bytes "param" ++ decimal (0 + i + 1 : ℕ)]? = some g := getElem?_boundFrom h
  rwa [Nat.zero_add] at hbound

/-- The other path parameters stay. -/
theorem getElem?_extractPathParameters_of_ne
    (h : ∀ i < groups.length, key ≠ bytes "param" ++ decimal (i + 1 : ℕ)) :
    (extractPathParameters groups request).pathParameters[key]? =
      request.pathParameters[key]? :=
  getElem?_boundFrom_of_ne fun i hi => by
    rw [Nat.zero_add]
    exact h i hi

/-- Everything else of the request stays. -/
theorem extractPathParameters_eq (groups : List Bytes) (request : HttpRequest) :
    extractPathParameters groups request =
      { request with pathParameters := (extractPathParameters groups request).pathParameters } :=
  extractPathParameters_keeps
    (P := fun r => r = { request with pathParameters := r.pathParameters })
    (fun r key value hr => by
      rw [hr]
      rfl) groups rfl

end Bound

/-- The first dynamic route for the method and path, with the groups of its match. -/
def findRoute (routes : List (RegexRoute σ)) (req : HttpRequest) :
    Option (Handler σ × List Bytes) :=
  routes.findSome? fun route =>
    if route.method = req.method then (route.pattern req.path).map fun gs => (route.handler, gs)
    else none

/-- `route`: whether a route was found, with how its handler ends. The path parameters reach the
handlers of dynamic routes, but not the callbacks. -/
def route (router : Router σ) (req : HttpRequest) (resp : HttpResponse) (w : σ) :
    Bool × Answer × σ :=
  match router.handlers req.method req.path with
  | some handler => (true, handler req resp w)
  | none =>
    match router.callbacks req.method req.path with
    | some callback => (true, callback req resp w)
    | none =>
      match findRoute router.regexHandlers req with
      | some (handler, groups) => (true, handler (extractPathParameters groups req) resp w)
      | none =>
        match findRoute router.regexCallbacks req with
        | some (callback, _) => (true, callback req resp w)
        | none => (false, .returns resp, w)

/-! ## What `route` invokes -/

/-- The functions that are registered with the router. -/
inductive Registers (router : Router σ) : Handler σ → Prop
  | handler {m path f} (h : router.handlers m path = some f) : Registers router f
  | callback {m path f} (h : router.callbacks m path = some f) : Registers router f
  | regexHandler {r} (h : r ∈ router.regexHandlers) : Registers router r.handler
  | regexCallback {r} (h : r ∈ router.regexCallbacks) : Registers router r.handler

/-- A dynamic route that is found is one of the list. -/
theorem exists_of_findRoute {routes : List (RegexRoute σ)} {req : HttpRequest}
    {f : Handler σ} {groups : List Bytes} (h : findRoute routes req = some (f, groups)) :
    ∃ r ∈ routes, r.handler = f := by
  obtain ⟨r, hr, hf⟩ := List.exists_of_findSome?_eq_some h
  split at hf
  · obtain ⟨gs, -, he⟩ := Option.map_eq_some_iff.1 hf
    exact ⟨r, hr, congrArg Prod.fst he⟩
  · cases hf

/-- What `route` does: nothing, or it invokes a function that is registered. -/
theorem route_cases (router : Router σ) (req : HttpRequest) (resp : HttpResponse) (w : σ) :
    router.route req resp w = (false, .returns resp, w) ∨
      ∃ f req', router.Registers f ∧ router.route req resp w = (true, f req' resp w) := by
  unfold route
  split
  · rename_i f hf
    exact .inr ⟨f, req, .handler hf, rfl⟩
  split
  · rename_i f hf
    exact .inr ⟨f, req, .callback hf, rfl⟩
  split
  · rename_i f groups hf
    obtain ⟨r, hr, rfl⟩ := exists_of_findRoute hf
    exact .inr ⟨r.handler, _, .regexHandler hr, rfl⟩
  split
  · rename_i f groups hf
    obtain ⟨r, hr, rfl⟩ := exists_of_findRoute hf
    exact .inr ⟨r.handler, _, .regexCallback hr, rfl⟩
  · exact .inl rfl

/-- The routes, to functions on another state. -/
def map {σ' : Type*} (lift : Handler σ → Handler σ') (router : Router σ) : Router σ' where
  handlers method path := (router.handlers method path).map lift
  callbacks method path := (router.callbacks method path).map lift
  regexHandlers := router.regexHandlers.map fun r => ⟨r.method, r.pattern, lift r.handler⟩
  regexCallbacks := router.regexCallbacks.map fun r => ⟨r.method, r.pattern, lift r.handler⟩

theorem exists_of_registers_map {σ' : Type*} {lift : Handler σ → Handler σ'} {router : Router σ}
    {f : Handler σ'} (hf : (router.map lift).Registers f) :
    ∃ g, router.Registers g ∧ f = lift g := by
  cases hf with
  | handler h =>
    obtain ⟨g, hg, rfl⟩ := Option.map_eq_some_iff.1 h
    exact ⟨g, .handler hg, rfl⟩
  | callback h =>
    obtain ⟨g, hg, rfl⟩ := Option.map_eq_some_iff.1 h
    exact ⟨g, .callback hg, rfl⟩
  | regexHandler h =>
    obtain ⟨r, hr, rfl⟩ := List.mem_map.1 h
    exact ⟨r.handler, .regexHandler hr, rfl⟩
  | regexCallback h =>
    obtain ⟨r, hr, rfl⟩ := List.mem_map.1 h
    exact ⟨r.handler, .regexCallback hr, rfl⟩

/-- What every registered function preserves, `route` preserves. -/
theorem route_preserves {I : σ → Prop} {router : Router σ}
    (hf : ∀ f, router.Registers f → ∀ req resp w, I w → I (f req resp w).2) {req : HttpRequest}
    {resp : HttpResponse} {w : σ} (hw : I w) : I (router.route req resp w).2.2 := by
  rcases router.route_cases req resp w with h | ⟨f, req', hreg, h⟩
  · rwa [h]
  · rw [h]
    exact hf f hreg req' resp w hw

/-! ## Routes on a part of the state -/

variable {σ' : Type*}

theorem findRoute_map (lift : Handler σ → Handler σ') (routes : List (RegexRoute σ))
    (req : HttpRequest) :
    findRoute (routes.map fun r => ⟨r.method, r.pattern, lift r.handler⟩) req =
      (findRoute routes req).map fun x => (lift x.1, x.2) := by
  induction routes with
  | nil => rfl
  | cons r routes ih =>
    simp only [findRoute, List.map_cons, List.findSome?_cons] at ih ⊢
    by_cases hm : r.method = req.method
    · simp only [hm, if_true]
      cases r.pattern req.path with
      | none => simpa using ih
      | some groups => rfl
    · simpa only [hm, if_false] using ih

/-- Functions that act on a part of a larger state are routed as they are on that part alone. -/
theorem route_map (router : Router σ) (lift : Handler σ → Handler σ') (get : σ' → σ)
    (put : σ' → σ → σ')
    (hlift : ∀ f req resp w, lift f req resp w =
      ((f req resp (get w)).1, put w (f req resp (get w)).2))
    (hput : ∀ w, put w (get w) = w) (req : HttpRequest) (resp : HttpResponse) (w : σ') :
    (router.map lift).route req resp w =
      ((router.route req resp (get w)).1, (router.route req resp (get w)).2.1,
        put w (router.route req resp (get w)).2.2) := by
  simp only [route, map, findRoute_map]
  cases router.handlers req.method req.path with
  | some f => simp only [Option.map_some, hlift]
  | none =>
    cases router.callbacks req.method req.path with
    | some f => simp only [Option.map_some, Option.map_none, hlift]
    | none =>
      rcases findRoute router.regexHandlers req with _ | ⟨f, groups⟩
      · rcases findRoute router.regexCallbacks req with _ | ⟨f, groups⟩
        · simp only [Option.map_none, hput]
        · simp only [Option.map_some, Option.map_none, hlift]
      · simp only [Option.map_some, Option.map_none, hlift]

end Router

end KamaHttp
