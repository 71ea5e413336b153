import KamaHttp.Http.HttpRequest
import KamaHttp.Http.HttpResponse

/-!
# Middlewares

A middleware sees every request before it is routed and every response after (`Middleware.h`,
`MiddlewareChain.cpp`). The hooks act on the state `σ` that the parts of an application share, and
may throw: a response, which becomes the answer, or an exception.
-/

namespace KamaHttp

/-- What handlers and hooks throw. -/
inductive Thrown
  | response (r : HttpResponse)
  | exception (e : StdException)
  deriving DecidableEq

/-- How a call on a response that is passed by reference ends: with the response as the call leaves
it, and what it throws, if it throws. -/
structure Answer where
  response : HttpResponse
  thrown : Option Thrown
  deriving DecidableEq

/-- The call returns with the response `r`. -/
def Answer.returns (r : HttpResponse) : Answer := ⟨r, none⟩

/-- The call throws with the response as it is. -/
def Answer.throws (r : HttpResponse) (x : Thrown) : Answer := ⟨r, some x⟩

/-- The hooks of a middleware. -/
structure Middleware (σ : Type*) where
  before : HttpRequest → σ → Except Thrown HttpRequest × σ
  after : HttpResponse → σ → Answer × σ

namespace MiddlewareChain

variable {σ : Type*}

/-- `processBefore`: the hooks in order, up to one that throws. -/
def processBefore : List (Middleware σ) → HttpRequest → σ → Except Thrown HttpRequest × σ
  | [], request, w => (.ok request, w)
  | m :: ms, request, w =>
    match m.before request w with
    | (.error x, w) => (.error x, w)
    | (.ok request, w) => processBefore ms request w

/-- The hooks `after` in the order of the list, up to one that throws. -/
def runAfter : List (Middleware σ) → HttpResponse → σ → Answer × σ
  | [], response, w => (.returns response, w)
  | m :: ms, response, w =>
    match m.after response w with
    | (⟨response, some x⟩, w) => (.throws response x, w)
    | (⟨response, none⟩, w) => runAfter ms response w

/-- `processAfter`: the hooks in reverse order; an exception ends them and is swallowed, a thrown
response is not. -/
def processAfter (ms : List (Middleware σ)) (response : HttpResponse) (w : σ) : Answer × σ :=
  match runAfter ms.reverse response w with
  | (⟨response, some (.exception _)⟩, w) => (.returns response, w)
  | answer => answer

variable {ms ms' : List (Middleware σ)} {request : HttpRequest} {w : σ}

/-- A part of the chain that the request passes. -/
theorem processBefore_append {request' : HttpRequest} {w' : σ}
    (h : processBefore ms request w = (.ok request', w')) :
    processBefore (ms ++ ms') request w = processBefore ms' request' w' := by
  induction ms generalizing request w with
  | nil =>
    obtain ⟨hreq, rfl⟩ := Prod.mk.inj h
    rw [Except.ok.inj hreq]
    rfl
  | cons m ms ih =>
    rw [processBefore] at h
    rw [List.cons_append, processBefore]
    rcases hb : m.before request w with ⟨x | request₁, w₁⟩
    · rw [hb] at h
      cases h
    · rw [hb] at h
      exact ih h

/-- The hooks `after` of a part of the list, and then those of the rest unless one has thrown. -/
theorem runAfter_append (ms ms' : List (Middleware σ)) (response : HttpResponse) (w : σ) :
    runAfter (ms ++ ms') response w =
      match runAfter ms response w with
      | (⟨response, none⟩, w) => runAfter ms' response w
      | answer => answer := by
  induction ms generalizing response w with
  | nil => rfl
  | cons m ms ih =>
    rw [List.cons_append, runAfter, runAfter]
    rcases m.after response w with ⟨⟨response, _ | x⟩, w⟩
    · exact ih response w
    · rfl

/-! ## Hooks that filter -/

/-- The hook `before` lets a request pass as it is, or throws. -/
def Filters (m : Middleware σ) : Prop :=
  ∀ request w r, (m.before request w).1 = .ok r → r = request

/-- A request that passes hooks which filter was let pass by each of them. -/
theorem of_processBefore_filters (hms : ∀ m ∈ ms, Filters m) {request' : HttpRequest} {w' : σ}
    (h : processBefore ms request w = (.ok request', w')) :
    request' = request ∧ ∀ m ∈ ms, ∃ w, (m.before request w).1 = .ok request := by
  induction ms generalizing w with
  | nil => exact ⟨(Except.ok.inj (Prod.mk.inj h).1).symm, fun m hm => by cases hm⟩
  | cons m ms ih =>
    rw [processBefore] at h
    rcases hb : m.before request w with ⟨x | request₁, w₁⟩
    · rw [hb] at h
      cases h
    · obtain rfl := hms m (by simp) request w request₁ (by rw [hb])
      rw [hb] at h
      obtain ⟨rfl, hpassed⟩ := ih (fun m' hm' => hms m' (by simp [hm'])) h
      refine ⟨rfl, fun m' hm' => ?_⟩
      rcases List.mem_cons.1 hm' with rfl | hm'
      · exact ⟨w, by rw [hb]⟩
      · exact hpassed m' hm'

/-! ## What every hook preserves -/

/-- The hooks of the middleware preserve a property of the state. -/
structure Preserves (I : σ → Prop) (m : Middleware σ) : Prop where
  before : ∀ request w, I w → I (m.before request w).2
  after : ∀ response w, I w → I (m.after response w).2

variable {I : σ → Prop}

/-- What every hook `before` keeps. -/
theorem processBefore_keeps (request : HttpRequest)
    (hms : ∀ m ∈ ms, ∀ request w, I w → I (m.before request w).2) (hw : I w) :
    I (processBefore ms request w).2 := by
  induction ms generalizing request w with
  | nil => exact hw
  | cons m ms ih =>
    have hm := hms m (by simp) request w hw
    rw [processBefore]
    rcases hb : m.before request w with ⟨_ | request, w⟩
    · rwa [hb] at hm
    · rw [hb] at hm
      exact ih request (fun m' hm' => hms m' (by simp [hm'])) hm

theorem processBefore_preserves (request : HttpRequest) (hms : ∀ m ∈ ms, Preserves I m) (hw : I w) :
    I (processBefore ms request w).2 :=
  processBefore_keeps request (fun m hm => (hms m hm).before) hw

theorem runAfter_preserves (response : HttpResponse) (hms : ∀ m ∈ ms, Preserves I m) (hw : I w) :
    I (runAfter ms response w).2 := by
  induction ms generalizing response w with
  | nil => exact hw
  | cons m ms ih =>
    have hm := (hms m (by simp)).after response w hw
    rw [runAfter]
    rcases ha : m.after response w with ⟨⟨response, _ | x⟩, w⟩
    · rw [ha] at hm
      exact ih response (fun m' hm' => hms m' (by simp [hm'])) hm
    · rwa [ha] at hm

theorem processAfter_preserves (response : HttpResponse) (hms : ∀ m ∈ ms, Preserves I m)
    (hw : I w) : I (processAfter ms response w).2 := by
  have h := runAfter_preserves response (fun m hm => hms m (List.mem_reverse.1 hm)) hw
  rw [processAfter]
  split
  · rename_i ha
    rwa [ha] at h
  · exact h

end MiddlewareChain

end KamaHttp
