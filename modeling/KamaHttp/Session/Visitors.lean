import KamaHttp.Session.SessionManager

/-!
# Visitors and their sessions

Any number of visitors with one manager. Each sends the cookie that it was given last, and its
handler works on the session that `getSession` returns. A visitor of its own, with a session of its
own that lives for an hour behind each visit, is what they are compared with.

* `getSessionIdFromCookie_withCookie`, `receivedId_setSessionCookie`: an id comes back as it was
  sent.
* `Tracks.visit`, `Tracks.onSession`: what a call does to the session of the visitor that makes it,
  and to the others.
* `visitors_apart`: each visitor is answered as if it were alone with a session of its own.
-/

namespace KamaHttp

open Search SessionManager

/-! ## The cookie -/

/-- A request as a visitor sends it, with the id that it has been given. -/
def withCookie (cookie : Option Bytes) (req : HttpRequest) : HttpRequest :=
  { req with
    headers := match cookie with
      | some sessionId => req.headers.insert (bytes "Cookie") (bytes "sessionId=" ++ sessionId)
      | none => req.headers.erase (bytes "Cookie") }

/-- The id that a response sets as a cookie: what stands behind `sessionId=` and before the first
semicolon. -/
def receivedId (resp : HttpResponse) : Option Bytes :=
  (breakOn (bytes "sessionId=") (resp.getHeader (bytes "Set-Cookie"))).map fun x =>
    match breakOn [59] x.2 with
    | some (sessionId, _) => sessionId
    | none => x.2

/-- An id that can stand in a cookie. -/
def CookieId (c : Bytes) : Prop := 59 ∉ c ∧ c ≠ []

theorem cookieId_generateSessionId (draws : Fin 32 → Fin 16) :
    CookieId (generateSessionId draws) :=
  ⟨notMem_generateSessionId draws, ne_nil_generateSessionId draws⟩

/-- The id that a request names is the one that the visitor was given. -/
theorem getSessionIdFromCookie_withCookie {cookie : Option Bytes}
    (h : ∀ c ∈ cookie, CookieId c) (req : HttpRequest) :
    getSessionIdFromCookie (withCookie cookie req) = cookie.getD [] := by
  cases cookie with
  | none =>
    have hheader : (withCookie none req).getHeader (bytes "Cookie") = [] := by
      simp [withCookie, HttpRequest.getHeader]
    rw [getSessionIdFromCookie, hheader]
    rfl
  | some c =>
    have hheader : (withCookie (some c) req).getHeader (bytes "Cookie") =
        bytes "sessionId=" ++ c := by
      simp [withCookie, HttpRequest.getHeader]
    rw [getSessionIdFromCookie, hheader, breakOn_here (List.prefix_append _ c), List.drop_left]
    dsimp only
    rw [breakOn_singleton_none.2 (h c rfl).1]
    rfl

/-- The visitor receives the id that is set. -/
theorem receivedId_setSessionCookie {c : Bytes} (h : CookieId c) (resp : HttpResponse) :
    receivedId (setSessionCookie c resp) = some c := by
  have hheader : (setSessionCookie c resp).getHeader (bytes "Set-Cookie") =
      bytes "sessionId=" ++ (c ++ 59 :: bytes " Path=/; HttpOnly") := by
    rw [setSessionCookie, HttpResponse.getHeader_addHeader, if_pos rfl]
    rfl
  rw [receivedId, hheader, breakOn_here (List.prefix_append _ _), List.drop_left, Option.map_some,
    breakOn_singleton h.1]

theorem receivedId_new (closing : Bool) : receivedId (HttpResponse.new closing) = none := by
  cases closing <;> rfl

/-! ## Visitors -/

/-- What a handler does on the session that it was returned. -/
inductive SessionOp
  | setValue (key value : Bytes)
  | getValue (key : Bytes)
  | remove (key : Bytes)
  | clear

/-- The call, on the session behind a pointer. -/
def SessionOp.call (p : ℕ) : SessionOp → SessionCall
  | .setValue key value => .setValue p key value
  | .getValue key => .getValue p key
  | .remove key => .remove p key
  | .clear => .clear p

/-- A visitor makes a request, for which `getSession` is called, or its handler works on the
session. -/
inductive VisitorCall
  | visit (req : HttpRequest) (closing : Bool) (now : Readings) (draws : Fin 32 → Fin 16)
  | onSession (op : SessionOp)

/-- Whether the visitor was given a new session, or what the call on the session has answered. -/
inductive VisitorAnswer
  | visited (new : Bool)
  | answered (value : Option Bytes)
  deriving DecidableEq

def SessionAnswer.value? : SessionAnswer → Option Bytes
  | .value v => some v
  | _ => none

/-- The manager, the cookies of the visitors, and the sessions that their handlers hold. -/
structure Visitors (κ : Type*) where
  manager : SessionManager
  cookie : κ → Option Bytes
  held : κ → Option ℕ

namespace Visitors

variable {κ : Type*} [DecidableEq κ]

def new : Visitors κ := ⟨SessionManager.new, fun _ => none, fun _ => none⟩

/-- A call of a visitor. -/
def call : Machine (κ × VisitorCall) (Visitors κ) VisitorAnswer
  | (k, .visit req closing now draws), s =>
    let r := s.manager.getSession (withCookie (s.cookie k) req) (HttpResponse.new closing) now draws
    let cookie := receivedId r.1.2
    (.visited cookie.isSome,
      ⟨r.2, Function.update s.cookie k (cookie.or (s.cookie k)),
        Function.update s.held k (some r.1.1)⟩)
  | (k, .onSession op), s =>
    match s.held k with
    | none => (.answered none, s)
    | some p =>
      let r := SessionManager.call (op.call p) s.manager
      (.answered r.1.value?, { s with manager := r.2 })

/-- The ids that are drawn are new: no session that was made has the same. -/
def DrawsFresh (before : List (κ × VisitorCall)) : κ × VisitorCall → Prop
  | (_, .visit _ _ _ draws) => ∀ p < (call.run before new).manager.allocated,
    ((call.run before new).manager.objects p).sessionId ≠ generateSessionId draws
  | (_, .onSession _) => True

end Visitors

/-! ## A visitor alone -/

/-- The data of a session, and the time up to which it lives. -/
structure PrivateSession where
  data : StringMap
  expiryTime : ℤ

namespace PrivateSession

/-- A call on the data. -/
def onData : SessionOp → StringMap → Option Bytes × StringMap
  | .setValue key value, data => (none, data.insert key value)
  | .getValue key, data => (some (data[key]?.getD []), data)
  | .remove key, data => (none, data.erase key)
  | .clear, _ => (none, ∅)

/-- Whether there is a session, and it is alive at the readings of the clock. -/
def alive (now : Readings) : Option PrivateSession → Bool
  | none => false
  | some s => now.load ≤ s.expiryTime ∧ now.check ≤ s.expiryTime

/-- A visitor alone, with a session of its own. -/
def call : Machine VisitorCall (Option PrivateSession) VisitorAnswer
  | .visit _ _ now _, s =>
    (.visited (!alive now s), some
      { data := if alive now s then (s.map data).getD ∅ else ∅
        expiryTime := now.refresh + seconds Session.defaultMaxAge })
  | .onSession _, none => (.answered none, none)
  | .onSession op, some s =>
    (.answered (onData op s.data).1, some { s with data := (onData op s.data).2 })

end PrivateSession

/-! ## One visitor -/

/-- What a visitor and its handler have is what a visitor alone has: the session is stored under the
id of the cookie, with the same data and the same time. -/
structure Holds (m : SessionManager) (c : Bytes) (p : ℕ) (s : PrivateSession) : Prop where
  made : p < m.allocated
  stored : m.storage c = some p
  object : m.objects p = ⟨c, s.data, s.expiryTime, Session.defaultMaxAge, true⟩
  cookieId : CookieId c

/-- The same, for a visitor that may not have come yet. -/
inductive Mirrors (m : SessionManager) : Option Bytes → Option ℕ → Option PrivateSession → Prop
  | away : Mirrors m none none none
  | here {c : Bytes} {p : ℕ} {s : PrivateSession} (h : Holds m c p s) :
    Mirrors m (some c) (some p) (some s)

section Mirrors

variable {m m' : SessionManager} {cookie : Option Bytes} {held : Option ℕ}
  {s : Option PrivateSession} {c : Bytes} {p q : ℕ} {now : Readings}

/-- A call that leaves the session and its entry leaves what the visitor has. -/
theorem Mirrors.frame (h : Mirrors m cookie held s) (hle : m.allocated ≤ m'.allocated)
    (hobjects : ∀ p ∈ held, m'.objects p = m.objects p)
    (hstorage : ∀ c ∈ cookie, ∀ p ∈ held, m.storage c = some p → m'.storage c = some p) :
    Mirrors m' cookie held s := by
  cases h with
  | away => exact .away
  | here h =>
    refine .here ⟨h.made.trans_le hle, hstorage _ rfl _ rfl h.stored, ?_, h.cookieId⟩
    rw [hobjects _ rfl, h.object]

theorem Mirrors.cookieId (h : Mirrors m cookie held s) : ∀ c ∈ cookie, CookieId c := by
  cases h with
  | away => exact fun c hc => by cases hc
  | here h =>
    intro c hc
    cases hc
    exact h.cookieId

/-- A session that is held is stored under its own id. -/
theorem Mirrors.sessionId (h : Mirrors m cookie held s) (hp : held = some p) :
    p < m.allocated ∧ cookie = some (m.objects p).sessionId := by
  cases h with
  | away => cases hp
  | here h =>
    cases hp
    exact ⟨h.made, by rw [h.object]⟩

/-- **What a visit comes to**: the session is alive, and returned; or it is not, and a new one is
returned. -/
theorem Mirrors.visit_cases (h : Mirrors m cookie held s) (req : HttpRequest) (closing : Bool)
    (now : Readings) (draws : Fin 32 → Fin 16) :
    (∃ c p s', cookie = some c ∧ held = some p ∧ s = some s' ∧ Holds m c p s' ∧
        PrivateSession.alive now s = true ∧
        m.getSession (withCookie cookie req) (HttpResponse.new closing) now draws =
          ((p, HttpResponse.new closing), m.keep p now)) ∨
      (PrivateSession.alive now s = false ∧ ∃ m', (m' = m ∨ m' = m.remove (cookie.getD [])) ∧
        m.getSession (withCookie cookie req) (HttpResponse.new closing) now draws =
          ((m.allocated, setSessionCookie (generateSessionId draws) (HttpResponse.new closing)),
            m'.issue (generateSessionId draws) now)) := by
  have hid := getSessionIdFromCookie_withCookie h.cookieId req
  have hcases := m.getSession_cases (withCookie cookie req) (HttpResponse.new closing) now draws
  rw [hid] at hcases
  cases h with
  | away =>
    rcases hcases with ⟨p, hne, -⟩ | ⟨-, m', hm', heq⟩
    · exact absurd rfl hne
    · exact .inr ⟨rfl, m', hm', heq⟩
  | @here c p s' h =>
    have halive : Alive (m.objects p) now ↔ PrivateSession.alive now (some s') = true := by
      rw [h.object, PrivateSession.alive, decide_eq_true_iff]
      rfl
    rcases hcases with ⟨q, -, hq, hal, heq⟩ | ⟨hnone, m', hm', heq⟩
    · obtain rfl : p = q := Option.some.inj (h.stored.symm.trans hq)
      exact .inl ⟨c, p, s', rfl, rfl, rfl, h, halive.1 hal, heq⟩
    · refine .inr ⟨?_, m', hm', heq⟩
      rw [← Bool.not_eq_true, ← halive]
      exact fun hal => h.cookieId.2 (hnone p h.stored hal)

/-- A change of the session, with the data that it comes to. -/
theorem Holds.modify {s : PrivateSession} (h : Holds m c p s) {g : Session → Session}
    {data : StringMap} (hg : g (m.objects p) = { m.objects p with data := data }) :
    Holds (m.modify p g) c p { s with data := data } := by
  refine ⟨h.made, h.stored, ?_, h.cookieId⟩
  rw [objects_modify, if_pos rfl, hg, h.object]

theorem Holds.save {s : PrivateSession} (h : Holds m c p s) : Holds (m.save p) c p s := by
  refine ⟨h.made, ?_, h.object, h.cookieId⟩
  rw [storage_save, h.object, if_pos rfl]

/-- What a call on a session leaves: the entries, and the other sessions. -/
structure Spares (m m' : SessionManager) (p : ℕ) : Prop where
  allocated : m'.allocated = m.allocated
  objects : ∀ q, q ≠ p → m'.objects q = m.objects q
  storage : ∀ c q, m.storage c = some q → m'.storage c = some q

theorem spares_modify (m : SessionManager) (p : ℕ) (g : Session → Session) :
    Spares m (m.modify p g) p :=
  ⟨rfl, fun q hq => by rw [objects_modify, if_neg hq], fun _ _ h => h⟩

/-- **What a call on the session comes to**: it is answered from the data, and changes the data. -/
theorem Holds.onSession {s : PrivateSession} (h : Holds m c p s) (op : SessionOp) :
    let r := SessionManager.call (op.call p) m
    r.1.value? = (PrivateSession.onData op s.data).1 ∧
      Holds r.2 c p { s with data := (PrivateSession.onData op s.data).2 } ∧ Spares m r.2 p := by
  intro r
  cases op with
  | getValue key =>
    refine ⟨?_, h, rfl, fun _ _ => rfl, fun _ _ hs => hs⟩
    simp only [r, SessionOp.call, SessionManager.call, SessionAnswer.value?, Session.getValue,
      h.object, PrivateSession.onData]
  | setValue key value =>
    have hmodify : Holds (m.modify p (Session.assign key value)) c p
        { s with data := s.data.insert key value } :=
      h.modify (by rw [h.object]; rfl)
    have hcall : r.2 = (m.modify p (Session.assign key value)).save p := by
      simp only [r, SessionOp.call, SessionManager.call, onHeld, if_pos h.made, setValue,
        hmodify.object, if_true, updateSession]
    rw [hcall]
    refine ⟨rfl, hmodify.save, rfl, (spares_modify m p _).objects, fun c' q hs => ?_⟩
    rw [storage_save, hmodify.object]
    split
    · next hc =>
      have hc' : c' = c := hc
      rw [← hs, hc', h.stored]
    · exact hs
  | remove key =>
    have hcall : r.2 = m.modify p (Session.remove key) := if_pos h.made
    rw [hcall]
    exact ⟨rfl, h.modify (by rw [h.object]; rfl), spares_modify m p _⟩
  | clear =>
    have hcall : r.2 = m.modify p Session.clear := if_pos h.made
    rw [hcall]
    exact ⟨rfl, h.modify rfl, spares_modify m p _⟩

end Mirrors

/-! ## All visitors -/

/-- Every visitor has what it would have alone, and no two sessions have the same id. -/
structure Tracks {κ : Type*} (s : Visitors κ) (f : κ → Option PrivateSession) : Prop where
  mirrors : ∀ k, Mirrors s.manager (s.cookie k) (s.held k) (f k)
  apart : ∀ k k' p, s.held k = some p → s.held k' = some p → k = k'
  ids : ∀ p < s.manager.allocated, ∀ q < s.manager.allocated,
    (s.manager.objects p).sessionId = (s.manager.objects q).sessionId → p = q

section Tracks

variable {κ : Type*} {s : Visitors κ} {f : κ → Option PrivateSession} {k k' : κ} {p : ℕ} {c : Bytes}

theorem Tracks.new (κ : Type*) : Tracks (Visitors.new : Visitors κ) fun _ => none where
  mirrors _ := .away
  apart _ _ _ h := by cases h
  ids _ hp := absurd hp (Nat.not_lt_zero _)

/-- The id of another visitor is another one. -/
theorem Tracks.cookie_ne (h : Tracks s f) (hne : k' ≠ k) (hc : s.cookie k' = some c) :
    c ≠ (s.cookie k).getD [] := by
  have hk := h.mirrors k
  have hk' := h.mirrors k'
  rw [hc] at hk'
  generalize hheld : s.held k = held at hk
  generalize hheld' : s.held k' = held' at hk'
  generalize s.cookie k = cookie at hk ⊢
  generalize f k' = x at hk'
  generalize f k = y at hk
  cases hk' with
  | here h' =>
    cases hk with
    | away => exact h'.cookieId.2
    | here hholds =>
      rintro rfl
      obtain rfl := Option.some.inj (hholds.stored.symm.trans h'.stored)
      exact hne (h.apart _ _ _ hheld' hheld)

/-- The sessions keep their ids, where their number stays. -/
theorem Tracks.ids_of_eq (h : Tracks s f) {m' : SessionManager}
    (hallocated : m'.allocated = s.manager.allocated)
    (hids : ∀ q, (m'.objects q).sessionId = (s.manager.objects q).sessionId) :
    ∀ p < m'.allocated, ∀ q < m'.allocated,
      (m'.objects p).sessionId = (m'.objects q).sessionId → p = q := by
  intro p hp q hq heq
  rw [hids, hids] at heq
  rw [hallocated] at hp hq
  exact h.ids p hp q hq heq

variable [DecidableEq κ]

/-- The session of the visitor is returned. -/
theorem Tracks.keep (h : Tracks s f) {now : Readings} {s' : PrivateSession}
    (hcookie : s.cookie k = some c) (hheld : s.held k = some p)
    (hholds : Holds s.manager c p s') :
    Tracks ⟨s.manager.keep p now, s.cookie, s.held⟩ (Function.update f k (some
      ⟨s'.data, now.refresh + seconds Session.defaultMaxAge⟩)) := by
  have hid : (s.manager.objects p).sessionId = c := by rw [hholds.object]
  refine ⟨fun k' => ?_, h.apart, h.ids_of_eq rfl fun q => ?_⟩
  · dsimp only
    by_cases hk : k' = k
    · subst hk
      rw [hcookie, hheld, Function.update_self]
      refine .here ⟨hholds.made, ?_, ?_, hholds.cookieId⟩
      · rw [storage_keep, if_pos hid.symm]
      · rw [objects_keep, if_pos rfl, hholds.object]
        rfl
    · rw [Function.update_of_ne hk]
      refine (h.mirrors k').frame le_rfl (fun q hq => ?_) fun c' hc' q hq hstored => ?_
      · rw [objects_keep, if_neg]
        rintro rfl
        exact hk (h.apart _ _ _ hq hheld)
      · have hne := h.cookie_ne hk hc'
        rw [hcookie, Option.getD_some] at hne
        rw [storage_keep, hid, if_neg hne]
        exact hstored
  · rw [objects_keep]
    split
    · next hq => rw [hq]; rfl
    · rfl

/-- The visitor is given a new session. -/
theorem Tracks.issue (h : Tracks s f) {now : Readings} {m' : SessionManager}
    (hm' : m' = s.manager ∨ m' = s.manager.remove ((s.cookie k).getD [])) (hc : CookieId c)
    (hfresh : ∀ p < s.manager.allocated, (s.manager.objects p).sessionId ≠ c) :
    Tracks ⟨m'.issue c now, Function.update s.cookie k (some c),
        Function.update s.held k (some s.manager.allocated)⟩
      (Function.update f k (some ⟨∅, now.refresh + seconds Session.defaultMaxAge⟩)) := by
  have hallocated : m'.allocated = s.manager.allocated := by rcases hm' with rfl | rfl <;> rfl
  have hobjects : m'.objects = s.manager.objects := by rcases hm' with rfl | rfl <;> rfl
  have hold : ∀ k' q, s.held k' = some q → q < s.manager.allocated := fun k' q hq =>
    ((h.mirrors k').sessionId hq).1
  refine ⟨fun k' => ?_, fun k₁ k₂ p h₁ h₂ => ?_, fun p hp q hq heq => ?_⟩
  · dsimp only
    by_cases hk : k' = k
    · subst hk
      rw [Function.update_self, Function.update_self, Function.update_self, ← hallocated]
      refine .here ⟨Nat.lt_succ_self _, ?_, ?_, hc⟩
      · rw [storage_issue, if_pos rfl]
      · rw [objects_issue, if_pos rfl]
        rfl
    · rw [Function.update_of_ne hk, Function.update_of_ne hk, Function.update_of_ne hk]
      refine (h.mirrors k').frame (by rw [allocated_issue, hallocated]; exact Nat.le_succ _)
        (fun q hq => ?_) fun c' hc' q hq hstored => ?_
      · rw [objects_issue, if_neg (by rw [hallocated]; exact (hold k' q hq).ne), hobjects]
      · have hne : c' ≠ c := by
          obtain ⟨hlt, hid⟩ := (h.mirrors k').sessionId hq
          rw [show s.cookie k' = some c' from hc', Option.some.injEq] at hid
          exact hid ▸ hfresh q hlt
        rw [storage_issue, if_neg hne]
        rcases hm' with rfl | rfl
        · exact hstored
        · rw [storage_remove, if_neg (h.cookie_ne hk hc')]
          exact hstored
  · dsimp only at h₁ h₂
    by_cases hk₁ : k₁ = k <;> by_cases hk₂ : k₂ = k
    · rw [hk₁, hk₂]
    · rw [hk₁, Function.update_self, Option.some.injEq] at h₁
      rw [Function.update_of_ne hk₂] at h₂
      exact absurd h₁.symm (hold k₂ p h₂).ne
    · rw [hk₂, Function.update_self, Option.some.injEq] at h₂
      rw [Function.update_of_ne hk₁] at h₁
      exact absurd h₂.symm (hold k₁ p h₁).ne
    · rw [Function.update_of_ne hk₁] at h₁
      rw [Function.update_of_ne hk₂] at h₂
      exact h.apart k₁ k₂ p h₁ h₂
  · rw [allocated_issue, hallocated] at hp hq
    rw [objects_issue, objects_issue, hallocated, hobjects] at heq
    split at heq <;> split at heq
    · next hp' hq' => rw [hp', hq']
    · next hp' hq' => exact absurd heq.symm (hfresh q (by omega))
    · next hp' hq' => exact absurd heq (hfresh p (by omega))
    · next hp' hq' => exact h.ids p (by omega) q (by omega) heq

/-- **A visit** gives the visitor its session, or a new one, and leaves the others theirs. -/
theorem Tracks.visit (h : Tracks s f) (req : HttpRequest) (closing : Bool) (now : Readings)
    {draws : Fin 32 → Fin 16} (hfresh : ∀ p < s.manager.allocated,
      (s.manager.objects p).sessionId ≠ generateSessionId draws) :
    let r := Visitors.call (k, .visit req closing now draws) s
    let r' := PrivateSession.call (.visit req closing now draws) (f k)
    r.1 = r'.1 ∧ Tracks r.2 (Function.update f k r'.2) := by
  intro r r'
  rcases (h.mirrors k).visit_cases req closing now draws with
    ⟨c, p, s', hcookie, hheld, hf, hholds, halive, heq⟩ | ⟨hdead, m', hm', heq⟩
  · have hr : r = (.visited false, ⟨s.manager.keep p now, s.cookie, s.held⟩) := by
      simp only [r, Visitors.call, heq, receivedId_new, Option.none_or, Option.isSome_none]
      rw [Function.update_eq_self, ← hheld, Function.update_eq_self]
    have hr' : r' = (.visited false,
        some ⟨s'.data, now.refresh + seconds Session.defaultMaxAge⟩) := by
      rw [hf] at halive
      simp only [r', PrivateSession.call, halive, hf, if_true, Option.map_some, Option.getD_some,
        Bool.not_true]
    rw [hr, hr']
    exact ⟨rfl, h.keep hcookie hheld hholds⟩
  · have hid := cookieId_generateSessionId draws
    have hr : r = (.visited true, ⟨m'.issue (generateSessionId draws) now,
        Function.update s.cookie k (some (generateSessionId draws)),
        Function.update s.held k (some s.manager.allocated)⟩) := by
      simp only [r, Visitors.call, heq, receivedId_setSessionCookie hid, Option.some_or,
        Option.isSome_some]
    have hr' : r' = (.visited true,
        some ⟨∅, now.refresh + seconds Session.defaultMaxAge⟩) := by
      simp only [r', PrivateSession.call, hdead, Bool.false_eq_true, if_false, Bool.not_false]
    rw [hr, hr']
    exact ⟨rfl, h.issue hm' hid hfresh⟩

/-- **A call on the session** is one on the visitor's own data, and leaves the others theirs. -/
theorem Tracks.onSession (h : Tracks s f) (op : SessionOp) :
    let r := Visitors.call (k, .onSession op) s
    let r' := PrivateSession.call (.onSession op) (f k)
    r.1 = r'.1 ∧ Tracks r.2 (Function.update f k r'.2) := by
  intro r r'
  have hk := h.mirrors k
  generalize hcookie : s.cookie k = cookie at hk
  generalize hheld : s.held k = held at hk
  generalize hf : f k = x at hk
  cases hk with
  | away =>
    have hr : r = (.answered none, s) := by simp only [r, Visitors.call, hheld]
    have hr' : r' = (.answered none, none) := by simp only [r', PrivateSession.call, hf]
    rw [hr, hr', ← hf, Function.update_eq_self]
    exact ⟨rfl, h⟩
  | @here c p s' hholds =>
    obtain ⟨hvalue, hnew, hspares⟩ := hholds.onSession op
    have hr : r = (.answered (SessionManager.call (op.call p) s.manager).1.value?,
        ⟨(SessionManager.call (op.call p) s.manager).2, s.cookie, s.held⟩) := by
      simp only [r, Visitors.call, hheld]
    have hr' : r' = (.answered (PrivateSession.onData op s'.data).1,
        some { s' with data := (PrivateSession.onData op s'.data).2 }) := by
      simp only [r', PrivateSession.call, hf]
    rw [hr, hr', hvalue]
    refine ⟨rfl, fun k' => ?_, h.apart, h.ids_of_eq hspares.allocated fun q => ?_⟩
    · dsimp only
      by_cases hk' : k' = k
      · subst hk'
        rw [hcookie, hheld, Function.update_self]
        exact .here hnew
      · rw [Function.update_of_ne hk']
        refine (h.mirrors k').frame hspares.allocated.ge (fun q hq => hspares.objects q ?_)
          fun c' _ q _ hs => hspares.storage c' q hs
        rintro rfl
        exact hk' (h.apart _ _ _ hq hheld)
    · by_cases hq : q = p
      · rw [hq, hnew.object, hholds.object]
      · rw [hspares.objects q hq]

end Tracks

/-! ## All runs -/

section Runs

variable {κ : Type*} [DecidableEq κ] {calls : List (κ × VisitorCall)}

/-- A call of any visitor is answered by the visitor's own session. -/
theorem Tracks.call {s : Visitors κ} {f : κ → Option PrivateSession} (h : Tracks s f)
    {before : List (κ × VisitorCall)} (hs : s = Visitors.call.run before Visitors.new)
    {i : κ × VisitorCall} (hi : Visitors.DrawsFresh before i) :
    (Visitors.call i s).1 = (PrivateSession.call.keyed i f).1 ∧
      Tracks (Visitors.call i s).2 (PrivateSession.call.keyed i f).2 := by
  obtain ⟨k, ⟨req, closing, now, draws⟩ | op⟩ := i
  · rw [Visitors.DrawsFresh, ← hs] at hi
    exact h.visit req closing now hi
  · exact h.onSession op

open Visitors in
/-- **Each visitor is answered as if it were alone.** In every run of the visitors of a manager, in
any order, in which the ids that are drawn are new: what a visitor is answered is what a session of
its own, that lives for an hour behind each visit, answers to its own calls. -/
theorem visitors_apart (h : Along DrawsFresh calls) (k : κ) :
    Machine.callsOn k (Visitors.call.log calls Visitors.new) =
      PrivateSession.call.log ((calls.filter fun c => c.1 = k).map Prod.snd) none := by
  rw [← Machine.callsOn_log_keyed PrivateSession.call k calls fun _ => none]
  refine congrArg _ (Machine.log_eq_of_answers_eq (Machine.answers_eq_of_along
    (R := fun calls s f => s = Visitors.call.run calls Visitors.new ∧ Tracks s f)
    ⟨rfl, .new κ⟩ (fun calls i s f hR hi => ?_) h).1)
  obtain ⟨hs, htracks⟩ := hR
  obtain ⟨hanswer, hnext⟩ := htracks.call hs hi
  refine ⟨hanswer, ?_, hnext⟩
  rw [Machine.run_concat, hs]

end Runs

/-- Readings of the clock at one moment. -/
def readingsAt (now : ℤ) : Readings := ⟨now, now, now, now⟩

/-- Two visitors; the first sets a value, and finds it when it comes again. -/
def twoVisitors : List (Bool × VisitorCall) :=
  [(false, .visit .new false (readingsAt 0) fun _ => ⟨0, by decide⟩),
    (false, .onSession (.setValue (bytes "cart") (bytes "1"))),
    (true, .visit .new false (readingsAt 1) fun _ => ⟨1, by decide⟩),
    (true, .onSession (.getValue (bytes "cart"))),
    (false, .visit .new false (readingsAt 2) fun _ => ⟨2, by decide⟩),
    (false, .onSession (.getValue (bytes "cart")))]

theorem visitors_apart_twoVisitors :
    (Visitors.call.answers twoVisitors Visitors.new) =
        [.visited true, .answered none, .visited true, .answered (some []), .visited false,
          .answered (some (bytes "1"))] ∧
      Machine.callsOn false (Visitors.call.log twoVisitors Visitors.new) =
        PrivateSession.call.log
          ((twoVisitors.filter fun c => c.1 = false).map Prod.snd) none := by
  refine ⟨by decide +kernel, visitors_apart ?_ false⟩
  refine along_cons.2 ⟨?_, along_cons.2 ⟨trivial, along_cons.2 ⟨?_, along_cons.2 ⟨trivial,
    along_cons.2 ⟨?_, along_cons.2 ⟨trivial, along_nil _⟩⟩⟩⟩⟩⟩
  · exact fun p hp => absurd hp (Nat.not_lt_zero p)
  · rw [Visitors.DrawsFresh]
    decide +kernel
  · rw [Visitors.DrawsFresh]
    decide +kernel

end KamaHttp
