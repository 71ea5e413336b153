import KamaHttp.Foundations.Machine
import KamaHttp.Http.HttpRequest
import KamaHttp.Http.HttpResponse

/-!
# Sessions

The sessions and their manager (`Session.cpp`, `SessionStorage.cpp`, `SessionManager.cpp`).
Handlers keep the pointers that `getSession` has returned, and a session writes itself back into
the storage when a value is set. The model has the sessions by their pointers; times are those of
the system clock, in nanoseconds. The draws of the random generator are arguments, as are the
readings of the clock, of which `getSession` takes up to four.

* `getSession_cases`: what `getSession` returns, and the state behind it.
* `Filed.call`: in every run the storage has each session under its own id.
* `getSessionIdFromCookie_cookieFor`: a request that names a given session.
-/

namespace KamaHttp

open Search

/-- A session. There is one manager, and the pointer to it is there or is null. -/
structure Session where
  sessionId : Bytes
  data : StringMap
  expiryTime : ℤ
  maxAge : ℤ
  sessionManager : Bool

namespace Session

/-- Whether the session has expired at a reading of the clock. -/
def isExpired (s : Session) (now : ℤ) : Bool := s.expiryTime < now

def refresh (now : ℤ) (s : Session) : Session :=
  { s with expiryTime := now + seconds s.maxAge }

/-- The constructor, with a manager. -/
def new (sessionId : Bytes) (maxAge now : ℤ) : Session :=
  refresh now ⟨sessionId, ∅, 0, maxAge, true⟩

/-- The age up to which a session lives by default. -/
def defaultMaxAge : ℤ := 3600

def setManager (manager : Bool) (s : Session) : Session := { s with sessionManager := manager }

/-- `data_[key] = value`. -/
def assign (key value : Bytes) (s : Session) : Session :=
  { s with data := s.data.insert key value }

def getValue (s : Session) (key : Bytes) : Bytes := s.data[key]?.getD []

def remove (key : Bytes) (s : Session) : Session := { s with data := s.data.erase key }

def clear (s : Session) : Session := { s with data := ∅ }

end Session

/-- The manager with its storage, and the sessions that have been made. -/
structure SessionManager where
  objects : ℕ → Session
  allocated : ℕ
  storage : Bytes → Option ℕ

/-- The readings of the clock in a call of `getSession`, in their order. -/
structure Readings where
  load : ℤ
  check : ℤ
  create : ℤ
  refresh : ℤ

namespace SessionManager

def new : SessionManager := ⟨fun _ => Session.new [] 0 0, 0, fun _ => none⟩

/-- Change the session behind a pointer. -/
def modify (m : SessionManager) (p : ℕ) (f : Session → Session) : SessionManager :=
  { m with objects := Function.update m.objects p (f (m.objects p)) }

/-- `std::make_shared`. -/
def make (m : SessionManager) (session : Session) : ℕ × SessionManager :=
  (m.allocated,
    { m with
      objects := Function.update m.objects m.allocated session
      allocated := m.allocated + 1 })

/-! ## The storage -/

def save (m : SessionManager) (p : ℕ) : SessionManager :=
  { m with storage := Function.update m.storage (m.objects p).sessionId (some p) }

def remove (m : SessionManager) (sessionId : Bytes) : SessionManager :=
  { m with storage := Function.update m.storage sessionId none }

def load (m : SessionManager) (sessionId : Bytes) (now : ℤ) : Option ℕ × SessionManager :=
  match m.storage sessionId with
  | some p => if (m.objects p).isExpired now then (none, m.remove sessionId) else (some p, m)
  | none => (none, m)

/-! ## The manager -/

def hexDigit (d : Fin 16) : Byte :=
  if d.val < 10 then UInt8.ofNat (48 + d.val) else UInt8.ofNat (87 + d.val)

def generateSessionId (draws : Fin 32 → Fin 16) : Bytes := (List.ofFn draws).map hexDigit

def getSessionIdFromCookie (req : HttpRequest) : Bytes :=
  match breakOn (bytes "sessionId=") (req.getHeader (bytes "Cookie")) with
  | none => []
  | some (_, rest) =>
    match breakOn [59] rest with
    | some (sessionId, _) => sessionId
    | none => rest

def setSessionCookie (sessionId : Bytes) (resp : HttpResponse) : HttpResponse :=
  resp.addHeader (bytes "Set-Cookie")
    (bytes "sessionId=" ++ (sessionId ++ bytes "; Path=/; HttpOnly"))

/-- The session that a request names, if it is stored and has not expired at either reading. -/
def find (m : SessionManager) (sessionId : Bytes) (now : Readings) : Option ℕ × SessionManager :=
  let (session, m) := if sessionId = [] then (none, m) else m.load sessionId now.load
  (session.filter fun p => !(m.objects p).isExpired now.check, m)

/-- `getSession`: the pointer it returns and the response it leaves. -/
def getSession (m : SessionManager) (req : HttpRequest) (resp : HttpResponse) (now : Readings)
    (draws : Fin 32 → Fin 16) : (ℕ × HttpResponse) × SessionManager :=
  let (found, m) := m.find (getSessionIdFromCookie req) now
  let ((session, resp), m) := match found with
    | none =>
      let sessionId := generateSessionId draws
      let (p, m) := m.make (Session.new sessionId Session.defaultMaxAge now.create)
      ((p, setSessionCookie sessionId resp), m)
    | some p => ((p, resp), m.modify p (Session.setManager true))
  ((session, resp), (m.modify session (Session.refresh now.refresh)).save session)

def destroySession (m : SessionManager) (sessionId : Bytes) : SessionManager := m.remove sessionId

def updateSession (m : SessionManager) (p : ℕ) : SessionManager := m.save p

/-- `Session::setValue`, with the session that writes itself back. -/
def setValue (m : SessionManager) (p : ℕ) (key value : Bytes) : SessionManager :=
  let m := m.modify p (Session.assign key value)
  if (m.objects p).sessionManager then m.updateSession p else m

section Operations

variable (m : SessionManager) (p q : ℕ) (f : Session → Session) (c : Bytes)

@[simp] theorem objects_save : (m.save p).objects = m.objects := rfl

theorem objects_modify :
    (m.modify p f).objects q = if q = p then f (m.objects p) else m.objects q :=
  Function.update_apply ..

theorem objects_make (s : Session) :
    (m.make s).2.objects q = if q = m.allocated then s else m.objects q :=
  Function.update_apply ..

theorem storage_save :
    (m.save p).storage c = if c = (m.objects p).sessionId then some p else m.storage c :=
  Function.update_apply ..

theorem storage_remove (c' : Bytes) :
    (m.remove c').storage c = if c = c' then none else m.storage c :=
  Function.update_apply ..

end Operations

/-! ## What `getSession` does -/

/-- The session has not expired at the two readings at which `getSession` looks. -/
def Alive (s : Session) (now : Readings) : Prop :=
  now.load ≤ s.expiryTime ∧ now.check ≤ s.expiryTime

/-- A stored session that is returned again. -/
def keep (m : SessionManager) (p : ℕ) (now : Readings) : SessionManager :=
  ((m.modify p (Session.setManager true)).modify p (Session.refresh now.refresh)).save p

/-- A new session, that is returned for the first time. -/
def issue (m : SessionManager) (sessionId : Bytes) (now : Readings) : SessionManager :=
  ((m.make (Session.new sessionId Session.defaultMaxAge now.create)).2.modify m.allocated
    (Session.refresh now.refresh)).save m.allocated

variable {m : SessionManager} {req : HttpRequest} {resp : HttpResponse} {now : Readings}
  {draws : Fin 32 → Fin 16} {p q : ℕ} {c : Bytes}

theorem find_cases (m : SessionManager) (c : Bytes) (now : Readings) :
    (∃ p, c ≠ [] ∧ m.storage c = some p ∧ Alive (m.objects p) now ∧
        m.find c now = (some p, m)) ∨
      ((∀ p, m.storage c = some p → Alive (m.objects p) now → c = []) ∧
        ∃ m', (m' = m ∨ m' = m.remove c) ∧ m.find c now = (none, m')) := by
  unfold find
  by_cases hc : c = []
  · rw [if_pos hc]
    exact .inr ⟨fun _ _ _ => hc, m, .inl rfl, rfl⟩
  rw [if_neg hc, load]
  cases hs : m.storage c with
  | none => exact .inr ⟨fun p hp => absurd hp (Option.some_ne_none p).symm, m, .inl rfl, rfl⟩
  | some p =>
    simp only [Session.isExpired, decide_eq_true_eq]
    by_cases hload : (m.objects p).expiryTime < now.load
    · rw [if_pos hload]
      refine .inr ⟨fun q hq hal => ?_, _, .inr rfl, rfl⟩
      obtain rfl := Option.some.inj hq
      exact absurd hal.1 (not_le.2 hload)
    rw [if_neg hload]
    by_cases hcheck : (m.objects p).expiryTime < now.check
    · refine .inr ⟨fun q hq hal => ?_, m, .inl rfl, by simp [hcheck]⟩
      obtain rfl := Option.some.inj hq
      exact absurd hal.2 (not_le.2 hcheck)
    · exact .inl ⟨p, hc, rfl, ⟨not_lt.1 hload, not_lt.1 hcheck⟩, by simp [hcheck]⟩

/-- **What `getSession` does**: it returns the session that is stored under the id of the cookie,
if that has not expired, and a new one otherwise. -/
theorem getSession_cases (m : SessionManager) (req : HttpRequest) (resp : HttpResponse)
    (now : Readings) (draws : Fin 32 → Fin 16) :
    (∃ p, getSessionIdFromCookie req ≠ [] ∧ m.storage (getSessionIdFromCookie req) = some p ∧
        Alive (m.objects p) now ∧
        m.getSession req resp now draws = ((p, resp), m.keep p now)) ∨
      ((∀ p, m.storage (getSessionIdFromCookie req) = some p → Alive (m.objects p) now →
        getSessionIdFromCookie req = []) ∧
        ∃ m', (m' = m ∨ m' = m.remove (getSessionIdFromCookie req)) ∧
          m.getSession req resp now draws =
            ((m.allocated, setSessionCookie (generateSessionId draws) resp),
              m'.issue (generateSessionId draws) now)) := by
  rcases m.find_cases (getSessionIdFromCookie req) now with
    ⟨p, hc, hs, hal, hfind⟩ | ⟨hnone, m', hm', hfind⟩
  · exact .inl ⟨p, hc, hs, hal, by rw [getSession, hfind]; rfl⟩
  · refine .inr ⟨hnone, m', hm', ?_⟩
    have hallocated : m'.allocated = m.allocated := by rcases hm' with rfl | rfl <;> rfl
    rw [getSession, hfind, ← hallocated]
    rfl

section Returned

variable (m) (p q) (c) (now)

@[simp] theorem allocated_issue : (m.issue c now).allocated = m.allocated + 1 := rfl

theorem objects_keep : (m.keep p now).objects q =
    if q = p then ((m.objects p).setManager true).refresh now.refresh else m.objects q := by
  unfold keep
  rw [objects_save, objects_modify, objects_modify, if_pos rfl, objects_modify]
  split <;> rfl

theorem storage_keep : (m.keep p now).storage c =
    if c = (m.objects p).sessionId then some p else m.storage c := by
  unfold keep
  rw [storage_save, objects_modify, if_pos rfl, objects_modify, if_pos rfl]
  rfl

theorem objects_issue : (m.issue c now).objects q =
    if q = m.allocated then Session.new c Session.defaultMaxAge now.refresh
      else m.objects q := by
  unfold issue
  rw [objects_save, objects_modify, objects_make, if_pos rfl, objects_make]
  split <;> rfl

theorem storage_issue (c' : Bytes) : (m.issue c now).storage c' =
    if c' = c then some m.allocated else m.storage c' := by
  unfold issue
  rw [storage_save, objects_modify, if_pos rfl, objects_make, if_pos rfl]
  rfl

end Returned

end SessionManager

/-! ## Runs -/

/-- The calls: those of a handler on the manager, and on a session that it holds. -/
inductive SessionCall
  | getSession (req : HttpRequest) (resp : HttpResponse) (now : Readings)
      (draws : Fin 32 → Fin 16)
  | destroySession (sessionId : Bytes)
  | setValue (p : ℕ) (key value : Bytes)
  | getValue (p : ℕ) (key : Bytes)
  | remove (p : ℕ) (key : Bytes)
  | clear (p : ℕ)
  | refresh (p : ℕ) (now : ℤ)
  | setManager (p : ℕ) (manager : Bool)

/-- The session that a call is on. -/
def SessionCall.pointer : SessionCall → Option ℕ
  | .getSession .. | .destroySession _ => none
  | .setValue p _ _ | .getValue p _ | .remove p _ | .clear p | .refresh p _ | .setManager p _ =>
    some p

inductive SessionAnswer
  | session (p : ℕ) (resp : HttpResponse)
  | value (v : Bytes)
  | done

namespace SessionManager

/-- A call on a session; there is none on one that has not been made. -/
def onHeld (m : SessionManager) (p : ℕ) (f : SessionManager → SessionManager) : SessionManager :=
  if p < m.allocated then f m else m

/-- What a call answers, and the state behind it. -/
def call : Machine SessionCall SessionManager SessionAnswer
  | .getSession req resp now draws, m =>
    let r := m.getSession req resp now draws
    (.session r.1.1 r.1.2, r.2)
  | .destroySession c, m => (.done, m.destroySession c)
  | .setValue p key value, m => (.done, m.onHeld p fun m => m.setValue p key value)
  | .getValue p key, m => (.value ((m.objects p).getValue key), m)
  | .remove p key, m => (.done, m.onHeld p fun m => m.modify p (Session.remove key))
  | .clear p, m => (.done, m.onHeld p fun m => m.modify p Session.clear)
  | .refresh p now, m => (.done, m.onHeld p fun m => m.modify p (Session.refresh now))
  | .setManager p b, m => (.done, m.onHeld p fun m => m.modify p (Session.setManager b))

/-- The state behind the calls, of a manager with an empty storage. -/
def behind (calls : List SessionCall) : SessionManager := call.run calls new

theorem behind_concat (calls : List SessionCall) (i : SessionCall) :
    behind (calls ++ [i]) = (call i (behind calls)).2 := Machine.run_concat call calls i new

/-- Every entry of the storage is filed under the id of its own session. -/
def Filed (m : SessionManager) : Prop :=
  ∀ c p, m.storage c = some p → p < m.allocated ∧ (m.objects p).sessionId = c

/-- The ids are those that have been drawn. -/
def Drawn (m : SessionManager) : Prop :=
  ∀ p < m.allocated, ∃ draws, (m.objects p).sessionId = generateSessionId draws

/-- What a call does to the state. -/
inductive Next (m : SessionManager) : SessionCall → SessionManager → Prop
  | keep {req : HttpRequest} {now : Readings} {p : ℕ} (resp : HttpResponse)
      (draws : Fin 32 → Fin 16) (hs : m.storage (getSessionIdFromCookie req) = some p)
      (hr : (m.getSession req resp now draws).1 = (p, resp)) :
      Next m (.getSession req resp now draws) (m.keep p now)
  | issue {req : HttpRequest} {now : Readings} {m' : SessionManager} {resp : HttpResponse}
      {draws : Fin 32 → Fin 16} (hm : m' = m ∨ m' = m.remove (getSessionIdFromCookie req))
      (hr : (m.getSession req resp now draws).1.1 = m.allocated) :
      Next m (.getSession req resp now draws) (m'.issue (generateSessionId draws) now)
  | destroySession (c : Bytes) : Next m (.destroySession c) (m.remove c)
  | save {p : ℕ} {key value : Bytes} (hp : p < m.allocated)
      (hm : (m.objects p).sessionManager = true) :
      Next m (.setValue p key value) ((m.modify p (Session.assign key value)).save p)
  | assign {p : ℕ} {key value : Bytes} (hp : p < m.allocated)
      (hm : (m.objects p).sessionManager = false) :
      Next m (.setValue p key value) (m.modify p (Session.assign key value))
  | remove {p : ℕ} (key : Bytes) (hp : p < m.allocated) :
      Next m (.remove p key) (m.modify p (Session.remove key))
  | clear {p : ℕ} (hp : p < m.allocated) : Next m (.clear p) (m.modify p Session.clear)
  | refresh {p : ℕ} (now : ℤ) (hp : p < m.allocated) :
      Next m (.refresh p now) (m.modify p (Session.refresh now))
  | setManager {p : ℕ} (b : Bool) (hp : p < m.allocated) :
      Next m (.setManager p b) (m.modify p (Session.setManager b))
  | idle {i : SessionCall} {p : ℕ} (hi : i.pointer = some p)
      (hp : p < m.allocated → ∃ key, i = .getValue p key) : Next m i m

theorem next_onHeld {m : SessionManager} {i : SessionCall} {p : ℕ}
    (f : SessionManager → SessionManager) (hi : i.pointer = some p)
    (h : p < m.allocated → Next m i (f m)) : Next m i (m.onHeld p f) := by
  unfold onHeld
  split
  · next hp => exact h hp
  · next hp => exact .idle hi fun h => absurd h hp

theorem next_call (i : SessionCall) (m : SessionManager) : Next m i (call i m).2 := by
  cases i with
  | getSession req resp now draws =>
    rcases m.getSession_cases req resp now draws with ⟨p, -, hs, -, h⟩ | ⟨-, m', hm', h⟩
    · simp only [call, h]
      exact .keep resp draws hs (by rw [h])
    · simp only [call, h]
      exact .issue hm' (by rw [h])
  | destroySession c => exact .destroySession c
  | getValue p key => exact .idle rfl fun _ => ⟨key, rfl⟩
  | setValue p key value =>
    refine next_onHeld (fun m => m.setValue p key value) rfl fun hp => ?_
    simp only [setValue, objects_modify, if_true, Session.assign]
    split
    · next hm => exact .save hp hm
    · next hm => exact .assign hp (Bool.eq_false_iff.2 hm)
  | remove p key => exact next_onHeld (fun m => m.modify p _) rfl fun hp => .remove key hp
  | clear p => exact next_onHeld (fun m => m.modify p _) rfl fun hp => .clear hp
  | refresh p now => exact next_onHeld (fun m => m.modify p _) rfl fun hp => .refresh now hp
  | setManager p b => exact next_onHeld (fun m => m.modify p _) rfl fun hp => .setManager b hp

variable {m m' : SessionManager} {p q : ℕ} {c : Bytes} {f : Session → Session}
  {i : SessionCall}

theorem Next.allocated_le (h : Next m i m') : m.allocated ≤ m'.allocated := by
  cases h with
  | issue hm =>
    rcases hm with rfl | rfl
    · exact Nat.le_succ _
    · exact Nat.le_succ _
  | _ => exact le_rfl

theorem sessionId_modify (m : SessionManager) (p q : ℕ)
    (hf : ∀ s, (f s).sessionId = s.sessionId) :
    ((m.modify p f).objects q).sessionId = (m.objects q).sessionId := by
  rw [objects_modify]
  split
  · next h => rw [hf, h]
  · rfl

/-- **The sessions that have been made keep their ids.** -/
theorem Next.sessionId (h : Next m i m') (hq : q < m.allocated) :
    (m'.objects q).sessionId = (m.objects q).sessionId := by
  cases h with
  | @keep req now p =>
    rw [objects_keep]
    split
    · next h => rw [h]; rfl
    · rfl
  | issue hm =>
    rw [objects_issue, if_neg]
    · rcases hm with rfl | rfl <;> rfl
    · rcases hm with rfl | rfl <;> exact hq.ne
  | destroySession | idle => rfl
  | save => exact sessionId_modify m _ q fun _ => rfl
  | assign | remove | clear | refresh | setManager => exact sessionId_modify m _ q fun _ => rfl

/-- The call saves the session. -/
inductive Saves (m : SessionManager) : SessionCall → ℕ → Prop
  | getSession (req : HttpRequest) (resp : HttpResponse) (now : Readings)
      (draws : Fin 32 → Fin 16) :
      Saves m (.getSession req resp now draws) (m.getSession req resp now draws).1.1
  | setValue {p : ℕ} (key value : Bytes) (hp : p < m.allocated)
      (hm : (m.objects p).sessionManager = true) : Saves m (.setValue p key value) p

theorem Saves.of_getSession {req : HttpRequest} {resp : HttpResponse} {now : Readings}
    {draws : Fin 32 → Fin 16} (h : (m.getSession req resp now draws).1.1 = p) :
    Saves m (.getSession req resp now draws) p := h ▸ .getSession req resp now draws

/-- **An entry of the storage was there before, or is that of the session that the call saves.** -/
theorem Next.stored (h : Next m i m') (hs : m'.storage c = some p) :
    m.storage c = some p ∨ Saves m i p ∧ (m'.objects p).sessionId = c := by
  cases h with
  | @keep req now q resp draws _ hr =>
    rw [storage_keep] at hs
    split at hs
    · next hc =>
      obtain rfl := Option.some.inj hs
      refine .inr ⟨.of_getSession (by rw [hr]), ?_⟩
      rw [objects_keep, if_pos rfl, hc]
      rfl
    · exact .inl hs
  | @issue req now m₁ resp draws hm hr =>
    have hallocated : m₁.allocated = m.allocated := by rcases hm with rfl | rfl <;> rfl
    rw [storage_issue] at hs
    split at hs
    · next hc =>
      obtain rfl := Option.some.inj hs
      refine .inr ⟨.of_getSession (by rw [hr, hallocated]), ?_⟩
      rw [objects_issue, if_pos rfl, hc]
      rfl
    · rcases hm with rfl | rfl
      · exact .inl hs
      · rw [storage_remove] at hs
        split at hs
        · cases hs
        · exact .inl hs
  | destroySession c' =>
    rw [storage_remove] at hs
    split at hs
    · cases hs
    · exact .inl hs
  | @save q key value hq hm =>
    rw [storage_save] at hs
    split at hs
    · next hc =>
      obtain rfl := Option.some.inj hs
      exact .inr ⟨.setValue key value hq hm, by rw [objects_save, hc]⟩
    · exact .inl hs
  | assign | remove | clear | refresh | setManager | idle => exact .inl hs

/-- What a call saves has been made. -/
theorem Next.lt_allocated (h : Next m i m') (hF : Filed m) (hp : Saves m i p) :
    p < m'.allocated := by
  cases hp with
  | setValue _ _ hp _ => exact hp.trans_le h.allocated_le
  | getSession req resp now draws =>
    cases h with
    | keep _ _ hs hr =>
      rw [hr]
      exact (hF _ _ hs).1
    | issue hm hr =>
      rw [hr]
      rcases hm with rfl | rfl <;> exact Nat.lt_succ_self _
    | idle hi => cases hi

/-- **Every entry stays filed under the id of its own session.** -/
theorem Filed.next (hF : Filed m) (h : Next m i m') : Filed m' := by
  intro c p hs
  rcases h.stored hs with hs | ⟨hp, hc⟩
  · obtain ⟨hp, hc⟩ := hF c p hs
    exact ⟨hp.trans_le h.allocated_le, by rw [h.sessionId hp, hc]⟩
  · exact ⟨h.lt_allocated hF hp, hc⟩

theorem Drawn.next (hD : Drawn m) (h : Next m i m') : Drawn m' := by
  intro p hp
  by_cases hold : p < m.allocated
  · rw [h.sessionId hold]
    exact hD p hold
  cases h with
  | @issue req now m₁ resp draws hm =>
    have hallocated : m₁.allocated = m.allocated := by rcases hm with rfl | rfl <;> rfl
    rw [allocated_issue] at hp
    have hnew : p = m₁.allocated := by omega
    exact ⟨draws, by rw [objects_issue, if_pos hnew]; rfl⟩
  | _ => exact absurd hp hold

/-- **In every run the storage has each session under its own id**, and the ids have been drawn. -/
theorem filed_behind (calls : List SessionCall) : Filed (behind calls) ∧ Drawn (behind calls) := by
  induction calls using List.reverseRecOn with
  | nil => exact ⟨fun c p hs => (by cases hs), fun p hp => absurd hp (Nat.not_lt_zero p)⟩
  | append_singleton calls i ih =>
    rw [behind_concat]
    have hnext := next_call i (behind calls)
    exact ⟨ih.1.next hnext, ih.2.next hnext⟩

/-! ## Naming a session -/

/-- A request whose cookie has an id. -/
def cookieFor (sessionId : Bytes) : HttpRequest :=
  { HttpRequest.new with
    headers := (∅ : StringMap).insert (bytes "Cookie") (bytes "sessionId=" ++ sessionId) }

theorem ne_nil_generateSessionId (draws : Fin 32 → Fin 16) : generateSessionId draws ≠ [] := by
  intro h
  have hlength := congrArg List.length h
  simp [generateSessionId] at hlength

theorem notMem_generateSessionId (draws : Fin 32 → Fin 16) : 59 ∉ generateSessionId draws := by
  have hdigit : ∀ d, hexDigit d ≠ 59 := by decide
  rw [generateSessionId, List.mem_map]
  rintro ⟨d, -, h⟩
  exact hdigit d h

theorem getSessionIdFromCookie_cookieFor (h : 59 ∉ c) :
    getSessionIdFromCookie (cookieFor c) = c := by
  have hcookie : (cookieFor c).getHeader (bytes "Cookie") = bytes "sessionId=" ++ c := by
    simp [cookieFor, HttpRequest.getHeader]
  rw [getSessionIdFromCookie, hcookie, breakOn_here (List.prefix_append _ c), List.drop_left]
  dsimp only
  rw [breakOn_singleton_none.2 h]

end SessionManager

end KamaHttp
