import KamaHttp.Session.SessionManager

/-!
# Expiry and renewal of sessions

A session that is returned again was refreshed no longer ago than it may live, and every session
that is returned lives from then on.

* `lastRefresh`: when a session was refreshed last, by the calls of the run.
* `Next.renewed`: a call refreshes a session, or leaves its time of expiry as it is.
* `getSession_renews`: what `getSession` returns behind any run.
-/

namespace KamaHttp.SessionManager

/-- When a call refreshes the session, if it does. -/
def refreshOf (p : ℕ) : SessionCall × SessionAnswer → Option ℤ
  | (.getSession _ _ now _, .session q _) => if q = p then some now.refresh else none
  | (.refresh q now, _) => if q = p then some now else none
  | _ => none

/-- When the session was refreshed last. -/
def lastRefresh (p : ℕ) (calls : List SessionCall) : Option ℤ :=
  ((call.log calls new).filterMap (refreshOf p)).getLast?

variable {m m' : SessionManager} {i : SessionCall} {p : ℕ} {f : Session → Session}

theorem lastRefresh_concat (p : ℕ) (calls : List SessionCall) (i : SessionCall) :
    lastRefresh p (calls ++ [i]) =
      (refreshOf p (i, (call i (behind calls)).1)).or (lastRefresh p calls) := by
  have hlog : call.log [i] (call.run calls new) = [(i, (call i (behind calls)).1)] := rfl
  rw [lastRefresh, Machine.log_append, hlog, List.filterMap_append, List.getLast?_append]
  cases h : refreshOf p (i, (call i (behind calls)).1) with
  | none => rw [List.filterMap_cons_none h]; rfl
  | some t => rw [List.filterMap_cons_some h]; rfl

/-- The session lives for its age from `t` on. -/
def LivesFrom (s : Session) (t : ℤ) : Prop := s.expiryTime = t + seconds s.maxAge

/-- A change of a session that does not touch its times. -/
def KeepsTimes (f : Session → Session) : Prop :=
  ∀ s, (f s).expiryTime = s.expiryTime ∧ (f s).maxAge = s.maxAge

theorem livesFrom_modify (m : SessionManager) (p q : ℕ) {t : ℤ} (hf : KeepsTimes f) :
    LivesFrom ((m.modify p f).objects q) t ↔ LivesFrom (m.objects q) t := by
  rw [objects_modify]
  split
  · next h =>
    obtain ⟨hexpiry, hage⟩ := hf (m.objects p)
    rw [LivesFrom, hexpiry, hage, h, LivesFrom]
  · rfl

theorem livesFrom_refresh (s : Session) (t : ℤ) : LivesFrom (s.refresh t) t := rfl

/-- Where the session `q` is refreshed, the session `p` is refreshed or stays as it was. -/
theorem renewed_of_refresh {q n : ℕ} {now : ℤ} {s old : Session} (hp : p ≠ q → p < n) :
    (∃ t, (if q = p then some now else none) = some t ∧
        LivesFrom (if p = q then s.refresh now else old) t) ∨
      p < n ∧ (if q = p then some now else none) = none ∧
        ∀ t, LivesFrom (if p = q then s.refresh now else old) t ↔ LivesFrom old t := by
  by_cases hq : p = q
  · rw [if_pos hq, if_pos hq.symm]
    exact .inl ⟨_, rfl, livesFrom_refresh _ _⟩
  · rw [if_neg hq, if_neg (Ne.symm hq)]
    exact .inr ⟨hp hq, rfl, fun _ => Iff.rfl⟩

/-- **A call refreshes a session, or leaves its time of expiry as it is.** -/
theorem Next.renewed (h : Next m i m') (hp : p < m'.allocated) :
    (∃ t, refreshOf p (i, (call i m).1) = some t ∧ LivesFrom (m'.objects p) t) ∨
      p < m.allocated ∧ refreshOf p (i, (call i m).1) = none ∧
        ∀ t, LivesFrom (m'.objects p) t ↔ LivesFrom (m.objects p) t := by
  cases h with
  | @keep req now q resp draws _ hr =>
    simp only [call, refreshOf, hr, objects_keep]
    exact renewed_of_refresh fun _ => hp
  | @issue req now m₁ resp draws hm hr =>
    have hm₁ : m₁.allocated = m.allocated ∧ m₁.objects = m.objects := by
      rcases hm with rfl | rfl <;> exact ⟨rfl, rfl⟩
    rw [allocated_issue, hm₁.1] at hp
    simp only [call, refreshOf, hr, objects_issue, hm₁.1, hm₁.2]
    exact renewed_of_refresh fun hne => Nat.lt_of_le_of_ne (Nat.le_of_lt_succ hp) hne
  | destroySession c => exact .inr ⟨hp, rfl, fun _ => Iff.rfl⟩
  | save => exact .inr ⟨hp, rfl, fun _ => livesFrom_modify m _ p fun _ => ⟨rfl, rfl⟩⟩
  | assign | remove | clear | setManager =>
    exact .inr ⟨hp, rfl, fun _ => livesFrom_modify m _ p fun _ => ⟨rfl, rfl⟩⟩
  | @refresh q now _ =>
    simp only [refreshOf, objects_modify]
    exact renewed_of_refresh fun _ => hp
  | @idle i q hi hidle =>
    refine .inr ⟨hp, ?_, fun _ => Iff.rfl⟩
    cases i with
    | getSession => cases hi
    | refresh q' now =>
      obtain rfl := Option.some.inj hi
      refine if_neg ?_
      rintro rfl
      obtain ⟨key, hkey⟩ := hidle hp
      cases hkey
    | _ => rfl

/-- **Every session lives from its last refresh on**, in every run. -/
theorem livesFrom_lastRefresh (calls : List SessionCall) (hp : p < (behind calls).allocated) :
    ∃ t, lastRefresh p calls = some t ∧ LivesFrom ((behind calls).objects p) t := by
  induction calls using List.reverseRecOn with
  | nil => exact absurd hp (Nat.not_lt_zero p)
  | append_singleton calls i ih =>
    rw [behind_concat] at hp
    rw [lastRefresh_concat, behind_concat]
    rcases (next_call i (behind calls)).renewed hp with ⟨t, ht, hlives⟩ | ⟨hold, hnone, hlives⟩
    · exact ⟨t, by rw [ht]; rfl, hlives⟩
    · obtain ⟨t, ht, hlived⟩ := ih hold
      exact ⟨t, by rw [hnone, ht]; rfl, (hlives t).2 hlived⟩

/-- **What `getSession` returns behind any run**: the session that is stored under the id of the
cookie, refreshed no longer before the check than it may live, or a new one without data whose id
is set as the cookie. From then on it is stored under its id and lives from the refresh on, and
every entry of the storage is filed under the id of its session. -/
theorem getSession_renews (calls : List SessionCall) (req : HttpRequest) (resp : HttpResponse)
    (now : Readings) (draws : Fin 32 → Fin 16) :
    let m := behind calls
    let r := m.getSession req resp now draws
    let session := r.2.objects r.1.1
    ((m.storage (getSessionIdFromCookie req) = some r.1.1 ∧ r.1.2 = resp ∧
        ∃ t, lastRefresh r.1.1 calls = some t ∧ now.check - t ≤ seconds session.maxAge) ∨
      (r.1.1 = m.allocated ∧ session.data = ∅ ∧
        r.1.2 = setSessionCookie session.sessionId resp)) ∧
      r.2.storage session.sessionId = some r.1.1 ∧
      session.expiryTime = now.refresh + seconds session.maxAge ∧ Filed r.2 := by
  intro m r session
  have hfiled : Filed r.2 :=
    (filed_behind calls).1.next (next_call (.getSession req resp now draws) (behind calls))
  rcases m.getSession_cases req resp now draws with
    ⟨p, -, hs, hal, h⟩ | ⟨-, m', hm', h⟩
  · have hr : r = ((p, resp), m.keep p now) := h
    have hsession : session = ((m.objects p).setManager true).refresh now.refresh := by
      simp only [session, hr, objects_keep, if_true]
    obtain ⟨t, ht, hlives⟩ := livesFrom_lastRefresh calls ((filed_behind calls).1 _ p hs).1
    refine ⟨.inl ⟨by rw [hr]; exact hs, by rw [hr], t, by rw [hr]; exact ht, ?_⟩, ?_, ?_, hfiled⟩
    · have hcheck := hal.2
      rw [hlives] at hcheck
      rw [hsession]
      exact sub_le_iff_le_add'.2 hcheck
    · rw [hsession, hr, storage_keep]
      exact if_pos rfl
    · rw [hsession]
      rfl
  · have hr : r = ((m.allocated, setSessionCookie (generateSessionId draws) resp),
        m'.issue (generateSessionId draws) now) := h
    have hallocated : m'.allocated = m.allocated := by rcases hm' with rfl | rfl <;> rfl
    have hsession : session =
        Session.new (generateSessionId draws) Session.defaultMaxAge now.refresh := by
      simp only [session, hr, objects_issue, hallocated, if_true]
    refine ⟨.inr ⟨by rw [hr], by rw [hsession]; rfl, by rw [hr, hsession]; rfl⟩, ?_, ?_, hfiled⟩
    · rw [hsession, hr, storage_issue, hallocated]
      exact if_pos rfl
    · rw [hsession]
      rfl

end KamaHttp.SessionManager
