import KamaHttp.Session.SessionManager

/-!
# Sessions that have been destroyed

`destroySession` takes a session out of the storage. A handler that still holds it may set a value
on it, and the session writes itself back.

* `staysDestroyed_iff_storage`: destroyed sessions are not returned exactly if none is stored.
* `staysDestroyed_iff`: they are returned in no run exactly if no value is set on one of them.
* `writtenBack`: a value that is set on a destroyed session, and the login that it brings back.
-/

namespace KamaHttp.SessionManager

/-- `destroySession` has been called on the id of the session. -/
def Destroyed (calls : List SessionCall) (c : Bytes) (p : ℕ) : Prop :=
  ∃ before after, calls = before ++ .destroySession c :: after ∧ p < (behind before).allocated ∧
    ((behind before).objects p).sessionId = c

/-- **Behind the calls, a destroyed session is not returned** to a request that names it, nor any
of its data: the values of the session that is returned have been set on that one. -/
def StaysDestroyed (calls : List SessionCall) : Prop :=
  ∀ c p, Destroyed calls c p → ∀ req resp now draws, getSessionIdFromCookie req = c →
    let r := (behind calls).getSession req resp now draws
    r.1.1 ≠ p ∧ ∀ key value, (r.2.objects r.1.1).data[key]? = some value →
      .setValue r.1.1 key value ∈ calls

/-- The call does not set a value on a destroyed session that has a manager. -/
def WritesNothingBack (before : List SessionCall) (i : SessionCall) : Prop :=
  ∀ p key value, i = .setValue p key value →
    p < (behind before).allocated → ((behind before).objects p).sessionManager = true →
    ∀ c, ¬ Destroyed before c p

variable {m m' : SessionManager} {calls : List SessionCall} {i : SessionCall} {p : ℕ} {c : Bytes}

theorem not_destroyed_nil : ¬ Destroyed [] c p := by
  rintro ⟨before, after, h, -⟩
  cases before <;> cases h

theorem destroyed_concat : Destroyed (calls ++ [i]) c p ↔ Destroyed calls c p ∨
    i = .destroySession c ∧ p < (behind calls).allocated ∧
      ((behind calls).objects p).sessionId = c := by
  have halong : ∀ calls, ¬ Destroyed calls c p ↔ Along (fun before i => ¬ (i = .destroySession c ∧
      p < (behind before).allocated ∧ ((behind before).objects p).sessionId = c)) calls := by
    intro calls
    constructor
    · rintro h before i after rfl ⟨rfl, hp⟩
      exact h ⟨before, after, rfl, hp⟩
    · rintro h ⟨before, after, hcalls, hp⟩
      exact h before _ after hcalls ⟨rfl, hp⟩
  rw [← not_iff_not, halong, along_concat, ← halong, not_or]

/-- A destroyed session has been made, and still has the id under which it was destroyed. -/
theorem Destroyed.sessionId (h : Destroyed calls c p) :
    p < (behind calls).allocated ∧ ((behind calls).objects p).sessionId = c := by
  induction calls using List.reverseRecOn with
  | nil => exact absurd h not_destroyed_nil
  | append_singleton calls i ih =>
    have hnext := next_call i (behind calls)
    rw [behind_concat]
    have hp : p < (behind calls).allocated ∧ ((behind calls).objects p).sessionId = c := by
      rcases destroyed_concat.1 h with h | ⟨-, hp⟩
      · exact ih h
      · exact hp
    exact ⟨hp.1.trans_le hnext.allocated_le, by rw [hnext.sessionId hp.1, hp.2]⟩

/-! ## The data of a session -/

/-- A change that binds no key binds none behind a pointer. -/
theorem data_modify {f : Session → Session} (q : ℕ) {key value : Bytes}
    (hf : ∀ s : Session, (f s).data[key]? = some value → s.data[key]? = some value)
    (hv : ((m.modify q f).objects p).data[key]? = some value) :
    (m.objects p).data[key]? = some value := by
  rw [objects_modify] at hv
  split at hv
  · next h =>
    rw [h]
    exact hf _ hv
  · exact hv

/-- What is bound behind a pointer when a value is set was bound before, or is that value. -/
theorem data_assign (q : ℕ) (key' value' : Bytes) {key value : Bytes}
    (hv : ((m.modify q (Session.assign key' value')).objects p).data[key]? = some value) :
    (m.objects p).data[key]? = some value ∨
      SessionCall.setValue q key' value' = .setValue p key value := by
  rw [objects_modify] at hv
  split at hv
  · next h =>
    subst h
    rw [Session.assign, Std.ExtTreeMap.getElem?_insert] at hv
    split at hv
    · next hkey =>
      rw [Std.LawfulEqCmp.compare_eq_iff_eq] at hkey
      obtain rfl := Option.some.inj hv
      exact .inr (by rw [hkey])
    · exact .inl hv
  · exact .inl hv

/-- **A value of a session was there before, or is what the call sets on it.** -/
theorem Next.data (h : Next m i m') (hp : p < m'.allocated) {key value : Bytes}
    (hv : (m'.objects p).data[key]? = some value) :
    p < m.allocated ∧ (m.objects p).data[key]? = some value ∨ i = .setValue p key value := by
  cases h with
  | @keep req now q =>
    rw [objects_keep] at hv
    split at hv
    · next h => exact .inl ⟨hp, h ▸ hv⟩
    · exact .inl ⟨hp, hv⟩
  | @issue req now m₁ resp draws hm =>
    have hm₁ : m₁.allocated = m.allocated ∧ m₁.objects = m.objects := by
      rcases hm with rfl | rfl <;> exact ⟨rfl, rfl⟩
    rw [allocated_issue, hm₁.1] at hp
    rw [objects_issue, hm₁.1, hm₁.2] at hv
    split at hv
    · simp [Session.new, Session.refresh] at hv
    · next h => exact .inl ⟨by omega, hv⟩
  | destroySession | idle => exact .inl ⟨hp, hv⟩
  | save => exact (data_assign _ _ _ hv).imp_left fun hv => ⟨hp, hv⟩
  | assign => exact (data_assign _ _ _ hv).imp_left fun hv => ⟨hp, hv⟩
  | remove k _ =>
    refine .inl ⟨hp, data_modify _ (fun s hs => ?_) hv⟩
    rw [Session.remove, Std.ExtTreeMap.getElem?_erase] at hs
    split at hs
    · cases hs
    · exact hs
  | clear _ => exact .inl ⟨hp, data_modify _ (fun s hs => by simp [Session.clear] at hs) hv⟩
  | refresh now _ => exact .inl ⟨hp, data_modify (f := Session.refresh now) _ (fun s hs => hs) hv⟩
  | setManager b _ =>
    exact .inl ⟨hp, data_modify (f := Session.setManager b) _ (fun s hs => hs) hv⟩

/-- **The values of a session have been set on it**, in every run. -/
theorem setValue_mem (calls : List SessionCall) (hp : p < (behind calls).allocated)
    {key value : Bytes} (hv : ((behind calls).objects p).data[key]? = some value) :
    .setValue p key value ∈ calls := by
  induction calls using List.reverseRecOn with
  | nil => exact absurd hp (Nat.not_lt_zero p)
  | append_singleton calls i ih =>
    rw [behind_concat] at hp hv
    rcases (next_call i (behind calls)).data hp hv with ⟨hp, hv⟩ | rfl
    · exact List.mem_append_left _ (ih hp hv)
    · exact List.mem_append_right _ List.mem_cons_self

/-! ## When destroyed sessions are returned -/

/-- The values of the session that is returned have been set on it. -/
theorem data_getSession (calls : List SessionCall) (req : HttpRequest) (resp : HttpResponse)
    (now : Readings) (draws : Fin 32 → Fin 16) {key value : Bytes}
    (hv : let r := (behind calls).getSession req resp now draws
      (r.2.objects r.1.1).data[key]? = some value) :
    .setValue ((behind calls).getSession req resp now draws).1.1 key value ∈ calls := by
  have hnext := next_call (.getSession req resp now draws) (behind calls)
  have hp := hnext.lt_allocated (filed_behind calls).1 (.getSession req resp now draws)
  rcases hnext.data hp hv with ⟨hold, hv⟩ | h
  · exact setValue_mem calls hold hv
  · cases h

/-- A stored session is returned to a request that names it before it expires. -/
theorem exists_returned (calls : List SessionCall) (hs : (behind calls).storage c = some p) :
    ∃ req resp now draws, getSessionIdFromCookie req = c ∧
      ((behind calls).getSession req resp now draws).1.1 = p := by
  obtain ⟨hfiled, hdrawn⟩ := filed_behind calls
  obtain ⟨hp, hc⟩ := hfiled c p hs
  obtain ⟨draws, hdraws⟩ := hdrawn p hp
  have hid : c = generateSessionId draws := by rw [← hc, hdraws]
  have hreq : getSessionIdFromCookie (cookieFor c) = c :=
    getSessionIdFromCookie_cookieFor (hid ▸ notMem_generateSessionId draws)
  let t := ((behind calls).objects p).expiryTime
  refine ⟨cookieFor c, .new false, ⟨t, t, t, t⟩, draws, hreq, ?_⟩
  rcases (behind calls).getSession_cases (cookieFor c) (.new false) ⟨t, t, t, t⟩ draws with
    ⟨q, -, hq, -, hr⟩ | ⟨hnone, -⟩
  · rw [hreq, hs] at hq
    rw [hr]
    exact (Option.some.inj hq).symm
  · rw [hreq] at hnone
    exact absurd (hid ▸ hnone p hs ⟨le_rfl, le_rfl⟩) (ne_nil_generateSessionId draws)

/-- A session that is returned was stored under the id of the cookie, or is new. -/
theorem stored_or_new (m : SessionManager) (req : HttpRequest) (resp : HttpResponse)
    (now : Readings) (draws : Fin 32 → Fin 16) :
    m.storage (getSessionIdFromCookie req) = some (m.getSession req resp now draws).1.1 ∨
      (m.getSession req resp now draws).1.1 = m.allocated := by
  rcases m.getSession_cases req resp now draws with ⟨q, -, hq, -, hr⟩ | ⟨-, _, -, hr⟩
  · exact .inl (by rw [hq, hr])
  · exact .inr (by rw [hr])

/-- **Destroyed sessions are not returned exactly if none is stored.** -/
theorem staysDestroyed_iff_storage (calls : List SessionCall) :
    StaysDestroyed calls ↔
      ∀ c p, Destroyed calls c p → (behind calls).storage c ≠ some p := by
  constructor
  · intro h c p hd hs
    obtain ⟨req, resp, now, draws, hreq, hp⟩ := exists_returned calls hs
    exact (h c p hd req resp now draws hreq).1 hp
  · intro h c p hd req resp now draws hreq
    refine ⟨fun hp => ?_, fun key value hv => data_getSession calls req resp now draws hv⟩
    rcases (behind calls).stored_or_new req resp now draws with hs | hnew
    · rw [hreq, hp] at hs
      exact h c p hd hs
    · rw [hp] at hnew
      exact hd.sessionId.1.ne hnew

/-- A value that is set on a session with a manager stores it. -/
theorem Next.stored_of_setValue {key value : Bytes} (h : Next m (.setValue p key value) m')
    (hp : p < m.allocated) (hm : (m.objects p).sessionManager = true) :
    m'.storage (m.objects p).sessionId = some p := by
  cases h with
  | save =>
    rw [storage_save, objects_modify, if_pos rfl]
    exact if_pos rfl
  | assign _ hnone => exact absurd hm (by simp [hnone])
  | idle hi hidle =>
    obtain rfl := Option.some.inj hi
    obtain ⟨key', hkey⟩ := hidle hp
    cases hkey

/-- What a call saves that writes nothing back has not been destroyed. -/
theorem Saves.not_destroyed (hsave : Saves (behind calls) i p) (hw : WritesNothingBack calls i)
    (h : ∀ c p, Destroyed calls c p → (behind calls).storage c ≠ some p) :
    ¬ Destroyed calls c p := by
  intro hd
  cases hsave with
  | setValue key value hp hm => exact hw p key value rfl hp hm c hd
  | getSession req resp now draws =>
    rcases (behind calls).stored_or_new req resp now draws with hs | hnew
    · obtain ⟨-, hid⟩ := (filed_behind calls).1 _ _ hs
      exact h c _ hd (by rw [← hd.sessionId.2, hid, hs])
    · exact hd.sessionId.1.ne hnew

/-- **In which runs destroyed sessions stay destroyed**: in those in which no value is set on one
of them. -/
theorem staysDestroyed_iff (calls : List SessionCall) :
    (∀ before, before <+: calls → StaysDestroyed before) ↔ Along WritesNothingBack calls := by
  refine along_iff (fun c p hd => absurd hd not_destroyed_nil) fun calls i h => ?_
  rw [staysDestroyed_iff_storage] at h ⊢
  have hnext := next_call i (behind calls)
  rw [behind_concat]
  constructor
  · rintro h' p key value rfl hp hm c hd
    refine h' c p (destroyed_concat.2 (.inl hd)) ?_
    rw [← hd.sessionId.2]
    exact hnext.stored_of_setValue hp hm
  · intro hw c p hd hs
    rcases destroyed_concat.1 hd with hold | ⟨rfl, -⟩
    · rcases hnext.stored hs with hs | ⟨hsave, -⟩
      · exact h c p hold hs
      · exact hsave.not_destroyed hw h hold
    · have hnone : ((behind calls).remove c).storage c = none := by
        rw [storage_remove, if_pos rfl]
      rw [show (call (.destroySession c) (behind calls)).2 = (behind calls).remove c from rfl,
        hnone] at hs
      cases hs

/-- A user logs in and out, and a handler that still holds the session sets a value. -/
def writtenBack : List SessionCall :=
  let draws : Fin 32 → Fin 16 := fun _ => Fin.last 15
  [.getSession .new (.new false) ⟨0, 0, 0, 0⟩ draws,
    .setValue 0 (bytes "user") (bytes "u"),
    .destroySession (generateSessionId draws),
    .setValue 0 (bytes "page") (bytes "p")]

/-- **The session is returned again**, with the user in it. -/
theorem not_staysDestroyed_writtenBack : ¬ StaysDestroyed writtenBack := by
  intro h
  let c := generateSessionId fun _ => Fin.last 15
  have hd : Destroyed writtenBack c 0 :=
    ⟨writtenBack.take 2, writtenBack.drop 3, rfl, Nat.zero_lt_one, rfl⟩
  have hreq : getSessionIdFromCookie (cookieFor c) = c :=
    getSessionIdFromCookie_cookieFor (notMem_generateSessionId _)
  obtain ⟨hne, -⟩ :=
    h c 0 hd (cookieFor c) (.new false) ⟨0, 0, 0, 0⟩ (fun _ => Fin.last 15) hreq
  exact hne (by decide +kernel)

end KamaHttp.SessionManager
