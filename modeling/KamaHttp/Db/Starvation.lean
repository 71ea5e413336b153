import KamaHttp.Db.Wakeups

/-!
# Threads that wait forever

A thread that waits gets a connection when another one puts one back, so it waits forever if no
other thread can: if all connections are lent to threads that wait themselves. It is the only way,
as long as the connector never returns a null pointer.

* `Starved.of_step`: if all connections are lent to threads that wait, they stay so.
* `exists_freed`: a thread that has a connection and does not wait can put it back, and `notify_one`
  may wake any thread that sleeps.
* `can_get_iff`: when a thread that waits can still get a connection.
-/

namespace KamaHttp

open Custody

/-- `sql::Driver::connect` throws or returns a connection. -/
def MySqlDriver.NeverNull {τ : Type*} (D : MySqlDriver τ) : Prop :=
  ∀ host user password t, (D.connect host user password t).1 ≠ .ok none

namespace DbConnection

variable {τ : Type*} {D : MySqlDriver τ} {p : DbParams} {c c' : DbConnection} {t t' : τ}
  {r : Except StdException Unit}

theorem isSome_of_new (hD : D.NeverNull) (h : new D p t = (.ok c, t')) : c.conn.isSome := by
  unfold new at h
  split at h
  · cases h
  · rename_i hc
    exact absurd (congrArg Prod.fst hc) (hD _ _ _ _)
  · split at h <;> cases h
    rfl

theorem reconnect_of_isSome (h : c.conn.isSome) (t : τ) :
    ∃ r t', reconnect D c t = some (r, c, t') := by
  obtain ⟨conn, hconn⟩ := Option.isSome_iff_exists.1 h
  simp only [reconnect, hconn]
  split
  · exact ⟨_, _, rfl⟩
  · exact ⟨_, _, rfl⟩

theorem ping_of_isSome (h : c.conn.isSome) (t : τ) : ∃ b t', ping D c t = some (b, t') := by
  obtain ⟨conn, hconn⟩ := Option.isSome_iff_exists.1 h
  exact ⟨_, _, congrArg (Option.map _) hconn⟩

end DbConnection

/-- Every connection that has been made has a handle. -/
def PoolState.Live {τ : Type*} (s : PoolState τ) : Prop := ∀ c ∈ s.created, c.conn.isSome

namespace DbConnectionPool

variable {τ : Type*} {D : MySqlDriver τ} {s s' : PoolState τ}

theorem live_fill (hD : D.NeverNull) (n : ℕ) (h : s.Live) : (fill D n s).2.Live := by
  induction n generalizing s with
  | zero => exact h
  | succ n ih =>
    rcases hc : createConnection D s with ⟨e | i, s₁⟩
    · rw [fill_of_error hc]
      unfold createConnection at hc
      split at hc <;> cases hc
      exact h
    · rw [fill_of_ok hc]
      unfold createConnection at hc
      split at hc <;> cases hc
      rename_i c t hnew
      refine ih fun c' hc' => ?_
      rcases List.mem_append.1 hc' with hc' | hc'
      · exact h c' hc'
      · exact List.mem_singleton.1 hc' ▸ DbConnection.isSome_of_new hD hnew

theorem live_init (hD : D.NeverNull) (call : InitCall) (h : s.Live) : (init D call s).2.Live := by
  have hfill : (fill D call.poolSize (setParams call.toDbParams s)).2.Live := live_fill hD _ h
  unfold init
  split
  · exact h
  · split <;> rename_i hf <;> rw [hf] at hfill <;> exact hfill

end DbConnectionPool

namespace Borrowers

variable {T τ : Type*} [DecidableEq T] {D : MySqlDriver τ} {s s' : Borrowers T τ} {c : ℕ}

omit [DecidableEq T] in
/-- `ping` returns on a connection with a handle. -/
theorem exists_ping (hs : s.Live) (hc : c < s.created.length) :
    ∃ b driver, s.ping D c = some (b, { s with driver := driver }) := by
  obtain ⟨b, t', hp⟩ := DbConnection.ping_of_isSome (D := D) (hs _ (List.getElem_mem hc)) s.driver
  refine ⟨b, t', ?_⟩
  simp [ping, DbConnectionPool.ping, List.getElem?_eq_getElem hc, hp]

omit [DecidableEq T] in
/-- `reconnect` returns on a connection with a handle, and keeps it. -/
theorem exists_reconnect (hs : s.Live) (hc : c < s.created.length) :
    ∃ r driver, s.reconnect D c = some (r, { s with driver := driver }) := by
  obtain ⟨r, t', hp⟩ :=
    DbConnection.reconnect_of_isSome (D := D) (hs _ (List.getElem_mem hc)) s.driver
  refine ⟨r, t', ?_⟩
  simp [reconnect, DbConnectionPool.reconnect, List.getElem?_eq_getElem hc, hp]

omit [DecidableEq T] in
theorem created_of_reconnect (hs : s.Live) {r : Except StdException Unit × Borrowers T τ}
    (h : s.reconnect D c = some r) : r.2.created = s.created := by
  have hc : c < s.created.length := by
    by_contra hc
    simp [reconnect, DbConnectionPool.reconnect, List.getElem?_eq_none (Nat.not_lt.1 hc)] at h
  obtain ⟨x, driver, hx⟩ := exists_reconnect (D := D) hs hc
  rw [hx, Option.some.injEq] at h
  exact h ▸ rfl

/-- The connections that have been made stay as they are, but for those of a call of `init`. -/
theorem live_of_next (hD : D.NeverNull) {e : PoolEvent T τ} (h : s.next D e = some s')
    (hs : s.Live) : s'.Live := by
  have hkeep {r : Borrowers T τ} (hr : r.created = s.created) : r.Live := by
    intro c hc
    exact hs c (hr ▸ hc)
  cases step_of_next h with
  | server driver => exact hs
  | init call => exact DbConnectionPool.live_init hD call hs
  | acquire hb =>
    refine hkeep ?_
    unfold acquire
    split
    · rfl
    · split <;> rfl
  | ping hb => exact hs
  | alive hb driver => exact hs
  | lost hb driver => exact hs
  | @reconnected t c hb created hcreated driver =>
    simp only [next, hb] at h
    obtain ⟨r, hr, heq⟩ := Option.map_eq_some_iff.1 h
    refine hkeep ?_
    rw [← created_of_reconnect hs hr, ← heq]
    split <;> rfl
  | @failed t c hb created hcreated driver e =>
    simp only [next, hb] at h
    obtain ⟨r, hr, heq⟩ := Option.map_eq_some_iff.1 h
    refine hkeep ?_
    rw [← created_of_reconnect hs hr, ← heq]
    split <;> rfl
  | giveBack hb => exact hs
  | drop hc => exact hs
  | sleep => exact hs
  | snapshot => exact hs
  | done => exact hs
  | check => exact hs
  | checked => exact hs
  | notAlive => exact hs
  | @rechecked c rest hk created hcreated driver =>
    simp only [next, hk] at h
    obtain ⟨r, hr, heq⟩ := Option.map_eq_some_iff.1 h
    refine hkeep ?_
    rw [← created_of_reconnect hs hr, ← heq]

theorem live_of_reaches (hD : D.NeverNull) (h : Reaches (poolSystem D T) Always s) : s.Live := by
  refine h.invariant (I := fun s => s.Live) ?_ fun s e s' hs _ hstep => live_of_next hD hstep hs
  rintro s ⟨driver, rfl⟩
  exact fun c hc => absurd hc List.not_mem_nil

/-! ## Connections that do not come back -/

/-- Every connection is lent to a thread that waits. -/
def Starved (s : Borrowers T τ) : Prop :=
  ∀ c < s.created.length, ∃ u, c ∈ s.loans u ∧ s.borrower u = .waiting

/-- The thread waits, and all connections are lent to threads that wait. -/
structure Stuck (s : Borrowers T τ) (t : T) : Prop where
  kept : AllKept s
  waiting : s.borrower t = .waiting
  initialized : s.pool.initialized = true
  starved : s.Starved

variable {t : T}

omit [DecidableEq T] in
theorem Starved.eq_loan (h : s.Starved) (hkept : AllKept s) {k : Place T} (hc : c ∈ s.custody k) :
    ∃ u, k = .loan u ∧ s.borrower u = .waiting := by
  have hlt : c < s.created.length := hkept.mem k c hc
  obtain ⟨u, hu, hwaiting⟩ := h c hlt
  have hmem : c ∈ s.custody (.loan u) := hu
  exact ⟨u, (hkept.kept c hlt).eq_of_mem hc hmem, hwaiting⟩

omit [DecidableEq T] in
theorem Stuck.queue_eq_nil (h : Stuck s t) : s.pool.connections = [] := by
  refine List.eq_nil_iff_forall_not_mem.2 fun c hc => ?_
  obtain ⟨u, hu, -⟩ := h.starved.eq_loan (k := .queue) h.kept hc
  cases hu

omit [DecidableEq T] in
theorem Stuck.connection_eq_none (h : Stuck s t) (u : T) : (s.borrower u).connection = none := by
  refine Option.eq_none_iff_forall_ne_some.2 fun c hc => ?_
  obtain ⟨v, hv, -⟩ := h.starved.eq_loan (k := .transit u) h.kept (Option.mem_toList.2 hc)
  cases hv

/-- **A thread that is stuck stays stuck**, as long as threads that wait drop nothing. -/
theorem Stuck.step {e : PoolEvent T τ} (h : Stuck s t)
    (hdrop : ∀ u c, e = .drop u c → s.borrower u ≠ .waiting) (hstep : Step D s e s') :
    Stuck s' t := by
  have hkept : AllKept s' := hstep.effect.allKept h.kept
  have hnone {u : T} {x : Borrower} {c : ℕ} (hx : x.connection = some c) (hu : s.borrower u = x) :
      False := by
    have hcontra := h.connection_eq_none u
    rw [hu, hx] at hcontra
    cases hcontra
  cases hstep with
  | server driver => exact ⟨hkept, h.waiting, h.initialized, h.starved⟩
  | init call =>
    have heq : (DbConnectionPool.init D call s.toPoolState).2 = s.toPoolState := by
      rw [DbConnectionPool.init, if_pos h.initialized]
    rw [heq]
    exact h
  | @acquire u hb =>
    have heq : s.acquire u = s.move u .waiting := by
      simp only [acquire, h.queue_eq_nil, h.initialized, if_true]
    rw [heq] at hkept ⊢
    have hwaiting (v : T) (hv : s.borrower v = .waiting) :
        (s.move u .waiting).borrower v = .waiting := by
      by_cases huv : v = u
      · subst huv
        simp [move]
      · simpa [move, huv] using hv
    refine ⟨hkept, hwaiting t h.waiting, h.initialized, fun c hc => ?_⟩
    obtain ⟨v, hv, hvwaiting⟩ := h.starved c hc
    exact ⟨v, hv, hwaiting v hvwaiting⟩
  | ping hb => exact (hnone rfl hb).elim
  | alive hb => exact (hnone rfl hb).elim
  | lost hb => exact (hnone rfl hb).elim
  | reconnected hb => exact (hnone rfl hb).elim
  | failed hb => exact (hnone rfl hb).elim
  | giveBack hb => exact (hnone rfl hb).elim
  | @drop u c hc =>
    obtain ⟨v, hv, hwaiting⟩ := h.starved.eq_loan (k := .loan u) h.kept hc
    cases hv
    exact absurd hwaiting (hdrop _ c rfl)
  | sleep => exact h
  | snapshot => exact ⟨hkept, h.waiting, h.initialized, h.starved⟩
  | done => exact ⟨hkept, h.waiting, h.initialized, h.starved⟩
  | check => exact ⟨hkept, h.waiting, h.initialized, h.starved⟩
  | checked => exact ⟨hkept, h.waiting, h.initialized, h.starved⟩
  | notAlive => exact ⟨hkept, h.waiting, h.initialized, h.starved⟩
  | rechecked _ hcreated _ =>
    exact ⟨hkept, h.waiting, h.initialized, fun c hc => h.starved c (hcreated ▸ hc)⟩

end Borrowers

namespace Waiters

variable {T τ : Type*} [DecidableEq T] {D : MySqlDriver τ} {s s' : Waiters T τ} {t u : T} {c : ℕ}
  {w : WaitEvent T τ} {notified : Option T}

/-- A thread that waits drops no pointer. -/
def Own (s : Waiters T τ) : WaitEvent T τ → Prop
  | .pool (.drop t _) _ => s.borrower t ≠ .waiting
  | _ => True

/-- The steps of the threads that are in `getConnection` or have a pointer: not of the server, of
the thread of the pool, or those with which a thread wakes by itself. -/
def ByThread (s : Waiters T τ) : WaitEvent T τ → Prop
  | .pool (.acquire t) _ => s.borrower t = .waiting
  | .pool (.ping _) _ => True
  | .pool (.pinged _) _ => True
  | .pool (.reconnected _) _ => True
  | .pool (.giveBack _) _ => True
  | .pool (.drop t _) _ => s.borrower t ≠ .waiting
  | _ => False

omit [DecidableEq T] in
theorem own_of_byThread (s : Waiters T τ) (w : WaitEvent T τ) (h : ByThread s w) : Own s w := by
  unfold ByThread at h
  split at h <;> first | exact h | trivial

theorem stuck_of_reaches (h : s.toBorrowers.Stuck t)
    (h' : Reaches ((waitSystem D T).startAt s) Own s') : s'.toBorrowers.Stuck t := by
  refine h'.invariant (I := fun s => s.toBorrowers.Stuck t) ?_ fun s w s' hs hown hstep => ?_
  · rintro s rfl
    exact h
  · rcases next_toBorrowers hstep with heq | ⟨e, notified, rfl, he⟩
    · rwa [heq]
    · refine hs.step (fun u c hdrop => ?_) (Borrowers.step_of_next he)
      subst hdrop
      exact hown

/-! ## Connections that are put back -/

/-- `notify_one` may wake this thread, or none if none sleeps. -/
def MayNotify (asleep : List T) : Option T → Prop
  | none => asleep = []
  | some t => t ∈ asleep

omit [DecidableEq T] in
theorem exists_mayNotify (asleep : List T) : ∃ notified, MayNotify asleep notified := by
  cases asleep with
  | nil => exact ⟨none, rfl⟩
  | cons t asleep => exact ⟨some t, List.mem_cons_self⟩

theorem exists_notifyOne (h : MayNotify s.asleep notified) : ∃ s',
    s.notifyOne notified = some s' ∧ s'.toBorrowers = s.toBorrowers ∧
      s'.woken = s.woken ++ notified.toList := by
  cases notified with
  | none => exact ⟨s, if_pos (List.isEmpty_iff.2 h), rfl, (List.append_nil _).symm⟩
  | some t => exact ⟨s.wake t, if_pos h, rfl, rfl⟩

/-- Steps of the threads lead to a state in which the connection is in the queue, the thread that
was to be notified has been woken, and nothing has happened to the thread `t`. -/
def Frees (D : MySqlDriver τ) (s : Waiters T τ) (t : T) (c : ℕ) (notified : Option T) : Prop :=
  ∃ s', Reaches ((waitSystem D T).startAt s) ByThread s' ∧ c ∈ s'.pool.connections ∧
    s'.woken = s.woken ++ notified.toList ∧ s'.borrower t = s.borrower t

/-- A step of the pool that does not notify, and behind which the same threads wait. -/
theorem next_pool {e : PoolEvent T τ} {b : Borrowers T τ} (he : ∀ t, e ≠ .acquire t)
    (hn : e.notifies = false) (h : s.toBorrowers.next D e = some b) :
    s.next D (.pool e none) = some { s with toBorrowers := b } := by
  have hgo : s.mayGo e = true := by
    cases e <;> first | exact absurd rfl (he _) | rfl
  simp [next, hgo, h, hn, behind_of_ne he]

theorem Frees.of_next {e : PoolEvent T τ} {b : Borrowers T τ} (hg : ByThread s (.pool e none))
    (he : ∀ t, e ≠ .acquire t) (hn : e.notifies = false) (h : s.toBorrowers.next D e = some b)
    (ht : b.borrower t = s.borrower t) (hb : Frees D { s with toBorrowers := b } t c notified) :
    Frees D s t c notified := by
  obtain ⟨s', hreach, hqueue, hwoken, hborrower⟩ := hb
  have hstep : Reaches ((waitSystem D T).startAt s) ByThread { s with toBorrowers := b } :=
    .step (.refl _ _ s) hg (next_pool he hn h)
  exact ⟨s', hstep.trans hreach, hqueue, hwoken, hborrower.trans ht⟩

/-- A step that puts the connection back. -/
theorem Frees.of_putBack {e : PoolEvent T τ} {b : Borrowers T τ}
    (hg : ByThread s (.pool e notified)) (he : ∀ t, e ≠ .acquire t) (hn : e.notifies = true)
    (h : s.toBorrowers.next D e = some b) (hc : c ∈ b.pool.connections)
    (ht : b.borrower t = s.borrower t) (hnotified : MayNotify s.asleep notified) :
    Frees D s t c notified := by
  have hgo : s.mayGo e = true := by
    cases e <;> first | exact absurd rfl (he _) | rfl
  obtain ⟨s', hs', hborrowers, hwoken⟩ :=
    exists_notifyOne (s := { s with toBorrowers := b }) hnotified
  have hstep : s.next D (.pool e notified) = some s' := by
    simp [next, hgo, h, hn, behind_of_ne he, hs']
  refine ⟨s', .step (.refl _ _ s) hg hstep, ?_, hwoken, ?_⟩
  · rw [hborrowers]
    exact hc
  · rw [hborrowers]
    exact ht

section Frees

variable (hut : t ≠ u) (hnotified : MayNotify s.asleep notified)
include hut hnotified

omit hut in
theorem frees_of_loan (hc : c ∈ s.loans u) (hu : s.borrower u ≠ .waiting) :
    Frees D s t c notified :=
  .of_putBack (e := .drop u c) hu nofun rfl (if_pos hc) (List.mem_append_right _ (by simp)) rfl
    hnotified

theorem frees_of_failed {x : StdException} (hu : s.borrower u = .failed c x) :
    Frees D s t c notified := by
  have hnext : s.toBorrowers.next D (.giveBack u) =
      some ((s.push c).move u (.outside (some x))) := by
    rw [Borrowers.next, hu]
  refine .of_putBack (e := .giveBack u) trivial (fun v h => by cases h) rfl hnext ?_ ?_ hnotified
  · exact List.mem_append_right _ (by simp)
  · simp [Borrowers.move, Borrowers.push, hut]

omit hut in
theorem frees_of_lend (driver : τ) :
    Frees D { s with toBorrowers := { s.toBorrowers with driver := driver }.lend u c } t c
      notified := by
  refine frees_of_loan (u := u) hnotified ?_ ?_
  · simp [Borrowers.lend]
  · simp [Borrowers.lend, Borrowers.move]

theorem frees_of_reconnecting (hlive : s.Live) (hc : c < s.created.length)
    (hu : s.borrower u = .reconnecting c) : Frees D s t c notified := by
  obtain ⟨x | ⟨⟩, driver, hr⟩ := Borrowers.exists_reconnect (D := D) hlive hc
  · refine .of_next (e := .reconnected u)
      (b := { s.toBorrowers with driver := driver }.move u (.failed c x)) trivial nofun rfl ?_ ?_ ?_
    · simp only [Borrowers.next, hu, hr, Option.map_some]
    · simp [Borrowers.move, hut]
    · exact frees_of_failed hut hnotified (x := x) (by simp [Borrowers.move])
  · refine .of_next (e := .reconnected u) (b := { s.toBorrowers with driver := driver }.lend u c)
      trivial nofun rfl ?_ ?_ ?_
    · simp only [Borrowers.next, hu, hr, Option.map_some]
    · simp [Borrowers.lend, Borrowers.move, hut]
    · exact frees_of_lend hnotified driver

theorem frees_of_pinging (hlive : s.Live) (hc : c < s.created.length)
    (hu : s.borrower u = .pinging c) : Frees D s t c notified := by
  obtain ⟨alive, driver, hp⟩ := Borrowers.exists_ping (D := D) hlive hc
  cases alive with
  | true =>
    refine .of_next (e := .pinged u) (b := { s.toBorrowers with driver := driver }.lend u c)
      trivial nofun rfl ?_ ?_ ?_
    · simp only [Borrowers.next, hu, hp, Option.map_some, if_true]
    · simp [Borrowers.lend, Borrowers.move, hut]
    · exact frees_of_lend hnotified driver
  | false =>
    refine .of_next (e := .pinged u)
      (b := { s.toBorrowers with driver := driver }.move u (.reconnecting c)) trivial nofun rfl ?_
      ?_ ?_
    · simp only [Borrowers.next, hu, hp, Option.map_some, Bool.false_eq_true, if_false]
    · simp [Borrowers.move, hut]
    · exact frees_of_reconnecting hut hnotified hlive hc (by simp [Borrowers.move])

/-- **A thread that has taken a connection puts it back**, if nothing else happens. -/
theorem exists_freed (hlive : s.Live) (hc : c < s.created.length)
    (hu : (s.borrower u).connection = some c) : Frees D s t c notified := by
  rcases hb : s.borrower u with thrown | _ | c' | c' | c' | ⟨c', x⟩ <;> rw [hb] at hu <;> cases hu
  · refine .of_next (e := .ping u) (b := s.move u (.pinging c)) trivial nofun rfl ?_ ?_ ?_
    · simp only [Borrowers.next, hb]
    · simp [Borrowers.move, hut]
    · exact frees_of_pinging hut hnotified hlive hc (by simp [Borrowers.move])
  · exact frees_of_pinging hut hnotified hlive hc hb
  · exact frees_of_reconnecting hut hnotified hlive hc hb
  · exact frees_of_failed hut hnotified hb

end Frees

/-! ## Threads that get a connection -/

/-- Steps of the threads lead to a state in which the thread has taken a connection. -/
def Gets (D : MySqlDriver τ) (s : Waiters T τ) (t : T) : Prop :=
  ∃ s' c, Reaches ((waitSystem D T).startAt s) ByThread s' ∧ s'.borrower t = .taken c

theorem Gets.of_reaches (h : Reaches ((waitSystem D T).startAt s) ByThread s') (h' : Gets D s' t) :
    Gets D s t := by
  obtain ⟨s'', c, hreach, hc⟩ := h'
  exact ⟨s'', c, h.trans hreach, hc⟩

/-- A thread that waits and has been woken takes the first connection of the queue. -/
theorem next_acquire (ht : s.borrower t = .waiting) (hw : t ∈ s.woken) {rest : List ℕ}
    (hq : s.pool.connections = c :: rest) :
    ∃ s', s.next D (.pool (.acquire t) none) = some s' ∧ s'.borrower t = .taken c ∧
      s'.asleep = s.asleep ∧ s'.created = s.created ∧
      ∀ v, v ≠ t → s'.borrower v = s.borrower v := by
  have hb : (s.borrower t).connection = none := by rw [ht]; rfl
  have hacquire : s.acquire t = { s.move t (.taken c) with
      toPoolState := DbConnectionPool.pop rest s.toPoolState } := by
    simp only [Borrowers.acquire, hq]
  have hnext : s.next D (.pool (.acquire t) none) =
      some (s.behind (s.acquire t) (.acquire t)) := by
    simp [next, mayGo, Borrowers.next, hw, hb, PoolEvent.notifies]
  refine ⟨_, hnext, ?_, ?_, ?_, fun v hv => ?_⟩
  · simp [behind_acquire, hacquire, Borrowers.move]
  · simp [behind_acquire, hacquire, Borrowers.move]
  · rw [behind_acquire, hacquire]
    rfl
  · simp [behind_acquire, hacquire, Borrowers.move, hv]

theorem gets_of_woken (ht : s.borrower t = .waiting) (hw : t ∈ s.woken)
    (hq : c ∈ s.pool.connections) : Gets D s t := by
  obtain ⟨c', rest, hqueue⟩ := List.exists_cons_of_ne_nil (List.ne_nil_of_mem hq)
  obtain ⟨s', hnext, htaken, -⟩ := next_acquire (D := D) ht hw hqueue
  exact ⟨s', c', .step (e := .pool (.acquire t) none) (.refl _ _ s) ht hnext, htaken⟩

theorem Gets.of_frees (h : Frees D s t c notified) (ht : s.borrower t = .waiting)
    (hw : t ∈ s.woken ++ notified.toList) : Gets D s t := by
  obtain ⟨s', hreach, hqueue, hwoken, hborrower⟩ := h
  exact .of_reaches hreach (gets_of_woken (hborrower.trans ht) (hwoken ▸ hw) hqueue)

omit [DecidableEq T] in
/-- A thread that waits can be the next one to be woken, if it has not been. -/
theorem Attended.exists_mayNotify (h : Attended s) (ht : s.borrower t = .waiting) :
    ∃ notified, MayNotify s.asleep notified ∧ t ∈ s.woken ++ notified.toList := by
  rcases List.mem_append.1 ((h.waiting t).1 ht) with hasleep | hwoken
  · exact ⟨some t, hasleep, by simp⟩
  · obtain ⟨notified, hn⟩ := Waiters.exists_mayNotify s.asleep
    exact ⟨notified, hn, List.mem_append_left _ hwoken⟩

/-- If a thread sleeps behind a queue that is not empty, another one has been woken, which takes a
connection and puts it back. -/
theorem gets_of_asleep (hlive : s.Live) (hkept : Borrowers.AllKept s.toBorrowers) (h : Attended s)
    (ht : t ∈ s.asleep) (hq : c ∈ s.pool.connections) : Gets D s t := by
  obtain ⟨c', rest, hqueue⟩ := List.exists_cons_of_ne_nil (List.ne_nil_of_mem hq)
  have henough := h.enough (asleep_ne_nil ht)
  rw [hqueue, List.length_cons] at henough
  obtain ⟨u, hu⟩ : ∃ u, u ∈ s.woken := List.exists_mem_of_length_pos (by omega)
  have hut : t ≠ u := fun heq =>
    (List.nodup_append.1 h.nodup).2.2 t ht u hu heq
  have hwaiting (v : T) (hv : v ∈ s.asleep ++ s.woken) : s.borrower v = .waiting :=
    (h.waiting v).2 hv
  obtain ⟨s₁, hnext, htaken, hasleep, hcreated, hborrower⟩ :=
    next_acquire (D := D) (hwaiting u (List.mem_append_right _ hu)) hu hqueue
  have hstep : Reaches ((waitSystem D T).startAt s) ByThread s₁ :=
    .step (e := .pool (.acquire u) none) (.refl _ _ s)
      (hwaiting u (List.mem_append_right _ hu)) hnext
  have hc' : c' < s.created.length :=
    hkept.mem .queue c' (by rw [Borrowers.custody_queue, hqueue]; exact List.mem_cons_self)
  have hlive₁ : s₁.Live := fun x hx => hlive x (hcreated ▸ hx)
  have hconn : (s₁.borrower u).connection = some c' := by rw [htaken]; rfl
  have hmay : MayNotify s₁.asleep (some t) := by
    rw [hasleep]
    exact ht
  have hfrees : Frees D s₁ t c' (some t) :=
    exists_freed hut hmay hlive₁ (hcreated ▸ hc') hconn
  have ht₁ : s₁.borrower t = .waiting :=
    (hborrower t hut).trans (hwaiting t (List.mem_append_left _ ht))
  exact .of_reaches hstep (.of_frees hfrees ht₁ (by simp))

/-- **A thread that waits can get a connection**, by steps of the threads alone, if not all
connections are lent to threads that wait. -/
theorem gets_of_not_starved (hD : D.NeverNull) {G : Waiters T τ → WaitEvent T τ → Prop}
    (h : Reaches (waitSystem D T) G s) (ht : s.borrower t = .waiting)
    (hs : ¬ s.toBorrowers.Starved) : Gets D s t := by
  have hpool := reaches_toBorrowers h
  have hkept := Borrowers.allKept_of_reaches hpool
  have hlive := Borrowers.live_of_reaches hD hpool
  have hattended := attended_of_reaches h
  simp only [Borrowers.Starved, not_forall, not_exists, not_and] at hs
  obtain ⟨c, hc, hlent⟩ := hs
  obtain ⟨notified, hmay, hwoken⟩ := hattended.exists_mayNotify ht
  obtain ⟨_ | u | u, hmem⟩ := (hkept.kept c hc).exists_mem
  · -- the connection is in the queue
    rcases List.mem_append.1 ((hattended.waiting t).1 ht) with hasleep | hwoken
    · exact gets_of_asleep hlive hkept hattended hasleep hmem
    · exact gets_of_woken ht hwoken hmem
  · -- it is in a call of another thread
    have hconn : (s.borrower u).connection = some c := Option.mem_toList.1 hmem
    have hut : t ≠ u := by
      rintro rfl
      rw [ht] at hconn
      cases hconn
    exact .of_frees (exists_freed hut hmay hlive hc hconn) ht hwoken
  · -- it is lent to a thread that does not wait
    exact .of_frees (frees_of_loan hmay hmem (hlent u hmem)) ht hwoken

/-- **When a thread that waits can still get a connection**: as long as threads that wait drop no
pointers, exactly if not all connections are lent to threads that wait. -/
theorem can_get_iff (hD : D.NeverNull) (h : Reaches (waitSystem D T) Always s)
    (ht : s.borrower t = .waiting) :
    (∃ s' c, Reaches ((waitSystem D T).startAt s) Own s' ∧ s'.borrower t = .taken c) ↔
      ∃ c < s.created.length, ∀ u, c ∈ s.loans u → s.borrower u ≠ .waiting := by
  have hiff : (∃ c < s.created.length, ∀ u, c ∈ s.loans u → s.borrower u ≠ .waiting) ↔
      ¬ s.toBorrowers.Starved := by
    simp only [Borrowers.Starved, not_forall, not_exists, not_and, exists_prop]
  rw [hiff]
  constructor
  · rintro ⟨s', c, hreach, hc⟩ hstarved
    have hkept := Borrowers.allKept_of_reaches (reaches_toBorrowers h)
    have hinit := (attended_of_reaches h).initialized t ht
    have hstuck := stuck_of_reaches ⟨hkept, ht, hinit, hstarved⟩ hreach
    rw [hstuck.waiting] at hc
    cases hc
  · intro hs
    obtain ⟨s', c, hreach, hc⟩ := gets_of_not_starved hD h ht hs
    exact ⟨s', c, hreach.mono own_of_byThread, hc⟩

theorem neverNull_refusing : DbConnectionPool.refusing.NeverNull := by
  rintro host user password (_ | ⟨_ | _, t⟩) h <;> cases h

/-- A thread takes both connections of a pool, and calls `getConnection` once more. -/
def takingAll : List (WaitEvent Unit (List Bool)) :=
  [.init (DbConnectionPool.callAs (bytes "app")), .acquire (), .ping (), .pinged (), .acquire (),
    .ping (), .pinged (), .acquire ()].map fun e => .pool e none

theorem can_get_iff_takingAll : ∃ s : Waiters Unit (List Bool),
    Reaches (waitSystem DbConnectionPool.refusing Unit) Always s ∧ s.borrower () = .waiting ∧
      ¬ ∃ s' c, Reaches ((waitSystem DbConnectionPool.refusing Unit).startAt s) Own s' ∧
        s'.borrower () = .taken c := by
  have hrun : takingAll.foldlM (next DbConnectionPool.refusing) (new []) = some _ := rfl
  have hreach : Reaches (waitSystem DbConnectionPool.refusing Unit) Always _ :=
    .of_foldlM (fun _ _ _ h => ⟨trivial, h⟩) (.init ⟨[], rfl⟩) hrun
  refine ⟨_, hreach, rfl, fun h => ?_⟩
  obtain ⟨c, hc, hlent⟩ := (can_get_iff neverNull_refusing hreach rfl).1 h
  have hlent₀ : c ∉ [1, 0] := fun hmem => hlent () hmem rfl
  have hlt : c < 2 := hc
  simp only [List.mem_cons, List.not_mem_nil, or_false, not_or] at hlent₀
  omega

end Waiters

end KamaHttp
