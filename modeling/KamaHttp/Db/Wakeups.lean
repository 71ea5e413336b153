import KamaHttp.Db.Borrowers

/-!
# Threads that wait for a connection

The condition variable of the pool. A thread in `cv_.wait` sleeps until it is woken, and then goes
for the lock again; `notify_one`, behind every connection that is put back, wakes one of the threads
that sleep, whichever it is, and a thread may also wake by itself.

* `waitStep_of_next`: what a step does with the threads that wait.
* `reaches_toBorrowers`: but for the condition variable, the runs are those of the pool.
* `attended_of_reaches`: in every run, if a thread sleeps then as many have been woken as there are
  connections in the queue.
-/

namespace KamaHttp

open Custody

/-- Behind the step, `notify_one` is called. -/
def PoolEvent.notifies {T τ : Type*} : PoolEvent T τ → Bool
  | .giveBack _ => true
  | .drop _ _ => true
  | _ => false

/-- The threads in `cv_.wait`: those that sleep, and those that have been woken. -/
structure Waiters (T τ : Type*) extends Borrowers T τ where
  asleep : List T
  woken : List T

/-- The steps of the pool, with the thread that is notified. -/
inductive WaitEvent (T τ : Type*)
  | pool (e : PoolEvent T τ) (notified : Option T)
  /-- A thread wakes by itself. -/
  | wake (t : T)

namespace Waiters

variable {T τ : Type*} [DecidableEq T]

omit [DecidableEq T] in
/-- The pool before any call. -/
def new (driver : τ) : Waiters T τ := ⟨Borrowers.new driver, [], []⟩

def wake (s : Waiters T τ) (t : T) : Waiters T τ :=
  { s with asleep := s.asleep.erase t, woken := s.woken ++ [t] }

/-- `cv_.notify_one`, with the thread that it wakes. -/
def notifyOne (s : Waiters T τ) : Option T → Option (Waiters T τ)
  | none => if s.asleep.isEmpty then some s else none
  | some t => if t ∈ s.asleep then some (s.wake t) else none

/-- A thread that sleeps does not go for the lock. -/
def mayGo (s : Waiters T τ) : PoolEvent T τ → Bool
  | .acquire t => s.borrower t ≠ .waiting || t ∈ s.woken
  | _ => true

/-- The threads that wait, behind a step of the pool: one that finds the queue empty sleeps. -/
def behind (s : Waiters T τ) (b : Borrowers T τ) : PoolEvent T τ → Waiters T τ
  | .acquire t =>
    ⟨b, if b.borrower t = .waiting then s.asleep ++ [t] else s.asleep, s.woken.erase t⟩
  | _ => { s with toBorrowers := b }

/-- What a step leads to, if it can happen. -/
def next (D : MySqlDriver τ) (s : Waiters T τ) : WaitEvent T τ → Option (Waiters T τ)
  | .wake t => if t ∈ s.asleep then some (s.wake t) else none
  | .pool e notified =>
    if s.mayGo e then
      (s.toBorrowers.next D e).bind fun b =>
        if e.notifies then (s.behind b e).notifyOne notified
        else if notified.isNone then some (s.behind b e) else none
    else none

/-- The runs of the threads, of the thread of the pool and of the condition variable. -/
def waitSystem (D : MySqlDriver τ) (T : Type*) [DecidableEq T] :
    System (Waiters T τ) (WaitEvent T τ) where
  init s := ∃ driver, s = new driver
  step s e s' := s.next D e = some s'

/-! ## What a step leads to -/

/-- A step behind which the same threads wait and the same connections are in the queue. A pool that
has not been initialised may get new ones. -/
structure Undisturbed (s s' : Borrowers T τ) : Prop where
  waiting : ∀ t, s'.borrower t = .waiting ↔ s.borrower t = .waiting
  initialized : s.pool.initialized = true → s'.pool.initialized = true
  queue : s.pool.initialized = true → s'.pool.connections = s.pool.connections

/-- A step that puts one connection back. -/
structure PutsBack (s s' : Borrowers T τ) : Prop where
  waiting : ∀ t, s'.borrower t = .waiting ↔ s.borrower t = .waiting
  initialized : s'.pool.initialized = s.pool.initialized
  queue : ∃ c, s'.pool.connections = s.pool.connections ++ [c]

/-- What a step can lead to. -/
inductive WaitStep (s : Waiters T τ) : Waiters T τ → Prop
  | wake {t : T} (ht : t ∈ s.asleep) : WaitStep s (s.wake t)
  | acquire {t : T} (hb : (s.borrower t).connection = none)
      (hw : s.borrower t = .waiting → t ∈ s.woken) :
      WaitStep s (s.behind (s.toBorrowers.acquire t) (.acquire t))
  | putBack {b : Borrowers T τ} (hb : PutsBack s.toBorrowers b) {notified : Option T}
      {s' : Waiters T τ} (hn : { s with toBorrowers := b }.notifyOne notified = some s') :
      WaitStep s s'
  | other {b : Borrowers T τ} (hb : Undisturbed s.toBorrowers b) :
      WaitStep s { s with toBorrowers := b }

variable {D : MySqlDriver τ} {s s' : Waiters T τ} {b b' : Borrowers T τ} {t : T} {c : ℕ}
  {e : PoolEvent T τ} {notified : Option T}

theorem waiting_move {x : Borrower} (hb : b.borrower t ≠ .waiting) (hx : x ≠ .waiting) (u : T) :
    (b.move t x).borrower u = .waiting ↔ b.borrower u = .waiting := by
  by_cases hu : u = t
  · subst hu
    simp [Borrowers.move, hb, hx]
  · simp [Borrowers.move, hu]

theorem undisturbed_move {x : Borrower} (hb : b.borrower t ≠ .waiting) (hx : x ≠ .waiting)
    (created : List DbConnection) (driver : τ) :
    Undisturbed b ({ b with created := created, driver := driver }.move t x) :=
  ⟨waiting_move (b := { b with created := created, driver := driver }) hb hx, fun h => h,
    fun _ => rfl⟩

theorem undisturbed_lend (hb : b.borrower t ≠ .waiting) (created : List DbConnection)
    (driver : τ) : Undisturbed b ({ b with created := created, driver := driver }.lend t c) :=
  ⟨waiting_move (b := { b with created := created, driver := driver }) hb nofun, fun h => h,
    fun _ => rfl⟩

omit [DecidableEq T] in
theorem undisturbed_init (call : InitCall) :
    Undisturbed b { b with toPoolState := (DbConnectionPool.init D call b.toPoolState).2 } := by
  have hinit (h : b.pool.initialized = true) :
      (DbConnectionPool.init D call b.toPoolState).2 = b.toPoolState := by
    rw [DbConnectionPool.init, if_pos h]
  refine ⟨fun t => Iff.rfl, fun h => ?_, fun h => ?_⟩
  · show (DbConnectionPool.init D call b.toPoolState).2.pool.initialized = true
    rw [hinit h, h]
  · show (DbConnectionPool.init D call b.toPoolState).2.pool.connections = _
    rw [hinit h]

/-- **What a step of the pool does to the threads that wait**, by whether it notifies. -/
theorem putsBack_or_undisturbed (h : b.next D e = some b') (he : ∀ t, e ≠ .acquire t) :
    e.notifies = true ∧ PutsBack b b' ∨ e.notifies = false ∧ Undisturbed b b' := by
  cases Borrowers.step_of_next h with
  | server driver => exact .inr ⟨rfl, fun _ => Iff.rfl, fun h => h, fun _ => rfl⟩
  | init call => exact .inr ⟨rfl, undisturbed_init call⟩
  | acquire hb => exact absurd rfl (he _)
  | @ping t c hb =>
    exact .inr ⟨rfl, undisturbed_move (t := t) (x := .pinging c) (by simp [hb]) nofun _ _⟩
  | alive hb driver => exact .inr ⟨rfl, undisturbed_lend (by simp [hb]) b.created driver⟩
  | @lost t c hb driver =>
    exact .inr ⟨rfl, undisturbed_move (t := t) (x := .reconnecting c) (by simp [hb]) nofun _ _⟩
  | reconnected hb _ driver => exact .inr ⟨rfl, undisturbed_lend (by simp [hb]) _ driver⟩
  | @failed t c hb _ _ driver e =>
    exact .inr ⟨rfl, undisturbed_move (t := t) (x := .failed c e) (by simp [hb]) nofun _ _⟩
  | @giveBack t c e hb =>
    exact .inl ⟨rfl, waiting_move (b := b.push c) (by simp [Borrowers.push, hb]) nofun, rfl, c,
      rfl⟩
  | @drop t c hc => exact .inl ⟨rfl, fun _ => Iff.rfl, rfl, c, rfl⟩
  | sleep => exact .inr ⟨rfl, fun _ => Iff.rfl, fun h => h, fun _ => rfl⟩
  | snapshot => exact .inr ⟨rfl, fun _ => Iff.rfl, fun h => h, fun _ => rfl⟩
  | done => exact .inr ⟨rfl, fun _ => Iff.rfl, fun h => h, fun _ => rfl⟩
  | check => exact .inr ⟨rfl, fun _ => Iff.rfl, fun h => h, fun _ => rfl⟩
  | checked => exact .inr ⟨rfl, fun _ => Iff.rfl, fun h => h, fun _ => rfl⟩
  | notAlive => exact .inr ⟨rfl, fun _ => Iff.rfl, fun h => h, fun _ => rfl⟩
  | rechecked => exact .inr ⟨rfl, fun _ => Iff.rfl, fun h => h, fun _ => rfl⟩

theorem behind_acquire (s : Waiters T τ) (b : Borrowers T τ) (t : T) :
    s.behind b (.acquire t) =
      ⟨b, if b.borrower t = .waiting then s.asleep ++ [t] else s.asleep, s.woken.erase t⟩ := rfl

theorem behind_of_ne (he : ∀ t, e ≠ .acquire t) : s.behind b e = { s with toBorrowers := b } := by
  unfold behind
  split
  · exact absurd rfl (he _)
  · rfl

/-- **What a step leads to.** -/
theorem waitStep_of_next {w : WaitEvent T τ} (h : s.next D w = some s') : WaitStep s s' := by
  cases w with
  | wake t =>
    obtain ⟨ht, h⟩ := Option.ite_none_right_eq_some.1 h
    exact Option.some.inj h ▸ .wake ht
  | pool e notified =>
    obtain ⟨hgo, h⟩ := Option.ite_none_right_eq_some.1 h
    obtain ⟨b, hb, h⟩ := Option.bind_eq_some_iff.1 h
    by_cases he : ∃ t, e = .acquire t
    · obtain ⟨t, rfl⟩ := he
      obtain ⟨hconn, hb⟩ := Option.ite_none_right_eq_some.1 hb
      obtain ⟨-, h⟩ := Option.ite_none_right_eq_some.1 h
      rw [← Option.some.inj h, ← Option.some.inj hb]
      exact .acquire hconn fun hw => by simpa [mayGo, hw] using hgo
    · have hne : ∀ t, e ≠ .acquire t := fun t ht => he ⟨t, ht⟩
      rw [behind_of_ne hne] at h
      rcases putsBack_or_undisturbed hb hne with ⟨hn, hput⟩ | ⟨hn, hother⟩
      · rw [hn, if_pos rfl] at h
        exact .putBack hput h
      · rw [hn, if_neg Bool.false_ne_true] at h
        obtain ⟨-, h⟩ := Option.ite_none_right_eq_some.1 h
        exact Option.some.inj h ▸ .other hother

/-! ## The runs of the pool -/

theorem toBorrowers_of_notifyOne (h : s.notifyOne notified = some s') :
    s'.toBorrowers = s.toBorrowers := by
  cases notified with
  | none =>
    obtain ⟨-, h⟩ := Option.ite_none_right_eq_some.1 h
    exact Option.some.inj h ▸ rfl
  | some t =>
    obtain ⟨-, h⟩ := Option.ite_none_right_eq_some.1 h
    exact Option.some.inj h ▸ rfl

theorem behind_toBorrowers (s : Waiters T τ) (b : Borrowers T τ) (e : PoolEvent T τ) :
    (s.behind b e).toBorrowers = b := by
  unfold behind
  split <;> rfl

/-- A step of the pool, or none. -/
theorem next_toBorrowers {w : WaitEvent T τ} (h : s.next D w = some s') :
    s'.toBorrowers = s.toBorrowers ∨
      ∃ e notified, w = .pool e notified ∧ s.toBorrowers.next D e = some s'.toBorrowers := by
  cases w with
  | wake t =>
    obtain ⟨-, h⟩ := Option.ite_none_right_eq_some.1 h
    exact .inl (Option.some.inj h ▸ rfl)
  | pool e notified =>
    obtain ⟨-, h⟩ := Option.ite_none_right_eq_some.1 h
    obtain ⟨b, hb, h⟩ := Option.bind_eq_some_iff.1 h
    refine .inr ⟨e, notified, rfl, ?_⟩
    rw [hb, Option.some.injEq]
    split at h
    · rw [toBorrowers_of_notifyOne h, behind_toBorrowers]
    · obtain ⟨-, h⟩ := Option.ite_none_right_eq_some.1 h
      rw [← Option.some.inj h, behind_toBorrowers]

/-- **But for the condition variable, the runs are those of the pool.** -/
theorem reaches_toBorrowers {G : Waiters T τ → WaitEvent T τ → Prop}
    (h : Reaches (waitSystem D T) G s) :
    Reaches (Borrowers.poolSystem D T) Always s.toBorrowers := by
  refine h.invariant (I := fun s => Reaches (Borrowers.poolSystem D T) Always s.toBorrowers)
    ?_ fun s w s' hs _ hstep => ?_
  · rintro s ⟨driver, rfl⟩
    exact .init ⟨driver, rfl⟩
  · rcases next_toBorrowers hstep with heq | ⟨e, -, -, he⟩
    · rwa [heq]
    · exact hs.step trivial he

/-! ## No wake-up is lost -/

/-- Every thread that waits sleeps or has been woken, and not both; and if a thread sleeps, then as
many have been woken as there are connections in the queue. -/
structure Attended (s : Waiters T τ) : Prop where
  nodup : (s.asleep ++ s.woken).Nodup
  waiting : ∀ t, s.borrower t = .waiting ↔ t ∈ s.asleep ++ s.woken
  initialized : ∀ t, s.borrower t = .waiting → s.pool.initialized = true
  enough : s.asleep ≠ [] → s.pool.connections.length ≤ s.woken.length

omit [DecidableEq T] in
theorem attended_new (driver : τ) : Attended (new driver : Waiters T τ) where
  nodup := .nil
  waiting _ := iff_of_false nofun List.not_mem_nil
  initialized _ h := by cases h
  enough h := absurd rfl h

theorem wake_perm (ht : t ∈ s.asleep) :
    ((s.wake t).asleep ++ (s.wake t).woken).Perm (s.asleep ++ s.woken) := by
  have h : (s.asleep ++ s.woken).Perm (t :: (s.asleep.erase t ++ s.woken)) :=
    (List.perm_cons_erase ht).append_right s.woken
  refine (List.Perm.trans ?_ h.symm)
  show (s.asleep.erase t ++ (s.woken ++ [t])).Perm _
  rw [← List.append_assoc]
  exact List.perm_append_singleton t _

omit [DecidableEq T] in
theorem asleep_ne_nil (ht : t ∈ s.asleep) : s.asleep ≠ [] := List.ne_nil_of_mem ht

omit [DecidableEq T] in
theorem Attended.initialized_of_asleep (h : Attended s) (ha : s.asleep ≠ []) :
    s.pool.initialized = true := by
  obtain ⟨t, ht⟩ := List.exists_mem_of_ne_nil _ ha
  exact h.initialized t ((h.waiting t).2 (List.mem_append_left _ ht))

theorem Attended.wake (h : Attended s) (ht : t ∈ s.asleep) : Attended (s.wake t) where
  nodup := (wake_perm ht).nodup_iff.2 h.nodup
  waiting u := (h.waiting u).trans (wake_perm ht).mem_iff.symm
  initialized := h.initialized
  enough _ := (h.enough (asleep_ne_nil ht)).trans (by simp [Waiters.wake])

omit [DecidableEq T] in
theorem Attended.other (h : Attended s) (hb : Undisturbed s.toBorrowers b) :
    Attended { s with toBorrowers := b } where
  nodup := h.nodup
  waiting u := (hb.waiting u).trans (h.waiting u)
  initialized u hu := hb.initialized (h.initialized u ((hb.waiting u).1 hu))
  enough ha := by
    show b.pool.connections.length ≤ _
    rw [hb.queue (h.initialized_of_asleep ha)]
    exact h.enough ha

/-- One connection more, and one thread that is woken for it. -/
theorem Attended.putBack (h : Attended s) (hb : PutsBack s.toBorrowers b)
    (hn : { s with toBorrowers := b }.notifyOne notified = some s') : Attended s' := by
  obtain ⟨c, hc⟩ := hb.queue
  have hlength : b.pool.connections.length = s.pool.connections.length + 1 := by
    rw [hc, List.length_append, List.length_singleton]
  cases notified with
  | none =>
    obtain ⟨hnil, hn⟩ := Option.ite_none_right_eq_some.1 hn
    have hnil : s.asleep = [] := List.isEmpty_iff.1 hnil
    rw [← Option.some.inj hn]
    exact ⟨h.nodup, fun u => (hb.waiting u).trans (h.waiting u),
      fun u hu => hb.initialized.trans (h.initialized u ((hb.waiting u).1 hu)),
      fun ha => absurd hnil ha⟩
  | some t =>
    obtain ⟨ht, hn⟩ := Option.ite_none_right_eq_some.1 hn
    have ht : t ∈ s.asleep := ht
    rw [← Option.some.inj hn]
    refine ⟨(wake_perm ht).nodup_iff.2 h.nodup, fun u => ?_, fun u hu => ?_, fun _ => ?_⟩
    · exact (hb.waiting u).trans ((h.waiting u).trans (wake_perm ht).mem_iff.symm)
    · exact hb.initialized.trans (h.initialized u ((hb.waiting u).1 hu))
    · have henough := h.enough (asleep_ne_nil ht)
      show b.pool.connections.length ≤ (s.woken ++ [t]).length
      rw [hlength, List.length_append, List.length_singleton]
      omega

omit [DecidableEq T] in
theorem Attended.notMem_asleep (h : Attended s) (hw : s.borrower t = .waiting → t ∈ s.woken) :
    t ∉ s.asleep := by
  intro ht
  have hwoken : t ∈ s.woken := hw ((h.waiting t).2 (List.mem_append_left _ ht))
  exact (List.nodup_append.1 h.nodup).2.2 t ht t hwoken rfl

theorem Attended.mem_erase (h : Attended s) {u : T} :
    u ∈ s.woken.erase t ↔ u ≠ t ∧ u ∈ s.woken :=
  (List.nodup_append.1 h.nodup).2.1.mem_erase_iff

/-- A thread that does not sleep stops waiting, if it has waited. -/
theorem Attended.leave (h : Attended s) (ht : t ∉ s.asleep) {x : Borrower} (hx : x ≠ .waiting)
    {p : PoolState τ} (hinit : p.pool.initialized = s.pool.initialized)
    (hqueue : s.asleep ≠ [] → p.pool.connections.length ≤ (s.woken.erase t).length) :
    Attended ⟨{ s.toBorrowers.move t x with toPoolState := p }, s.asleep, s.woken.erase t⟩ where
  nodup := h.nodup.sublist ((List.Sublist.refl _).append List.erase_sublist)
  waiting u := by
    rw [List.mem_append, h.mem_erase]
    by_cases hu : u = t
    · subst hu
      simp [Borrowers.move, hx, ht]
    · simpa [Borrowers.move, hu] using h.waiting u
  initialized u hu := by
    refine hinit.trans (h.initialized u ?_)
    by_cases hut : u = t
    · subst hut
      exact absurd hu (by simpa [Borrowers.move] using hx)
    · simpa [Borrowers.move, hut] using hu
  enough := hqueue

/-- A thread that does not sleep finds the queue empty. -/
theorem Attended.sleep (h : Attended s) (ht : t ∉ s.asleep)
    (hqueue : s.pool.connections = []) (hinit : s.pool.initialized = true) :
    Attended ⟨s.toBorrowers.move t .waiting, s.asleep ++ [t], s.woken.erase t⟩ where
  nodup := by
    have hrest : (s.asleep ++ s.woken.erase t).Nodup :=
      h.nodup.sublist ((List.Sublist.refl _).append List.erase_sublist)
    rw [List.append_assoc, List.singleton_append, List.nodup_middle]
    exact List.nodup_cons.2 ⟨by simp [ht, h.mem_erase], hrest⟩
  waiting u := by
    rw [List.mem_append, h.mem_erase, List.mem_append, List.mem_singleton]
    by_cases hu : u = t
    · subst hu
      simp [Borrowers.move]
    · simpa [Borrowers.move, hu] using h.waiting u
  initialized _ _ := hinit
  enough _ := by
    show s.pool.connections.length ≤ _
    rw [hqueue]
    exact Nat.zero_le _

/-- A thread that goes for the lock takes a connection, sleeps, or throws. -/
theorem Attended.acquire (h : Attended s) (hw : s.borrower t = .waiting → t ∈ s.woken) :
    Attended (s.behind (s.toBorrowers.acquire t) (.acquire t)) := by
  have ht := h.notMem_asleep hw
  rw [behind_acquire]
  unfold Borrowers.acquire
  split
  · rename_i c rest hqueue
    have hmoved : (s.toBorrowers.move t (.taken c)).borrower t ≠ .waiting := by
      simp [Borrowers.move]
    dsimp only
    rw [if_neg hmoved]
    refine h.leave ht (by simp) rfl fun ha => ?_
    have henough := h.enough ha
    rw [hqueue, List.length_cons] at henough
    have hle : s.woken.length - 1 ≤ (s.woken.erase t).length := List.le_length_erase
    show rest.length ≤ _
    omega
  · rename_i hqueue
    split
    · rename_i hinit
      have hmoved : (s.toBorrowers.move t .waiting).borrower t = .waiting := by
        simp [Borrowers.move]
      rw [if_pos hmoved]
      exact h.sleep ht hqueue hinit
    · rename_i hinit
      have hmoved :
          (s.toBorrowers.move t (.outside (some DbConnectionPool.notInitialized))).borrower t ≠
            .waiting := by
        simp [Borrowers.move]
      rw [if_neg hmoved]
      exact h.leave ht (by simp) rfl fun ha => absurd (h.initialized_of_asleep ha) hinit

/-- **What a step keeps.** -/
theorem WaitStep.attended (hstep : WaitStep s s') (h : Attended s) : Attended s' := by
  cases hstep with
  | wake ht => exact h.wake ht
  | acquire _ hw => exact h.acquire hw
  | putBack hb hn => exact h.putBack hb hn
  | other hb => exact h.other hb

theorem attended_of_reaches {G : Waiters T τ → WaitEvent T τ → Prop}
    (h : Reaches (waitSystem D T) G s) : Attended s := by
  refine h.invariant ?_ fun s w s' hs _ hstep => (waitStep_of_next hstep).attended hs
  rintro s ⟨driver, rfl⟩
  exact attended_new driver

/-- **No wake-up is lost**: in every run, if a thread sleeps then as many have been woken as there
are connections in the queue; if none has been, then every connection is in a call of
`getConnection` or lent. -/
theorem no_wakeup_lost {G : Waiters T τ → WaitEvent T τ → Prop}
    (h : Reaches (waitSystem D T) G s) (ht : t ∈ s.asleep) :
    s.borrower t = .waiting ∧ s.pool.connections.length ≤ s.woken.length ∧
      (s.woken = [] → ∀ c < s.created.length,
        ∃ u, (s.borrower u).connection = some c ∨ c ∈ s.loans u) := by
  have hs := attended_of_reaches h
  have henough := hs.enough (asleep_ne_nil ht)
  refine ⟨(hs.waiting t).2 (List.mem_append_left _ ht), henough, fun hwoken c hc => ?_⟩
  have hqueue : s.pool.connections = [] := by
    rw [hwoken, List.length_nil] at henough
    exact List.length_eq_zero_iff.1 (Nat.le_zero.1 henough)
  obtain ⟨_ | u | u, hmem⟩ := (Borrowers.kept_of_reaches (reaches_toBorrowers h) hc).exists_mem
  · rw [Borrowers.custody_queue, hqueue] at hmem
    cases hmem
  · exact ⟨u, .inl (Option.mem_toList.1 hmem)⟩
  · exact ⟨u, .inr hmem⟩

/-- Of two connections one is lent and one is being taken, and a third thread sleeps. -/
def sleeping : List (WaitEvent ℕ (List Bool)) :=
  [.init (DbConnectionPool.callAs (bytes "app")), .acquire 0, .ping 0, .pinged 0, .acquire 1,
    .acquire 2].map fun e => .pool e none

theorem no_wakeup_lost_sleeping : ∃ s : Waiters ℕ (List Bool),
    Reaches (waitSystem DbConnectionPool.refusing ℕ) Always s ∧ s.asleep = [2] ∧
      ∀ c < s.created.length, ∃ u, (s.borrower u).connection = some c ∨ c ∈ s.loans u := by
  have hrun : sleeping.foldlM (next DbConnectionPool.refusing) (new []) = some _ := rfl
  have hreach : Reaches (waitSystem DbConnectionPool.refusing ℕ) Always _ :=
    .of_foldlM (fun _ _ _ h => ⟨trivial, h⟩) (.init ⟨[], rfl⟩) hrun
  exact ⟨_, hreach, rfl, (no_wakeup_lost hreach (List.mem_singleton.2 rfl)).2.2 rfl⟩

end Waiters

end KamaHttp
