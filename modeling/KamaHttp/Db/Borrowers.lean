import KamaHttp.Db.DbConnectionPool
import KamaHttp.Foundations.Custody
import KamaHttp.Foundations.System

/-!
# Threads that borrow connections

Any number of threads call `getConnection` and drop the pointers that it returns, while the thread
of the pool checks the connections. What is done under the lock of the pool is one step, and so is
the end of each call of the connector; the state of the connector may change at any time, as other
calls of it, and the server, have their effects on it.

* `step_of_next`, `Step.effect`: what a step leads to, and what it does with the connections.
* `exists_steps_getConnection`: a thread that is not interrupted does what `getConnection` does.
* `kept_of_reaches`: in every run, each connection that has been made is in exactly one place: in
  the queue, in a call of `getConnection`, or lent to a thread.
* `queue_perm_range`: when no thread has a connection, the queue has all of them.
-/

namespace KamaHttp

open Custody

/-- Where a thread is: outside of `getConnection`, with what its last call has thrown, in
`cv_.wait`, or with a connection: taken from the queue, in `ping`, in `reconnect`, or behind the
`catch` with what it has caught. -/
inductive Borrower
  | outside (thrown : Option StdException)
  | waiting
  | taken (c : ℕ)
  | pinging (c : ℕ)
  | reconnecting (c : ℕ)
  | failed (c : ℕ) (e : StdException)
  deriving DecidableEq

/-- The connection that the thread has taken. -/
def Borrower.connection : Borrower → Option ℕ
  | .outside _ => none
  | .waiting => none
  | .taken c => some c
  | .pinging c => some c
  | .reconnecting c => some c
  | .failed c _ => some c

/-- Where `checkConnections` is: before its snapshot of the queue, or with the connections that are
left to be checked, behind one that is in `ping` or in `reconnect`. -/
inductive Checker
  | idle
  | checking (connsToCheck : List ℕ)
  | pinging (c : ℕ) (connsToCheck : List ℕ)
  | reconnecting (c : ℕ) (connsToCheck : List ℕ)
  deriving DecidableEq

/-- The pool, where each thread is, the connections whose pointers it has been given and not yet
dropped, and where the thread of the pool is. -/
structure Borrowers (T τ : Type*) extends PoolState τ where
  borrower : T → Borrower
  loans : T → List ℕ
  checker : Checker

/-- The steps. A thread that waits may wake at any time. -/
inductive PoolEvent (T τ : Type*)
  /-- The state of the connector changes. -/
  | server (driver : τ)
  | init (c : InitCall)
  /-- The part of `getConnection` under the lock. -/
  | acquire (t : T)
  | ping (t : T)
  | pinged (t : T)
  | reconnected (t : T)
  /-- The part of `getConnection` behind the `catch`. -/
  | giveBack (t : T)
  /-- The last copy of a pointer is dropped. -/
  | drop (t : T) (c : ℕ)
  /-- The part of `checkConnections` under the lock. -/
  | snapshot
  | check
  | checked
  | rechecked

namespace Borrowers

variable {T τ : Type*} [DecidableEq T]

omit [DecidableEq T] in
/-- The pool before any call. -/
def new (driver : τ) : Borrowers T τ :=
  { DbConnectionPool.new driver with
    borrower := fun _ => .outside none
    loans := fun _ => []
    checker := .idle }

def move (s : Borrowers T τ) (t : T) (b : Borrower) : Borrowers T τ :=
  { s with borrower := Function.update s.borrower t b }

/-- `connections_.push`. -/
def push (s : Borrowers T τ) (c : ℕ) : Borrowers T τ :=
  { s with toPoolState := DbConnectionPool.push c s.toPoolState }

/-- The call returns a pointer to the connection. -/
def lend (s : Borrowers T τ) (t : T) (c : ℕ) : Borrowers T τ :=
  { s.move t (.outside none) with loans := Function.update s.loans t (c :: s.loans t) }

def acquire (s : Borrowers T τ) (t : T) : Borrowers T τ :=
  match s.pool.connections with
  | c :: rest => { s.move t (.taken c) with toPoolState := DbConnectionPool.pop rest s.toPoolState }
  | [] =>
    if s.pool.initialized then s.move t .waiting
    else s.move t (.outside (some DbConnectionPool.notInitialized))

/-- `ping` on a connection. -/
def ping (D : MySqlDriver τ) (s : Borrowers T τ) (c : ℕ) : Option (Bool × Borrowers T τ) :=
  (DbConnectionPool.ping D c s.toPoolState).map fun r => (r.1, { s with toPoolState := r.2 })

/-- `reconnect` on a connection. -/
def reconnect (D : MySqlDriver τ) (s : Borrowers T τ) (c : ℕ) :
    Option (Except StdException Unit × Borrowers T τ) :=
  (DbConnectionPool.reconnect D c s.toPoolState).map fun r =>
    (r.1, { s with toPoolState := r.2 })

/-- What a step leads to, if it can happen. -/
def next (D : MySqlDriver τ) (s : Borrowers T τ) : PoolEvent T τ → Option (Borrowers T τ)
  | .server driver => some { s with driver := driver }
  | .init c => some { s with toPoolState := (DbConnectionPool.init D c s.toPoolState).2 }
  | .acquire t => if (s.borrower t).connection = none then some (s.acquire t) else none
  | .ping t =>
    match s.borrower t with
    | .taken c => some (s.move t (.pinging c))
    | _ => none
  | .pinged t =>
    match s.borrower t with
    | .pinging c => (s.ping D c).map fun r =>
      if r.1 then r.2.lend t c else r.2.move t (.reconnecting c)
    | _ => none
  | .reconnected t =>
    match s.borrower t with
    | .reconnecting c => (s.reconnect D c).map fun r =>
      match r.1 with
      | .ok () => r.2.lend t c
      | .error e => r.2.move t (.failed c e)
    | _ => none
  | .giveBack t =>
    match s.borrower t with
    | .failed c e => some ((s.push c).move t (.outside (some e)))
    | _ => none
  | .drop t c =>
    if c ∈ s.loans t then
      some { s.push c with loans := Function.update s.loans t ((s.loans t).erase c) }
    else none
  | .snapshot =>
    match s.checker, s.pool.connections with
    | .idle, [] => some s
    | .idle, cs => some { s with checker := .checking cs }
    | _, _ => none
  | .check =>
    match s.checker with
    | .checking [] => some { s with checker := .idle }
    | .checking (c :: rest) => some { s with checker := .pinging c rest }
    | _ => none
  | .checked =>
    match s.checker with
    | .pinging c rest => (s.ping D c).map fun r =>
      { r.2 with checker := if r.1 then .checking rest else .reconnecting c rest }
    | _ => none
  | .rechecked =>
    match s.checker with
    | .reconnecting c rest => (s.reconnect D c).map fun r => { r.2 with checker := .checking rest }
    | _ => none

/-! ## A thread alone -/

/-- What a call of `getConnection` leaves, by what it returns or throws. -/
def after (s : Borrowers T τ) (t : T) : Except StdException ℕ × PoolState τ → Borrowers T τ
  | (.ok c, p) => { s with toPoolState := p }.lend t c
  | (.error e, p) => { s with toPoolState := p }.move t (.outside (some e))

/-- The steps of a call, up to the first that ends it. -/
def callSteps (t : T) : List (PoolEvent T τ) :=
  [.acquire t, .ping t, .pinged t, .reconnected t, .giveBack t]

/-- **A thread that is not interrupted** does what `getConnection` does. -/
theorem exists_steps_getConnection {D : MySqlDriver τ} {s : Borrowers T τ} {t : T}
    {r : Except StdException ℕ × PoolState τ} (hb : (s.borrower t).connection = none)
    (h : DbConnectionPool.getConnection D s.toPoolState = some r) :
    ∃ n, ((callSteps t).take n).foldlM (next D) s = some (s.after t r) := by
  unfold DbConnectionPool.getConnection at h
  split at h
  · rename_i hqueue
    split at h
    · cases h
    · rename_i hinit
      cases h
      refine ⟨1, ?_⟩
      simp [callSteps, next, hb, acquire, hqueue, hinit, after]
  · rename_i c rest hqueue
    split at h
    · cases h
    · rename_i p hping
      cases h
      refine ⟨3, ?_⟩
      simp [callSteps, next, hb, acquire, hqueue, after, move, ping, hping, lend]
    · rename_i p hping
      split at h
      · cases h
      · rename_i p' hreconnect
        cases h
        refine ⟨4, ?_⟩
        simp [callSteps, next, hb, acquire, hqueue, after, move, ping, hping, reconnect,
          hreconnect, lend]
      · rename_i e p' hreconnect
        cases h
        refine ⟨5, ?_⟩
        simp [callSteps, next, hb, acquire, hqueue, after, move, ping, hping, reconnect,
          hreconnect, push]

/-! ## What a step leads to -/

omit [DecidableEq T] in
theorem exists_of_ping {D : MySqlDriver τ} {s : Borrowers T τ} {c : ℕ} {r : Bool × Borrowers T τ}
    (h : s.ping D c = some r) : ∃ driver, r.2 = { s with driver := driver } := by
  obtain ⟨p, hp, rfl⟩ := Option.map_eq_some_iff.1 h
  obtain ⟨q, -, rfl⟩ := Option.map_eq_some_iff.1 hp
  exact ⟨q.2, rfl⟩

omit [DecidableEq T] in
theorem exists_of_reconnect {D : MySqlDriver τ} {s : Borrowers T τ} {c : ℕ}
    {r : Except StdException Unit × Borrowers T τ} (h : s.reconnect D c = some r) :
    ∃ created driver, created.length = s.created.length ∧
      r.2 = { s with created := created, driver := driver } := by
  obtain ⟨p, hp, rfl⟩ := Option.map_eq_some_iff.1 h
  obtain ⟨q, -, rfl⟩ := Option.map_eq_some_iff.1 hp
  exact ⟨_, _, List.length_set, rfl⟩

/-- What a step can lead to, whatever the connector does. -/
inductive Step (D : MySqlDriver τ) (s : Borrowers T τ) : PoolEvent T τ → Borrowers T τ → Prop
  | server (driver : τ) : Step D s (.server driver) { s with driver := driver }
  | init (call : InitCall) : Step D s (.init call)
      { s with toPoolState := (DbConnectionPool.init D call s.toPoolState).2 }
  | acquire {t : T} (hb : (s.borrower t).connection = none) : Step D s (.acquire t) (s.acquire t)
  | ping {t : T} {c : ℕ} (hb : s.borrower t = .taken c) :
      Step D s (.ping t) (s.move t (.pinging c))
  | alive {t : T} {c : ℕ} (hb : s.borrower t = .pinging c) (driver : τ) :
      Step D s (.pinged t) ({ s with driver := driver }.lend t c)
  | lost {t : T} {c : ℕ} (hb : s.borrower t = .pinging c) (driver : τ) :
      Step D s (.pinged t) ({ s with driver := driver }.move t (.reconnecting c))
  | reconnected {t : T} {c : ℕ} (hb : s.borrower t = .reconnecting c)
      {created : List DbConnection} (hcreated : created.length = s.created.length) (driver : τ) :
      Step D s (.reconnected t) ({ s with created := created, driver := driver }.lend t c)
  | failed {t : T} {c : ℕ} (hb : s.borrower t = .reconnecting c) {created : List DbConnection}
      (hcreated : created.length = s.created.length) (driver : τ) (e : StdException) :
      Step D s (.reconnected t)
        ({ s with created := created, driver := driver }.move t (.failed c e))
  | giveBack {t : T} {c : ℕ} {e : StdException} (hb : s.borrower t = .failed c e) :
      Step D s (.giveBack t) ((s.push c).move t (.outside (some e)))
  | drop {t : T} {c : ℕ} (hc : c ∈ s.loans t) : Step D s (.drop t c)
      { s.push c with loans := Function.update s.loans t ((s.loans t).erase c) }
  | sleep (hk : s.checker = .idle) : Step D s .snapshot s
  | snapshot (hk : s.checker = .idle) :
      Step D s .snapshot { s with checker := .checking s.pool.connections }
  | done (hk : s.checker = .checking []) : Step D s .check { s with checker := .idle }
  | check {c : ℕ} {rest : List ℕ} (hk : s.checker = .checking (c :: rest)) :
      Step D s .check { s with checker := .pinging c rest }
  | checked {c : ℕ} {rest : List ℕ} (hk : s.checker = .pinging c rest) (driver : τ) :
      Step D s .checked { s with driver := driver, checker := .checking rest }
  | notAlive {c : ℕ} {rest : List ℕ} (hk : s.checker = .pinging c rest) (driver : τ) :
      Step D s .checked { s with driver := driver, checker := .reconnecting c rest }
  | rechecked {c : ℕ} {rest : List ℕ} (hk : s.checker = .reconnecting c rest)
      {created : List DbConnection} (hcreated : created.length = s.created.length) (driver : τ) :
      Step D s .rechecked
        { s with created := created, driver := driver, checker := .checking rest }

/-- **What a step leads to.** -/
theorem step_of_next {D : MySqlDriver τ} {s s' : Borrowers T τ} {e : PoolEvent T τ}
    (h : s.next D e = some s') : Step D s e s' := by
  cases e with
  | server driver => exact Option.some.inj h ▸ .server driver
  | init call => exact Option.some.inj h ▸ .init call
  | acquire t =>
    obtain ⟨hb, h⟩ := Option.ite_none_right_eq_some.1 h
    exact Option.some.inj h ▸ .acquire hb
  | ping t =>
    dsimp only [next] at h
    split at h
    · rename_i hb
      exact Option.some.inj h ▸ .ping hb
    · cases h
  | pinged t =>
    dsimp only [next] at h
    split at h
    · rename_i hb
      obtain ⟨r, hr, rfl⟩ := Option.map_eq_some_iff.1 h
      obtain ⟨driver, hs⟩ := exists_of_ping hr
      rw [hs]
      split
      · exact .alive hb driver
      · exact .lost hb driver
    · cases h
  | reconnected t =>
    dsimp only [next] at h
    split at h
    · rename_i hb
      obtain ⟨r, hr, rfl⟩ := Option.map_eq_some_iff.1 h
      obtain ⟨created, driver, hcreated, hs⟩ := exists_of_reconnect hr
      rw [hs]
      split
      · exact .reconnected hb hcreated driver
      · exact .failed hb hcreated driver _
    · cases h
  | giveBack t =>
    dsimp only [next] at h
    split at h
    · rename_i hb
      exact Option.some.inj h ▸ .giveBack hb
    · cases h
  | drop t c =>
    obtain ⟨hc, h⟩ := Option.ite_none_right_eq_some.1 h
    exact Option.some.inj h ▸ .drop hc
  | snapshot =>
    dsimp only [next] at h
    split at h
    · rename_i hk _
      exact Option.some.inj h ▸ .sleep hk
    · rename_i hk _
      exact Option.some.inj h ▸ .snapshot hk
    · cases h
  | check =>
    dsimp only [next] at h
    split at h
    · rename_i hk
      exact Option.some.inj h ▸ .done hk
    · rename_i hk
      exact Option.some.inj h ▸ .check hk
    · cases h
  | checked =>
    dsimp only [next] at h
    split at h
    · rename_i hk
      obtain ⟨r, hr, rfl⟩ := Option.map_eq_some_iff.1 h
      obtain ⟨driver, hs⟩ := exists_of_ping hr
      rw [hs]
      split
      · exact .checked hk driver
      · exact .notAlive hk driver
    · cases h
  | rechecked =>
    dsimp only [next] at h
    split at h
    · rename_i hk
      obtain ⟨r, hr, rfl⟩ := Option.map_eq_some_iff.1 h
      obtain ⟨created, driver, hcreated, hs⟩ := exists_of_reconnect hr
      rw [hs]
      exact .rechecked hk hcreated driver
    · cases h

/-! ## Where the connections are -/

end Borrowers

/-- The places of a connection: in the queue, in a call of `getConnection`, or lent to a thread. -/
inductive Place (T : Type*)
  | queue
  | transit (t : T)
  | loan (t : T)

namespace Borrowers

variable {T τ : Type*} [DecidableEq T]

omit [DecidableEq T] in
/-- The connections in each place. -/
def custody (s : Borrowers T τ) : Place T → List ℕ
  | .queue => s.pool.connections
  | .transit t => (s.borrower t).connection.toList
  | .loan t => s.loans t

/-- What a step does: the connections stay where they are, one of them passes from one place to
another, or new ones are made and put into the queue. -/
inductive Effect (s s' : Borrowers T τ) : Prop
  | stay (hcustody : s'.custody = s.custody) (hcreated : s'.created.length = s.created.length)
  | pass {i j : Place T} {c : ℕ} (hpass : Passes s.custody s'.custody i j c)
      (hcreated : s'.created.length = s.created.length)
  | make {n : ℕ} (hqueue : s'.custody .queue =
        s.custody .queue ++ List.range' s.created.length n)
      (hother : ∀ k, k ≠ .queue → s'.custody k = s.custody k)
      (hcreated : s'.created.length = s.created.length + n)

variable {D : MySqlDriver τ} {s s' : Borrowers T τ} {t : T} {b : Borrower} {c : ℕ}

omit [DecidableEq T] in
@[simp] theorem custody_queue (s : Borrowers T τ) : s.custody .queue = s.pool.connections := rfl

omit [DecidableEq T] in
@[simp] theorem custody_transit (s : Borrowers T τ) (t : T) :
    s.custody (.transit t) = (s.borrower t).connection.toList := rfl

omit [DecidableEq T] in
@[simp] theorem custody_loan (s : Borrowers T τ) (t : T) : s.custody (.loan t) = s.loans t := rfl

theorem custody_move (hb : b.connection = (s.borrower t).connection) :
    (s.move t b).custody = s.custody := by
  funext k
  cases k with
  | queue => rfl
  | loan _ => rfl
  | transit t' =>
    by_cases ht : t' = t
    · subst ht
      simp [move, hb]
    · simp [move, ht]

theorem effect_acquire (hb : (s.borrower t).connection = none) : Effect s (s.acquire t) := by
  unfold acquire
  split
  · rename_i c rest hqueue
    refine .pass (i := .queue) (j := .transit t) (c := c) ⟨nofun, ?_, ?_, ?_⟩ rfl
    · rw [custody_queue, hqueue]
      rfl
    · rw [custody_transit s, hb]
      simp [move, Borrower.connection]
    · rintro (_ | t' | t') hi hj <;> simp_all [move]
  · split
    · exact .stay (custody_move hb.symm) rfl
    · exact .stay (custody_move hb.symm) rfl

theorem effect_lend (hb : (s.borrower t).connection = some c) : Effect s (s.lend t c) := by
  refine .pass (i := .transit t) (j := .loan t) (c := c) ⟨nofun, ?_, ?_, ?_⟩ rfl
  · rw [custody_transit, hb]
    simp [lend, move, Borrower.connection]
  · simp [lend]
  · rintro (_ | t' | t') hi hj <;> simp_all [lend, move]

theorem effect_giveBack {thrown : Option StdException} (hb : (s.borrower t).connection = some c) :
    Effect s ((s.push c).move t (.outside thrown)) := by
  refine .pass (i := .transit t) (j := .queue) (c := c) ⟨nofun, ?_, ?_, ?_⟩ rfl
  · rw [custody_transit, hb]
    simp [move, Borrower.connection]
  · exact List.perm_append_singleton c _
  · rintro (_ | t' | t') hi hj <;> simp_all [push, move]

theorem effect_drop (hc : c ∈ s.loans t) :
    Effect s { s.push c with loans := Function.update s.loans t ((s.loans t).erase c) } := by
  refine .pass (i := .loan t) (j := .queue) (c := c) ⟨nofun, ?_, ?_, ?_⟩ rfl
  · simpa using List.perm_cons_erase hc
  · exact List.perm_append_singleton c _
  · rintro (_ | t' | t') hi hj <;> simp_all [push]

omit [DecidableEq T] in
theorem effect_init (D : MySqlDriver τ) (s : Borrowers T τ) (call : InitCall) :
    Effect s { s with toPoolState := (DbConnectionPool.init D call s.toPoolState).2 } := by
  obtain ⟨n, hqueue, hcreated⟩ :=
    DbConnectionPool.exists_connections_init (D := D) call s.toPoolState
  refine .make hqueue ?_ hcreated
  rintro (_ | t | t) hk
  · exact absurd rfl hk
  · rfl
  · rfl

omit [DecidableEq T] in
theorem Effect.of_connector (created : List DbConnection) {driver : τ}
    (hcreated : created.length = s.created.length)
    (h : Effect { s with created := created, driver := driver } s') : Effect s s' := by
  cases h with
  | stay hcustody hlength => exact .stay hcustody (hlength.trans hcreated)
  | pass hpass hlength => exact .pass hpass (hlength.trans hcreated)
  | make hqueue hother hlength =>
    dsimp only at hqueue hlength
    rw [hcreated] at hqueue hlength
    exact .make hqueue hother hlength

/-- **What a step does with the connections.** -/
theorem Step.effect {e : PoolEvent T τ} (h : Step D s e s') : Effect s s' := by
  cases h with
  | server => exact .stay rfl rfl
  | init call => exact effect_init D s call
  | acquire hb => exact effect_acquire hb
  | ping hb => exact .stay (custody_move (by rw [hb]; rfl)) rfl
  | alive hb driver => exact .of_connector s.created rfl (effect_lend (by rw [hb]; rfl))
  | lost hb driver => exact .stay (custody_move (by rw [hb]; rfl)) rfl
  | reconnected hb hcreated driver =>
    exact .of_connector _ hcreated (effect_lend (by rw [hb]; rfl))
  | failed hb hcreated driver e => exact .stay (custody_move (by rw [hb]; rfl)) hcreated
  | giveBack hb => exact effect_giveBack (by rw [hb]; rfl)
  | drop hc => exact effect_drop hc
  | sleep => exact .stay rfl rfl
  | snapshot => exact .stay rfl rfl
  | done => exact .stay rfl rfl
  | check => exact .stay rfl rfl
  | checked => exact .stay rfl rfl
  | notAlive => exact .stay rfl rfl
  | rechecked _ hcreated _ => exact .stay rfl hcreated

/-! ## All runs -/

/-- The runs of the threads and the thread of the pool, in any order. -/
def poolSystem (D : MySqlDriver τ) (T : Type*) [DecidableEq T] :
    System (Borrowers T τ) (PoolEvent T τ) where
  init s := ∃ driver, s = new driver
  step s e s' := s.next D e = some s'

/-- The connections that have been made are kept, and there are no others in any place. -/
def AllKept (s : Borrowers T τ) : Prop := Keeps s.custody (Set.Iio s.created.length)

omit [DecidableEq T] in
theorem allKept_new (driver : τ) : AllKept (new driver : Borrowers T τ) := by
  refine ⟨fun c hc => absurd hc (Nat.not_lt_zero c), ?_⟩
  rintro (_ | t | t) c hc <;> cases hc

omit [DecidableEq T] in
theorem Effect.allKept (h : Effect s s') (hs : AllKept s) : AllKept s' := by
  unfold AllKept
  cases h with
  | stay hcustody hcreated =>
    rw [hcustody, hcreated]
    exact hs
  | pass hpass hcreated =>
    rw [hcreated]
    exact hs.passes hpass
  | @make n hqueue hother hcreated =>
    have hout : ∀ c ∈ List.range' s.created.length n, c ∉ Set.Iio s.created.length :=
      fun c hc => Nat.not_lt.2 (List.mem_range'_1.1 hc).1
    have hall : Set.Iio s'.created.length =
        Set.Iio s.created.length ∪ {c | c ∈ List.range' s.created.length n} := by
      ext c
      simp only [Set.mem_Iio, Set.mem_union, Set.mem_ofPred_eq, List.mem_range'_1]
      omega
    rw [hall]
    exact hs.add List.nodup_range' hout hqueue hother

theorem allKept_of_reaches (h : Reaches (poolSystem D T) Always s) : AllKept s := by
  refine h.invariant ?_ fun s e s' hs _ hstep => (step_of_next hstep).effect.allKept hs
  rintro s ⟨driver, rfl⟩
  exact allKept_new driver

/-- **Each connection that has been made is in exactly one place**, in every run. -/
theorem kept_of_reaches (h : Reaches (poolSystem D T) Always s) {c : ℕ}
    (hc : c < s.created.length) : Kept s.custody c :=
  (allKept_of_reaches h).kept c hc

/-- A pool of two connections, of which one is lent. -/
def lending : List (PoolEvent Unit (List Bool)) :=
  [.init (DbConnectionPool.callAs (bytes "app")), .acquire (), .ping (), .pinged ()]

theorem kept_of_reaches_lending : ∃ s : Borrowers Unit (List Bool),
    Reaches (poolSystem DbConnectionPool.refusing Unit) Always s ∧
      s.pool.connections = [1] ∧ s.loans () = [0] ∧ Kept s.custody 0 := by
  have hlending : lending.foldlM (next DbConnectionPool.refusing) (new []) = some _ := rfl
  have hreach : Reaches (poolSystem DbConnectionPool.refusing Unit) Always _ :=
    .of_foldlM (fun _ _ _ h => ⟨trivial, h⟩) (.init ⟨[], rfl⟩) hlending
  exact ⟨_, hreach, rfl, rfl, kept_of_reaches hreach (by decide)⟩

/-- **When no thread has a connection**, the queue has all of them. -/
theorem queue_perm_range (h : Reaches (poolSystem D T) Always s)
    (hborrower : ∀ t, (s.borrower t).connection = none) (hloans : ∀ t, s.loans t = []) :
    s.pool.connections.Perm (List.range s.created.length) := by
  have hkept := allKept_of_reaches h
  refine (List.perm_ext_iff_of_nodup (hkept.nodup .queue) List.nodup_range).2 fun c => ?_
  rw [List.mem_range]
  refine ⟨hkept.mem .queue c, fun hc => ?_⟩
  obtain ⟨_ | t | t, hmem⟩ := (hkept.kept c hc).exists_mem
  · exact hmem
  · rw [custody_transit, hborrower t] at hmem
    cases hmem
  · rw [custody_loan, hloans t] at hmem
    cases hmem

end Borrowers

end KamaHttp
