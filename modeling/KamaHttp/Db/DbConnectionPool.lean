import KamaHttp.Db.DbConnection
import KamaHttp.Foundations.Machine

/-!
# The pool of connections

`DbConnectionPool.cpp`, one call at a time. The connections are numbered in the order in which they
are made, and the queue has their numbers.

* `exists_filled`, `exists_filled_of_error`: what the loop of `init` leaves when it ends, and when a
  connection cannot be made.
* `init_of_error`, `init_of_ok`: what a call of `init` leaves.
* `init_atomic_iff`: the calls that fail without leaving anything behind.
-/

namespace KamaHttp

/-- The members of the pool. -/
structure DbConnectionPool extends DbParams where
  connections : List ℕ
  initialized : Bool
  deriving DecidableEq

/-- The pool, the connections that have been made and the connector. -/
structure PoolState (τ : Type*) where
  pool : DbConnectionPool
  created : List DbConnection
  driver : τ

/-- A call of `init`. -/
structure InitCall extends DbParams where
  poolSize : ℕ
  deriving DecidableEq

variable {τ : Type*}

namespace DbConnectionPool

variable (D : MySqlDriver τ)

/-- The pool before any call of `init`. -/
def new (driver : τ) : PoolState τ := ⟨⟨⟨[], [], [], []⟩, [], false⟩, [], driver⟩

def createConnection (s : PoolState τ) : Except StdException ℕ × PoolState τ :=
  match DbConnection.new D s.pool.toDbParams s.driver with
  | (.ok c, t) => (.ok s.created.length, { s with created := s.created ++ [c], driver := t })
  | (.error e, t) => (.error e, { s with driver := t })

/-- `connections_.push`. -/
def push (c : ℕ) (s : PoolState τ) : PoolState τ :=
  { s with pool := { s.pool with connections := s.pool.connections ++ [c] } }

/-- The loop of `init`, with the connections that are left to be made. -/
def fill : ℕ → PoolState τ → Except StdException Unit × PoolState τ
  | 0, s => (.ok (), s)
  | n + 1, s =>
    match createConnection D s with
    | (.ok c, s) => fill n (push c s)
    | (.error e, s) => (.error e, s)

/-- The parameters of a call are stored. -/
def setParams (p : DbParams) (s : PoolState τ) : PoolState τ :=
  { s with pool := { s.pool with toDbParams := p } }

def init : Machine InitCall (PoolState τ) (Except StdException Unit) := fun c s =>
  if s.pool.initialized then (.ok (), s)
  else
    match fill D c.poolSize (setParams c.toDbParams s) with
    | (.ok (), s) => (.ok (), { s with pool := { s.pool with initialized := true } })
    | (.error e, s) => (.error e, s)

/-! ## Getting a connection -/

/-- `ping` on a connection that has been made. -/
def ping (c : ℕ) (s : PoolState τ) : Option (Bool × PoolState τ) :=
  (s.created[c]?.bind fun conn => conn.ping D s.driver).map fun r =>
    (r.1, { s with driver := r.2 })

/-- `reconnect` on a connection that has been made. -/
def reconnect (c : ℕ) (s : PoolState τ) : Option (Except StdException Unit × PoolState τ) :=
  (s.created[c]?.bind fun conn => conn.reconnect D s.driver).map fun r =>
    (r.1, { s with created := s.created.set c r.2.1, driver := r.2.2 })

/-- `connections_.pop`, with the connections that are left. -/
def pop (rest : List ℕ) (s : PoolState τ) : PoolState τ :=
  { s with pool := { s.pool with connections := rest } }

/-- What `getConnection` throws on a pool without connections that has not been initialised. -/
def notInitialized : StdException := .runtimeError (bytes "Connection pool not initialized")

/-- `getConnection`, as long as no other thread makes a step: the connection that it returns, or
what it throws. It has no result if it waits. -/
def getConnection (s : PoolState τ) : Option (Except StdException ℕ × PoolState τ) :=
  match s.pool.connections with
  | [] => if s.pool.initialized then none else some (.error notInitialized, s)
  | c :: rest =>
    match ping D c (pop rest s) with
    | none => none
    | some (true, s) => some (.ok c, s)
    | some (false, s) =>
      match reconnect D c s with
      | none => none
      | some (.ok (), s) => some (.ok c, s)
      | some (.error e, s) => some (.error e, push c s)

/-! ## What a call of `init` leaves -/

/-- The connections that have been made since are in the queue, behind those that were there, and
have been made with the parameters of the pool. -/
structure Filled (made : List DbConnection) (s s' : PoolState τ) : Prop where
  params : s'.pool.toDbParams = s.pool.toDbParams
  initialized : s'.pool.initialized = s.pool.initialized
  created : s'.created = s.created ++ made
  connections : s'.pool.connections =
    s.pool.connections ++ List.range' s.created.length made.length
  made : ∀ c ∈ made, c.toDbParams = s.pool.toDbParams

variable {D} {s s' s'' : PoolState τ} {made made' : List DbConnection} {c : InitCall}
  {e : StdException} {n : ℕ}

theorem Filled.refl (s : PoolState τ) : Filled [] s s :=
  ⟨rfl, rfl, (List.append_nil _).symm, (List.append_nil _).symm, fun _ h => nomatch h⟩

theorem Filled.trans (h : Filled made s s') (h' : Filled made' s' s'') :
    Filled (made ++ made') s s'' where
  params := h'.params.trans h.params
  initialized := h'.initialized.trans h.initialized
  created := by rw [h'.created, h.created, List.append_assoc]
  connections := by
    rw [h'.connections, h.connections, h.created, List.append_assoc, List.length_append,
      List.length_append, List.range'_append_1]
  made c hc := by
    rcases List.mem_append.1 hc with hc | hc
    · exact h.made c hc
    · exact (h'.made c hc).trans h.params

theorem filled_push {i : ℕ} (h : createConnection D s = (.ok i, s')) :
    ∃ c, Filled [c] s (push i s') := by
  unfold createConnection at h
  split at h
  · rename_i c t hc
    cases h
    exact ⟨c, rfl, rfl, rfl, rfl, fun c' hc' =>
      List.mem_singleton.1 hc' ▸ DbConnection.params_of_new hc⟩
  · cases h

theorem filled_of_error (h : createConnection D s = (.error e, s')) : Filled [] s s' := by
  unfold createConnection at h
  split at h
  · cases h
  · cases h
    exact ⟨rfl, rfl, (List.append_nil _).symm, (List.append_nil _).symm, fun _ h => nomatch h⟩

theorem fill_of_ok {i : ℕ} (h : createConnection D s = (.ok i, s')) (n : ℕ) :
    fill D (n + 1) s = fill D n (push i s') := by
  rw [fill, h]

theorem fill_of_error (h : createConnection D s = (.error e, s')) (n : ℕ) :
    fill D (n + 1) s = (.error e, s') := by
  rw [fill, h]

/-- **What the loop leaves**: as many connections as it is to make, if it ends. -/
theorem exists_filled (n : ℕ) (s : PoolState τ) : ∃ made, Filled made s (fill D n s).2 ∧
    ((fill D n s).1 = .ok () → made.length = n) := by
  induction n generalizing s with
  | zero => exact ⟨[], .refl s, fun _ => rfl⟩
  | succ n ih =>
    rcases hc : createConnection D s with ⟨e | i, s₁⟩
    · rw [fill_of_error hc]
      exact ⟨[], filled_of_error hc, fun h => nomatch h⟩
    · rw [fill_of_ok hc]
      obtain ⟨made, hmade, hlength⟩ := ih (push i s₁)
      obtain ⟨c, hpush⟩ := filled_push hc
      exact ⟨c :: made, hpush.trans hmade, fun h => congrArg (· + 1) (hlength h)⟩

/-- **What the loop leaves when a connection cannot be made**: those that were made before it, which
are none exactly if it is the first one. -/
theorem exists_filled_of_error (h : (fill D n s).1 = .error e) :
    ∃ made, Filled made s (fill D n s).2 ∧
      (made = [] ↔ ∃ e, (createConnection D s).1 = .error e) := by
  cases n with
  | zero => cases h
  | succ n =>
    rcases hc : createConnection D s with ⟨e | i, s₁⟩
    · rw [fill_of_error hc]
      exact ⟨[], filled_of_error hc, iff_of_true rfl ⟨e, rfl⟩⟩
    · rw [fill_of_ok hc]
      obtain ⟨c, hpush⟩ := filled_push hc
      obtain ⟨made, hmade, -⟩ := exists_filled n (push i s₁)
      refine ⟨c :: made, hpush.trans hmade, iff_of_false (List.cons_ne_nil c made) ?_⟩
      rintro ⟨e, he⟩
      cases he

/-- The first connection that a call asks for cannot be made. -/
def FirstThrows (D : MySqlDriver τ) (c : InitCall) (s : PoolState τ) : Prop :=
  ∃ e, (DbConnection.new D c.toDbParams s.driver).1 = .error e

theorem firstThrows_iff : FirstThrows D c s ↔
    ∃ e, (createConnection D (setParams c.toDbParams s)).1 = .error e := by
  have hparams : (setParams c.toDbParams s).pool.toDbParams = c.toDbParams := rfl
  have hdriver : (setParams c.toDbParams s).driver = s.driver := rfl
  rw [FirstThrows, createConnection, hparams, hdriver]
  split <;> rename_i h <;> simp [h]

/-- **A call that fails** leaves the connections that were made before the one that cannot be. -/
theorem init_of_error (h : (init D c s).1 = .error e) : s.pool.initialized = false ∧
    ∃ made, Filled made (setParams c.toDbParams s) (init D c s).2 ∧
      (made = [] ↔ FirstThrows D c s) := by
  unfold init at h ⊢
  split at h
  · cases h
  · rename_i hs
    rw [if_neg hs]
    refine ⟨Bool.not_eq_true _ ▸ hs, ?_⟩
    split at h
    · cases h
    · rename_i s' hfill
      obtain ⟨made, hmade, hnil⟩ := exists_filled_of_error (congrArg Prod.fst hfill)
      rw [hfill] at hmade
      exact ⟨made, hmade, hnil.trans firstThrows_iff.symm⟩

/-- **A call that succeeds** leaves as many connections as it asks for behind those that were in the
queue. -/
theorem init_of_ok (hs : s.pool.initialized = false) (h : (init D c s).1 = .ok ()) :
    ∃ made s', Filled made (setParams c.toDbParams s) s' ∧ made.length = c.poolSize ∧
      (init D c s).2 = { s' with pool := { s'.pool with initialized := true } } := by
  have hs' : ¬ s.pool.initialized = true := by rw [hs]; exact Bool.false_ne_true
  unfold init at h ⊢
  rw [if_neg hs'] at h ⊢
  split at h
  · rename_i s' hfill
    obtain ⟨made, hmade, hlength⟩ := exists_filled (D := D) c.poolSize (setParams c.toDbParams s)
    rw [hfill] at hmade hlength
    exact ⟨made, s', hmade, hlength rfl, rfl⟩
  · cases h

/-- Whatever becomes of a call, the connections that it makes are in the queue. -/
theorem exists_connections_init (c : InitCall) (s : PoolState τ) : ∃ n,
    (init D c s).2.pool.connections =
        s.pool.connections ++ List.range' s.created.length n ∧
      (init D c s).2.created.length = s.created.length + n := by
  rcases hs : s.pool.initialized with _ | _
  · rcases hc : (init D c s).1 with e | _
    · obtain ⟨-, made, hmade, -⟩ := init_of_error hc
      exact ⟨made.length, hmade.connections, by rw [hmade.created, List.length_append]; rfl⟩
    · obtain ⟨made, s', hmade, -, heq⟩ := init_of_ok hs hc
      rw [heq]
      exact ⟨made.length, hmade.connections, by rw [hmade.created, List.length_append]; rfl⟩
  · rw [init, if_pos hs]
    exact ⟨0, (List.append_nil _).symm, rfl⟩

/-! ## Calls that fail, and then one that succeeds -/

/-- The call leaves the queue and the flag as they are. -/
def LeavesNothing (D : MySqlDriver τ) (c : InitCall) (s : PoolState τ) : Prop :=
  (init D c s).2.pool.connections = s.pool.connections ∧
    (init D c s).2.pool.initialized = s.pool.initialized

/-- **A call that fails leaves nothing behind** exactly if it fails at its first connection. -/
theorem leavesNothing_iff (h : (init D c s).1 = .error e) :
    LeavesNothing D c s ↔ FirstThrows D c s := by
  obtain ⟨-, made, hmade, hnil⟩ := init_of_error h
  have hconnections : (init D c s).2.pool.connections = s.pool.connections ↔ made = [] := by
    rw [hmade.connections]
    show s.pool.connections ++ _ = _ ↔ _
    rw [List.append_right_eq_self, List.range'_eq_nil_iff, List.length_eq_zero_iff]
  rw [LeavesNothing, hconnections, hnil]
  exact and_iff_left hmade.initialized

/-- The call fails, behind others on a new pool. -/
def Fails (D : MySqlDriver τ) (driver : τ) (before : List InitCall) (c : InitCall) : Prop :=
  ∃ e, (init D c ((init D).run before (new driver))).1 = .error e

/-- The pool holds as many connections as the call asks for, all made with its parameters. -/
structure Holds (s : PoolState τ) (c : InitCall) : Prop where
  length : s.pool.connections.length = c.poolSize
  nodup : s.pool.connections.Nodup
  params : ∀ i ∈ s.pool.connections, ∃ conn, s.created[i]? = some conn ∧
    conn.toDbParams = c.toDbParams

/-- Behind calls that fail, all connections that have been made are in the queue. -/
theorem behind_failing {driver : τ} {calls : List InitCall} (h : Along (Fails D driver) calls) :
    ((init D).run calls (new driver)).pool.initialized = false ∧
      ((init D).run calls (new driver)).pool.connections =
        List.range' 0 ((init D).run calls (new driver)).created.length ∧
      (((init D).run calls (new driver)).created = [] ↔
        Along (fun before c => FirstThrows D c ((init D).run before (new driver))) calls) := by
  induction calls using List.reverseRecOn with
  | nil => exact ⟨rfl, rfl, iff_of_true rfl (along_nil _)⟩
  | append_singleton calls c ih =>
    obtain ⟨hcalls, e, he⟩ := along_concat.1 h
    obtain ⟨hflag, hconnections, hcreated⟩ := ih hcalls
    obtain ⟨-, made, hmade, hnil⟩ := init_of_error he
    rw [Machine.run_concat, along_concat, ← hcreated, ← hnil]
    refine ⟨hmade.initialized.trans hflag, ?_, ?_⟩
    · rw [hmade.connections, hmade.created, List.length_append]
      show _ ++ List.range' ((init D).run calls (new driver)).created.length _ = _
      rw [← List.range'_append_1, Nat.zero_add]
      exact congrArg (· ++ _) hconnections
    · rw [hmade.created]
      exact List.append_eq_nil_iff

/-- **A call that succeeds behind others that fail** leaves as many connections as it asks for,
made with its parameters, exactly if all of the others failed at their first connection. -/
theorem holds_iff {driver : τ} {calls : List InitCall} (h : Along (Fails D driver) calls)
    (hc : (init D c ((init D).run calls (new driver))).1 = .ok ()) :
    Holds ((init D).run (calls ++ [c]) (new driver)) c ↔
      Along (fun before c => FirstThrows D c ((init D).run before (new driver))) calls := by
  obtain ⟨hflag, hconnections, hcreated⟩ := behind_failing h
  obtain ⟨made, s', hmade, hlength, heq⟩ := init_of_ok hflag hc
  rw [← hcreated, Machine.run_concat, heq]
  have hqueue : s'.pool.connections = List.range' 0 s'.created.length := by
    rw [hmade.connections, hmade.created, List.length_append, ← List.range'_append_1, Nat.zero_add]
    exact congrArg (· ++ _) hconnections
  constructor
  · intro hholds
    have hn : s'.pool.connections.length = c.poolSize := hholds.length
    rw [hqueue, List.length_range', hmade.created, List.length_append, hlength] at hn
    exact List.length_eq_zero_iff.1 (Nat.add_eq_right.1 hn)
  · intro hnone
    have hs' : s'.created = made := by
      rw [hmade.created]
      show ((init D).run calls (new driver)).created ++ made = made
      rw [hnone, List.nil_append]
    refine ⟨?_, ?_, fun i hi => ?_⟩
    · show s'.pool.connections.length = _
      rw [hqueue, List.length_range', hs', hlength]
    · show s'.pool.connections.Nodup
      rw [hqueue]
      exact List.nodup_range'
    · change i ∈ s'.pool.connections at hi
      rw [hqueue, List.mem_range'_1, Nat.zero_add] at hi
      refine ⟨_, List.getElem?_eq_getElem hi.2, hmade.made _ ?_⟩
      exact hs' ▸ List.getElem_mem hi.2

/-- **When `init` is atomic**: a call that fails leaves the queue and the flag as they were exactly
if it fails at its first connection, and a call that succeeds behind others on a new pool leaves
what it should exactly if all of them did. -/
theorem init_atomic_iff (D : MySqlDriver τ) :
    (∀ c s, (∃ e, (init D c s).1 = .error e) → (LeavesNothing D c s ↔ FirstThrows D c s)) ∧
      ∀ driver calls c, Along (Fails D driver) calls →
        (init D c ((init D).run calls (new driver))).1 = .ok () →
        (Holds ((init D).run (calls ++ [c]) (new driver)) c ↔
          Along (fun before c => FirstThrows D c ((init D).run before (new driver))) calls) :=
  ⟨fun _ _ ⟨_, he⟩ => leavesNothing_iff he, fun _ _ _ h hc => holds_iff h hc⟩

/-- A connector that refuses the connections it is told to refuse. -/
def refusing : MySqlDriver (List Bool) where
  connect _ _ _
    | false :: rest => (.error (bytes "Access denied"), rest)
    | _ :: rest => (.ok (some 0), rest)
    | [] => (.ok (some 0), [])
  call _ _ t := (.ok (), t)
  close _ t := t

/-- A call for two connections, as one user. -/
def callAs (user : Bytes) : InitCall := ⟨⟨bytes "localhost", user, bytes "secret", bytes "app"⟩, 2⟩

theorem along_fails_refusing :
    Along (Fails refusing [true, false]) [callAs (bytes "old")] :=
  along_cons.2 ⟨⟨_, rfl⟩, along_nil _⟩

theorem init_atomic_refusing :
    (LeavesNothing refusing (callAs (bytes "old")) (new [true, false]) ↔
        FirstThrows refusing (callAs (bytes "old")) (new [true, false])) ∧
      (Holds ((init refusing).run [callAs (bytes "old"), callAs (bytes "new")] (new [true, false]))
          (callAs (bytes "new")) ↔
        Along (fun before c =>
            FirstThrows refusing c ((init refusing).run before (new [true, false])))
          [callAs (bytes "old")]) :=
  ⟨(init_atomic_iff refusing).1 _ _ ⟨_, rfl⟩,
    (init_atomic_iff refusing).2 _ _ _ along_fails_refusing rfl⟩

/-- A call that fails at its second connection leaves the first one in the queue, where it stays,
beside the connections of the call that succeeds. -/
theorem not_init_atomic :
    Fails refusing [true, false] [] (callAs (bytes "old")) ∧
      ¬ LeavesNothing refusing (callAs (bytes "old")) (new [true, false]) ∧
      (init refusing (callAs (bytes "new"))
        ((init refusing).run [callAs (bytes "old")] (new [true, false]))).1 = .ok () ∧
      ¬ Holds ((init refusing).run [callAs (bytes "old"), callAs (bytes "new")]
        (new [true, false])) (callAs (bytes "new")) := by
  refine ⟨⟨_, rfl⟩, fun h => ?_, rfl, fun h => ?_⟩
  · exact List.cons_ne_nil _ _ h.1
  · exact absurd h.length (by decide)

end DbConnectionPool

end KamaHttp
