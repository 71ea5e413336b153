import KamaHttp.Db.Starvation
import Mathlib.Data.Fintype.Card

/-!
# Statements on pooled connections

`MysqlUtil.h` with the templates of `DbConnection.h`. A call takes a connection from the pool, runs
one statement on it and gives it back when it is left, by what it returns or by what it throws.

* `execute_of_queue`: what a call does with the pool.
* `executeAll_eq`: calls one after the other use the connections of the queue in turn.
* `Step.oneEach`: threads that make such calls have at most one connection each.
* `never_waiting`: with no more threads than connections, no thread waits.
* `gets_of_modest`: with any number of threads, one that waits can still get a connection.
-/

namespace KamaHttp

/-! ## Statements -/

/-- The connector with its prepared statements and result sets, which are given by handles. -/
structure StatementDriver (τ : Type*) extends MySqlDriver τ where
  prepareStatement (conn : ℕ) (sql : Bytes) : τ → Except Bytes ℕ × τ
  setString (stmt : ℕ) (index : ℕ) (value : Bytes) : τ → Except Bytes Unit × τ
  executeQuery (stmt : ℕ) : τ → Except Bytes ℕ × τ
  executeUpdate (stmt : ℕ) : τ → Except Bytes ℤ × τ
  /-- The destructor of `sql::PreparedStatement`. -/
  closeStatement (stmt : ℕ) : τ → τ

/-- An argument of a statement: an integer or a `const std::string`. -/
inductive SqlArg
  | number (z : ℤ)
  | text (value : Bytes)
  deriving DecidableEq

/-- What is bound: a number by its `std::to_string`. -/
def SqlArg.bound : SqlArg → Bytes
  | .number z => decimal z
  | .text value => value

variable {τ α : Type*}

namespace DbConnection

variable (D : StatementDriver τ)

def bindParams (stmt : ℕ) : ℕ → List SqlArg → τ → Except Bytes Unit × τ
  | _, [], t => (.ok (), t)
  | index, value :: args, t =>
    match D.setString stmt index value.bound t with
    | (.ok (), t) => bindParams stmt (index + 1) args t
    | (.error e, t) => (.error e, t)

/-- The body of `executeQuery` and `executeUpdate`. The statement is destroyed when the body is
left, before what it returns is used. -/
def prepared (execute : ℕ → τ → Except Bytes α × τ) (sql : Bytes) (args : List SqlArg) (conn : ℕ)
    (t : τ) : Except StdException α × τ :=
  match D.prepareStatement conn sql t with
  | (.error e, t) => (.error (.runtimeError e), t)
  | (.ok stmt, t) =>
    match bindParams D stmt 1 args t with
    | (.error e, t) => (.error (.runtimeError e), D.closeStatement stmt t)
    | (.ok (), t) =>
      match execute stmt t with
      | (.error e, t) => (.error (.runtimeError e), D.closeStatement stmt t)
      | (.ok a, t) => (.ok a, D.closeStatement stmt t)

/-- `executeQuery`; without a connection it has no result. -/
def executeQuery (sql : Bytes) (args : List SqlArg) (c : DbConnection) (t : τ) :
    Option (Except StdException ℕ × τ) :=
  c.conn.map fun conn => prepared D D.executeQuery sql args conn t

/-- `executeUpdate`; without a connection it has no result. -/
def executeUpdate (sql : Bytes) (args : List SqlArg) (c : DbConnection) (t : τ) :
    Option (Except StdException ℤ × τ) :=
  c.conn.map fun conn => prepared D D.executeUpdate sql args conn t

end DbConnection

/-! ## Calls -/

/-- A call of `MysqlUtil::executeQuery` or `MysqlUtil::executeUpdate`. -/
inductive MysqlCall
  | query (sql : Bytes) (args : List SqlArg)
  | update (sql : Bytes) (args : List SqlArg)
  deriving DecidableEq

/-- A result set, by its handle, or the number of rows. -/
inductive MysqlResult
  | rows (handle : ℕ)
  | updated (n : ℤ)
  deriving DecidableEq

/-- What is done on a connection. -/
def MysqlCall.onConnection (D : StatementDriver τ) (c : DbConnection) (t : τ) :
    MysqlCall → Option (Except StdException MysqlResult × τ)
  | .query sql args => (c.executeQuery D sql args t).map fun r => (r.1.map .rows, r.2)
  | .update sql args => (c.executeUpdate D sql args t).map fun r => (r.1.map .updated, r.2)

namespace MysqlUtil

variable (D : StatementDriver τ)

/-- A call, as long as no other thread makes a step. The deleter of the pointer puts the connection
back. -/
def execute (call : MysqlCall) (s : PoolState τ) :
    Option (Except StdException MysqlResult × PoolState τ) :=
  match DbConnectionPool.getConnection D.toMySqlDriver s with
  | none => none
  | some (.error e, s) => some (.error e, s)
  | some (.ok c, s) =>
    (s.created[c]?.bind fun conn => call.onConnection D conn s.driver).map fun r =>
      (r.1, DbConnectionPool.push c { s with driver := r.2 })

/-- Calls one after the other, with what they return or throw. -/
def executeAll : List MysqlCall → PoolState τ →
    Option (List (Except StdException MysqlResult) × PoolState τ)
  | [], s => some ([], s)
  | call :: calls, s =>
    (execute D call s).bind fun r => (executeAll calls r.2).map fun rs => (r.1 :: rs.1, rs.2)

/-! ## Calls use the connections in turn -/

/-- A connection is checked, and reconnected if it is lost. -/
def ready (c : DbConnection) (t : τ) : Option (Except StdException Unit × DbConnection × τ) :=
  (c.ping D.toMySqlDriver t).bind fun
    | (true, t) => some (.ok (), c, t)
    | (false, t) => c.reconnect D.toMySqlDriver t

/-- A call on a given connection, once it is ready. -/
def checked (c : DbConnection) (call : MysqlCall) (t : τ) :
    Option (Except StdException MysqlResult × τ) :=
  (ready D c t).bind fun
    | (.ok (), c, t) => call.onConnection D c t
    | (.error e, _, t) => some (.error e, t)

/-- Calls one after the other, each on the connection that is given for its number. -/
def onEach (conn : ℕ → Option DbConnection) : ℕ → List MysqlCall → τ →
    Option (List (Except StdException MysqlResult) × τ)
  | _, [], t => some ([], t)
  | k, call :: calls, t =>
    ((conn k).bind fun c => checked D c call t).bind fun r =>
      (onEach conn (k + 1) calls r.2).map fun rs => (r.1 :: rs.1, rs.2)

/-- The connections of the queue in turn, from the first. -/
def inTurn (s : PoolState τ) (k : ℕ) : Option DbConnection :=
  s.pool.connections[k % s.pool.connections.length]?.bind fun c => s.created[c]?

variable {D} {s : PoolState τ} {c : ℕ} {rest : List ℕ} {conn : DbConnection} {t : τ}

theorem exists_onConnection (h : conn.conn.isSome) (call : MysqlCall) (t : τ) :
    ∃ answer t', call.onConnection D conn t = some (answer, t') := by
  obtain ⟨handle, hhandle⟩ := Option.isSome_iff_exists.1 h
  cases call with
  | query sql args => simp [MysqlCall.onConnection, DbConnection.executeQuery, hhandle]
  | update sql args => simp [MysqlCall.onConnection, DbConnection.executeUpdate, hhandle]

theorem exists_ready (h : conn.conn.isSome) (t : τ) :
    ∃ r t', ready D conn t = some (r, conn, t') := by
  obtain ⟨alive, t₁, hping⟩ := DbConnection.ping_of_isSome (D := D.toMySqlDriver) h t
  rw [ready, hping]
  cases alive with
  | true => exact ⟨_, _, rfl⟩
  | false => exact DbConnection.reconnect_of_isSome h t₁

/-- What `getConnection` does with the connection it has taken, by what has become of it. -/
def taken (c : ℕ) (s : PoolState τ) :
    Except StdException Unit → Except StdException ℕ × PoolState τ
  | .ok () => (.ok c, s)
  | .error e => (.error e, DbConnectionPool.push c s)

/-- `getConnection` takes the first connection of the queue. -/
theorem getConnection_of_ready (hconn : s.created[c]? = some conn)
    (hq : s.pool.connections = c :: rest) {r : Except StdException Unit}
    (h : ready D conn s.driver = some (r, conn, t)) :
    DbConnectionPool.getConnection D.toMySqlDriver s =
      some (taken c ⟨{ s.pool with connections := rest }, s.created, t⟩ r) := by
  obtain ⟨⟨alive, t₁⟩, hping, h⟩ := Option.bind_eq_some_iff.1 h
  have hpool : DbConnectionPool.ping D.toMySqlDriver c (DbConnectionPool.pop rest s) =
      some (alive, ⟨{ s.pool with connections := rest }, s.created, t₁⟩) := by
    simp [DbConnectionPool.ping, DbConnectionPool.pop, hconn, hping]
  simp only [DbConnectionPool.getConnection, hq, hpool]
  cases alive with
  | true =>
    cases h
    rfl
  | false =>
    have hset : s.created.set c conn = s.created := by
      obtain ⟨hc, rfl⟩ := List.getElem?_eq_some_iff.1 hconn
      exact List.set_getElem_self hc
    have hre : DbConnectionPool.reconnect D.toMySqlDriver c
        ⟨{ s.pool with connections := rest }, s.created, t₁⟩ =
          some (r, ⟨{ s.pool with connections := rest }, s.created, t⟩) := by
      dsimp only at h
      simp [DbConnectionPool.reconnect, hconn, hset, h]
    simp only [hre]
    cases r <;> rfl

/-- **What a call does with the pool**: it is made on the first connection of the queue, which is
the last one behind it, whatever the call throws. -/
theorem execute_of_queue (hconn : s.created[c]? = some conn) (hsome : conn.conn.isSome)
    (hq : s.pool.connections = c :: rest) (call : MysqlCall) :
    ∃ answer t, checked D conn call s.driver = some (answer, t) ∧
      execute D call s = some (answer, { s with
        pool := { s.pool with connections := rest ++ [c] }, driver := t }) := by
  obtain ⟨r, t₁, hready⟩ := exists_ready (D := D) hsome s.driver
  rw [execute, getConnection_of_ready hconn hq hready, checked, hready]
  cases r with
  | error e => exact ⟨.error e, t₁, rfl, rfl⟩
  | ok =>
    obtain ⟨answer, t, hanswer⟩ := exists_onConnection (D := D) hsome call t₁
    refine ⟨answer, t, hanswer, ?_⟩
    simp [taken, DbConnectionPool.push, hconn, hanswer]

/-- Calls from the `k`-th on, when the queue has gone round by `k`. -/
theorem executeAll_of_rotate (hlive : s.Live)
    (hmade : ∀ c ∈ s.pool.connections, c < s.created.length) (hne : s.pool.connections ≠ [])
    (calls : List MysqlCall) (k : ℕ) (t : τ) :
    ∃ answers t', onEach D (inTurn s) k calls t = some (answers, t') ∧
      executeAll D calls
          ⟨{ s.pool with connections := s.pool.connections.rotate k }, s.created, t⟩ =
        some (answers,
          ⟨{ s.pool with connections := s.pool.connections.rotate (k + calls.length) }, s.created,
            t'⟩) := by
  induction calls generalizing k t with
  | nil => exact ⟨[], t, rfl, rfl⟩
  | cons call calls ih =>
    have hrot : s.pool.connections.rotate k ≠ [] := mt List.rotate_eq_nil_iff.1 hne
    obtain ⟨c, rest, hq⟩ := List.exists_cons_of_ne_nil hrot
    have hhead : s.pool.connections[k % s.pool.connections.length]? = some c := by
      have hzero := List.getElem?_rotate (n := k) (List.length_pos_iff.2 hne)
      rw [hq, Nat.zero_add] at hzero
      exact hzero.symm
    have hc := hmade c (List.mem_of_getElem? hhead)
    have hconn : s.created[c]? = some s.created[c] := List.getElem?_eq_getElem hc
    obtain ⟨answer, t₁, hchecked, hexecute⟩ :=
      execute_of_queue (D := D) (s := ⟨{ s.pool with connections := c :: rest }, s.created, t⟩)
        hconn (hlive _ (List.getElem_mem hc)) rfl call
    obtain ⟨answers, t', hon, hall⟩ := ih (k + 1) t₁
    have hturn : inTurn s k = some s.created[c] := by rw [inTurn, hhead, Option.bind_some, hconn]
    have hrotate : s.pool.connections.rotate (k + 1) = rest ++ [c] := by
      rw [← List.rotate_rotate, hq, List.rotate_cons_succ, List.rotate_zero]
    refine ⟨answer :: answers, t', ?_, ?_⟩
    · rw [onEach, hturn, Option.bind_some, hchecked, Option.bind_some, hon]
      rfl
    · rw [hrotate] at hall
      rw [hq, executeAll, hexecute, Option.bind_some, hall, List.length_cons]
      simp only [Option.map_some, Nat.add_assoc, Nat.add_comm 1]

/-- **Calls use the connections in turn.** Behind any run of any threads, calls that no other thread
interrupts give what they give on the connections of the queue, one after the other and round again,
and leave all of them in the queue, whatever they throw. -/
theorem executeAll_eq (hD : D.toMySqlDriver.NeverNull) {T : Type*} [DecidableEq T]
    {s : Borrowers T τ} (h : Reaches (Borrowers.poolSystem D.toMySqlDriver T) Always s)
    (hne : s.pool.connections ≠ []) (calls : List MysqlCall) :
    ∃ answers t, onEach D (inTurn s.toPoolState) 0 calls s.driver = some (answers, t) ∧
      executeAll D calls s.toPoolState = some (answers, { s.toPoolState with
        pool := { s.pool with connections := s.pool.connections.rotate calls.length },
        driver := t }) := by
  have hlive := Borrowers.live_of_reaches hD h
  have hmade : ∀ c ∈ s.pool.connections, c < s.created.length :=
    (Borrowers.allKept_of_reaches h).mem .queue
  obtain ⟨answers, t, hon, hall⟩ := executeAll_of_rotate (D := D) hlive hmade hne calls 0 s.driver
  rw [List.rotate_zero, Nat.zero_add] at hall
  exact ⟨answers, t, hon, hall⟩

/-- A connector whose statements update one row, and whose statements with a parameter throw. -/
def rejecting : StatementDriver (List Bool) where
  toMySqlDriver := DbConnectionPool.refusing
  prepareStatement conn _ t := (.ok conn, t)
  setString _ _ _ t := (.error (bytes "Invalid parameter"), t)
  executeQuery stmt t := (.ok stmt, t)
  executeUpdate _ t := (.ok 1, t)
  closeStatement _ t := t

/-- Three calls, of which the second throws. -/
def threeCalls : List MysqlCall :=
  [.query (bytes "SELECT 1") [], .update (bytes "DELETE FROM t WHERE id = ?") [.number 7],
    .query (bytes "SELECT 1") []]

theorem executeAll_eq_threeCalls : ∃ s : Borrowers Unit (List Bool),
    s.pool.connections = [0, 1] ∧
      executeAll rejecting threeCalls s.toPoolState = some
        ([.ok (.rows 0), .error (.runtimeError (bytes "Invalid parameter")), .ok (.rows 0)],
          { s.toPoolState with pool := { s.pool with connections := [1, 0] } }) := by
  have hinit : Borrowers.next (T := Unit) DbConnectionPool.refusing (Borrowers.new [])
      (.init (DbConnectionPool.callAs (bytes "app"))) = some _ := rfl
  have hreach : Reaches (Borrowers.poolSystem rejecting.toMySqlDriver Unit) Always _ :=
    .step (.init ⟨[], rfl⟩) trivial hinit
  obtain ⟨answers, t, hon, hall⟩ :=
    executeAll_eq Waiters.neverNull_refusing hreach (List.cons_ne_nil 0 [1]) threeCalls
  cases hon
  exact ⟨_, rfl, hall⟩

end MysqlUtil

/-! ## Threads that make such calls -/

namespace Borrowers

variable {T : Type*} [DecidableEq T] {D : MySqlDriver τ} {s s' : Borrowers T τ} {t : T}
  {e : PoolEvent T τ} {c : ℕ}

/-- A thread calls `getConnection` only if it has no pointer, as a call of `MysqlUtil` keeps its own
until it is left. -/
def Modest (s : Borrowers T τ) : PoolEvent T τ → Prop
  | .acquire t => s.loans t = []
  | _ => True

/-- A thread has at most one pointer, and none while it is in `getConnection`. -/
structure OneEach (s : Borrowers T τ) : Prop where
  loans : ∀ t, (s.loans t).length ≤ 1
  outside : ∀ t, s.loans t ≠ [] → ∃ thrown, s.borrower t = .outside thrown

omit [DecidableEq T] in
theorem OneEach.loans_eq_nil (h : s.OneEach) (hb : ∀ thrown, s.borrower t ≠ .outside thrown) :
    s.loans t = [] := by
  by_contra hne
  obtain ⟨thrown, hout⟩ := h.outside t hne
  exact hb thrown hout

omit [DecidableEq T] in
theorem OneEach.congr (h : s.OneEach) (hl : s'.loans = s.loans) (hb : s'.borrower = s.borrower) :
    s'.OneEach :=
  ⟨hl ▸ h.loans, by rw [hl, hb]; exact h.outside⟩

theorem OneEach.move (h : s.OneEach) (ht : s.loans t = []) (b : Borrower) :
    (s.move t b).OneEach := by
  refine ⟨h.loans, fun u hu => ?_⟩
  have hut : u ≠ t := fun heq => hu (heq ▸ ht)
  obtain ⟨thrown, hout⟩ := h.outside u hu
  exact ⟨thrown, (Function.update_of_ne hut _ _).trans hout⟩

theorem OneEach.lend (h : s.OneEach) (ht : s.loans t = []) (c : ℕ) : (s.lend t c).OneEach := by
  constructor <;> intro u
  · by_cases hu : u = t
    · subst hu
      simp [Borrowers.lend, ht]
    · simpa [Borrowers.lend, Function.update_of_ne hu] using h.loans u
  · by_cases hu : u = t
    · subst hu
      exact fun _ => ⟨none, Function.update_self u _ _⟩
    · simpa [Borrowers.lend, Borrowers.move, Function.update_of_ne hu] using h.outside u

theorem OneEach.drop (h : s.OneEach) (t : T) (c : ℕ) :
    ({ s.push c with loans := Function.update s.loans t ((s.loans t).erase c) } :
      Borrowers T τ).OneEach := by
  constructor <;> intro u
  · by_cases hu : u = t
    · subst hu
      simpa using (List.length_erase_le).trans (h.loans u)
    · simpa [Function.update_of_ne hu] using h.loans u
  · by_cases hu : u = t
    · subst hu
      intro hne
      refine h.outside u fun hnil => hne ?_
      simp [hnil]
    · simpa [Borrowers.push, Function.update_of_ne hu] using h.outside u

theorem OneEach.acquire (h : s.OneEach) (ht : s.loans t = []) : (s.acquire t).OneEach := by
  unfold Borrowers.acquire
  split
  · exact (h.move ht _).congr rfl rfl
  · split
    · exact h.move ht _
    · exact h.move ht _

/-- **Threads have at most one connection each**, if they ask for one only when they have none. -/
theorem Step.oneEach (hstep : Step D s e s') (hmodest : s.Modest e) (h : s.OneEach) :
    s'.OneEach := by
  have hin {t : T} {b : Borrower} (hb : s.borrower t = b) (hne : ∀ x, b ≠ .outside x) :
      s.loans t = [] := h.loans_eq_nil fun thrown => hb ▸ hne thrown
  cases hstep with
  | acquire => exact h.acquire hmodest
  | ping hb => exact h.move (hin hb nofun) _
  | alive hb driver => exact (h.lend (hin hb nofun) _).congr rfl rfl
  | lost hb driver => exact (h.move (hin hb nofun) _).congr rfl rfl
  | reconnected hb _ driver => exact (h.lend (hin hb nofun) _).congr rfl rfl
  | failed hb _ driver _ => exact (h.move (hin hb nofun) _).congr rfl rfl
  | giveBack hb => exact (h.move (hin hb nofun) _).congr rfl rfl
  | drop => exact h.drop _ _
  | server => exact h.congr rfl rfl
  | init => exact h.congr rfl rfl
  | sleep => exact h
  | snapshot => exact h.congr rfl rfl
  | done => exact h.congr rfl rfl
  | check => exact h.congr rfl rfl
  | checked => exact h.congr rfl rfl
  | notAlive => exact h.congr rfl rfl
  | rechecked => exact h.congr rfl rfl

omit [DecidableEq T] in
theorem oneEach_new (driver : τ) : (new driver : Borrowers T τ).OneEach :=
  ⟨fun _ => Nat.zero_le 1, fun _ h => absurd rfl h⟩

/-! ## No more threads than connections -/

omit [DecidableEq T] in
/-- The connections that a thread has, in `getConnection` or behind it. -/
def held (s : Borrowers T τ) (t : T) : List ℕ := (s.borrower t).connection.toList ++ s.loans t

omit [DecidableEq T] in
theorem OneEach.eq_of_mem_held (h : s.OneEach) {c' : ℕ} (hc : c ∈ s.held t) (hc' : c' ∈ s.held t) :
    c = c' := by
  have hlength : (s.held t).length ≤ 1 := by
    by_cases hnil : s.loans t = []
    · rw [held, hnil, List.append_nil]
      exact Option.length_toList_le
    · obtain ⟨thrown, hout⟩ := h.outside t hnil
      rw [held, hout]
      exact h.loans t
  obtain ⟨i, hi, rfl⟩ := List.getElem_of_mem hc
  obtain ⟨j, hj, rfl⟩ := List.getElem_of_mem hc'
  congr 1
  omega

omit [DecidableEq T] in
/-- **If the queue is empty**, the connections are with other threads than one that has none, and
each with another one. -/
theorem OneEach.length_lt_card [Fintype T] (h : s.OneEach) (hkept : AllKept s)
    (hq : s.pool.connections = []) (ht : s.held t = []) : s.created.length < Fintype.card T := by
  have hheld : ∀ c : Fin s.created.length, ∃ u, c.1 ∈ s.held u := by
    intro c
    obtain ⟨_ | u | u, hmem⟩ := (hkept.kept c.1 c.2).exists_mem
    · rw [custody_queue, hq] at hmem
      cases hmem
    · exact ⟨u, List.mem_append_left _ hmem⟩
    · exact ⟨u, List.mem_append_right _ hmem⟩
  choose holder hholder using hheld
  have hinj : Function.Injective holder := fun c c' heq =>
    Fin.ext (h.eq_of_mem_held (hholder c) (heq ▸ hholder c'))
  have hnot : t ∉ Set.range holder := by
    rintro ⟨c, rfl⟩
    have hmem := hholder c
    rw [ht] at hmem
    cases hmem
  simpa using Fintype.card_lt_of_injective_of_notMem holder hinj hnot

/-- If a thread waits, there are more threads than connections. -/
def Crowded [Fintype T] (s : Borrowers T τ) : Prop :=
  ∀ t, s.borrower t = .waiting →
    s.pool.initialized = true ∧ s.created.length < Fintype.card T

theorem created_acquire (s : Borrowers T τ) (t : T) :
    (s.acquire t).created = s.created ∧ (s.acquire t).pool.initialized = s.pool.initialized := by
  unfold acquire
  split
  · exact ⟨rfl, rfl⟩
  · split <;> exact ⟨rfl, rfl⟩

/-- Behind `init`, no connections are made. -/
theorem Step.length_created (h : Step D s e s') (hi : s.pool.initialized = true) :
    s'.created.length = s.created.length := by
  cases h with
  | init call =>
    have hinit : (DbConnectionPool.init D call s.toPoolState).2 = s.toPoolState := by
      rw [DbConnectionPool.init, if_pos hi]
    show (DbConnectionPool.init D call s.toPoolState).2.created.length = _
    rw [hinit]
  | @acquire t hb => rw [(created_acquire s t).1]
  | reconnected _ hcreated _ => exact hcreated
  | failed _ hcreated _ _ => exact hcreated
  | rechecked _ hcreated _ => exact hcreated
  | _ => rfl

theorem crowded_acquire [Fintype T] (hkept : AllKept s) (h : s.OneEach) (hs : s.Crowded)
    (hb : (s.borrower t).connection = none) (ht : s.loans t = []) : (s.acquire t).Crowded := by
  intro u hu
  rw [(created_acquire s t).1, (created_acquire s t).2]
  by_cases hut : u = t
  · subst hut
    unfold acquire at hu
    split at hu
    · simp [move] at hu
    · rename_i hq
      split at hu
      · rename_i hi
        exact ⟨hi, h.length_lt_card hkept hq (by rw [held, hb, ht]; rfl)⟩
      · simp [move] at hu
  · refine hs u ?_
    rw [← hu]
    unfold acquire
    split
    · exact (Function.update_of_ne hut _ _).symm
    · split <;> exact (Function.update_of_ne hut _ _).symm

/-- The invariant of runs in which threads have at most one connection each. -/
structure Shared [Fintype T] (s : Borrowers T τ) : Prop where
  kept : AllKept s
  oneEach : s.OneEach
  crowded : s.Crowded

theorem Shared.next [Fintype T] (h : s.Shared) (hmodest : s.Modest e)
    (hnext : s.next D e = some s') : s'.Shared := by
  have hstep := step_of_next hnext
  refine ⟨hstep.effect.allKept h.kept, hstep.oneEach hmodest h.oneEach, ?_⟩
  by_cases he : ∃ t, e = .acquire t
  · obtain ⟨t, rfl⟩ := he
    cases hstep with
    | acquire hb => exact crowded_acquire h.kept h.oneEach h.crowded hb hmodest
  · -- the same threads wait as before, and the pool has been initialised if one does
    have hwait : ∀ t, s'.borrower t = .waiting ↔ s.borrower t = .waiting := by
      rcases Waiters.putsBack_or_undisturbed hnext fun t ht => he ⟨t, ht⟩ with
        ⟨-, hs⟩ | ⟨-, hs⟩
      · exact hs.waiting
      · exact hs.waiting
    have hinit (hi : s.pool.initialized = true) : s'.pool.initialized = true := by
      rcases Waiters.putsBack_or_undisturbed hnext fun t ht => he ⟨t, ht⟩ with
        ⟨-, hs⟩ | ⟨-, hs⟩
      · exact hs.initialized.trans hi
      · exact hs.initialized hi
    intro t ht
    obtain ⟨hi, hlt⟩ := h.crowded t ((hwait t).1 ht)
    exact ⟨hinit hi, hstep.length_created hi ▸ hlt⟩

theorem shared_of_reaches [Fintype T] (h : Reaches (poolSystem D T) Modest s) : s.Shared := by
  refine h.invariant ?_ fun s e s' hs hmodest hstep => hs.next hmodest hstep
  rintro s ⟨driver, rfl⟩
  exact ⟨allKept_new driver, oneEach_new driver, nofun⟩

/-- **With no more threads than connections, no thread ever waits**, in any run in which a thread
asks for a connection only when it has none. -/
theorem never_waiting [Fintype T] (h : Reaches (poolSystem D T) Modest s)
    (hT : Fintype.card T ≤ s.created.length) (t : T) : s.borrower t ≠ .waiting := by
  intro ht
  have hlt := ((shared_of_reaches h).crowded t ht).2
  omega

/-- Two threads take the connections of a pool of two, the second after the first. -/
def takingBoth : List (PoolEvent (Fin 2) (List Bool)) :=
  [.init (DbConnectionPool.callAs (bytes "app")), .acquire ⟨0, by decide⟩, .ping ⟨0, by decide⟩,
    .pinged ⟨0, by decide⟩, .acquire ⟨1, by decide⟩]

theorem never_waiting_takingBoth : ∃ s : Borrowers (Fin 2) (List Bool),
    Reaches (poolSystem DbConnectionPool.refusing (Fin 2)) Modest s ∧
      s.pool.connections = [] ∧ ∀ t, s.borrower t ≠ .waiting := by
  have hruns : Runs (fun s e => s.Modest e ∧ (s.next DbConnectionPool.refusing e).isSome)
      (fun s e => (s.next DbConnectionPool.refusing e).getD s) (new []) takingBoth :=
    ⟨⟨trivial, rfl⟩, ⟨rfl, rfl⟩, ⟨trivial, rfl⟩, ⟨trivial, rfl⟩, ⟨rfl, rfl⟩, trivial⟩
  have hreach : Reaches (poolSystem DbConnectionPool.refusing (Fin 2)) Modest _ :=
    .of_runs_option (fun _ _ _ h => h) (.init ⟨[], rfl⟩) hruns
  exact ⟨_, hreach, rfl, never_waiting hreach (by decide)⟩

end Borrowers

/-! ## More threads than connections -/

namespace Waiters

variable {T : Type*} [DecidableEq T] {D : MySqlDriver τ} {s s' : Waiters T τ} {t : T}
  {w : WaitEvent T τ}

omit [DecidableEq T] in
/-- The threads call `getConnection` only if they have no pointer. -/
def Modest (s : Waiters T τ) : WaitEvent T τ → Prop
  | .pool e _ => s.toBorrowers.Modest e
  | .wake _ => True

theorem oneEach_of_next (h : s.toBorrowers.OneEach) (hmodest : s.Modest w)
    (hstep : s.next D w = some s') : s'.toBorrowers.OneEach := by
  rcases next_toBorrowers hstep with heq | ⟨e, notified, rfl, he⟩
  · rwa [heq]
  · exact (Borrowers.step_of_next he).oneEach hmodest h

omit [DecidableEq T] in
/-- A thread that waits has no pointer. -/
theorem modest_of_byThread (h : s.toBorrowers.OneEach) (hw : ByThread s w) : s.Modest w := by
  unfold ByThread at hw
  split at hw
  · exact h.loans_eq_nil fun thrown hout => by rw [hw] at hout; cases hout
  all_goals trivial

/-- **With any number of threads, one that waits can still get a connection**, by steps of threads
that ask for a connection only when they have none, in any run of such threads. -/
theorem gets_of_modest (hD : D.NeverNull) (h : Reaches (waitSystem D T) Modest s)
    (hmade : s.created ≠ []) (ht : s.borrower t = .waiting) :
    ∃ s' c, Reaches ((waitSystem D T).startAt s) (fun s w => ByThread s w ∧ Modest s w) s' ∧
      s'.borrower t = .taken c := by
  have hone : s.toBorrowers.OneEach := by
    refine h.invariant (I := fun s => s.toBorrowers.OneEach) ?_
      fun s w s' hs hmodest hstep => oneEach_of_next hs hmodest hstep
    rintro s ⟨driver, rfl⟩
    exact Borrowers.oneEach_new driver
  have hs : ¬ s.toBorrowers.Starved := by
    intro hstarved
    obtain ⟨u, hmem, hu⟩ := hstarved 0 (List.length_pos_iff.2 hmade)
    obtain ⟨thrown, hout⟩ := hone.outside u (List.ne_nil_of_mem hmem)
    rw [hu] at hout
    cases hout
  obtain ⟨s', c, hreach, hc⟩ := gets_of_not_starved hD h ht hs
  refine ⟨s', c, hreach.mono_of_invariant (I := fun s => s.toBorrowers.OneEach) ?_ ?_ ?_, hc⟩
  · rintro s rfl
    exact hone
  · exact fun s w s' hs hw hstep => oneEach_of_next hs (modest_of_byThread hs hw) hstep
  · exact fun s w hs hw => ⟨hw, modest_of_byThread hs hw⟩

/-- A pool of two connections, which two threads take before a third one asks for one. -/
def takingMore : List (WaitEvent ℕ (List Bool)) :=
  [.init (DbConnectionPool.callAs (bytes "app")), .acquire 0, .ping 0, .pinged 0, .acquire 1,
    .acquire 2].map fun e => .pool e none

theorem gets_of_modest_takingMore : ∃ s : Waiters ℕ (List Bool),
    s.pool.connections = [] ∧ s.borrower 2 = .waiting ∧
      ∃ s' c, Reaches ((waitSystem DbConnectionPool.refusing ℕ).startAt s)
          (fun s w => ByThread s w ∧ Modest s w) s' ∧ s'.borrower 2 = .taken c := by
  have hruns : Runs (fun s w => Modest s w ∧ (s.next DbConnectionPool.refusing w).isSome)
      (fun s w => (s.next DbConnectionPool.refusing w).getD s) (new []) takingMore :=
    ⟨⟨trivial, rfl⟩, ⟨rfl, rfl⟩, ⟨trivial, rfl⟩, ⟨trivial, rfl⟩, ⟨rfl, rfl⟩, ⟨rfl, rfl⟩, trivial⟩
  have hreach : Reaches (waitSystem DbConnectionPool.refusing ℕ) Modest _ :=
    .of_runs_option (fun _ _ _ h => h) (.init ⟨[], rfl⟩) hruns
  exact ⟨_, rfl, rfl, gets_of_modest neverNull_refusing hreach (List.cons_ne_nil _ _) rfl⟩

end Waiters

end KamaHttp
