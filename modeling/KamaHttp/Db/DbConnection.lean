import KamaHttp.Foundations.Bytes

/-!
# Connections to the database

`DbConnection.cpp`: the constructor, `ping` and `reconnect`. The MySQL connector is a parameter: its
calls return or throw an `SQLException`, which is given by its text.

* `params_of_new`: a connection is made with the parameters it is given.
-/

namespace KamaHttp

/-- The calls of a `sql::Connection` and of its statements. -/
inductive SqlCall
  | setSchema (database : Bytes)
  | setClientOption (option value : Bytes)
  | createStatement
  | execute (sql : Bytes)
  | executeQuery (sql : Bytes)
  | reconnect
  deriving DecidableEq

/-- The MySQL connector, with its states. `connect` returns the handle of a connection, which may be
null. -/
structure MySqlDriver (τ : Type*) where
  connect (host user password : Bytes) : τ → Except Bytes (Option ℕ) × τ
  call (conn : ℕ) (c : SqlCall) : τ → Except Bytes Unit × τ
  /-- The destructor of `sql::Connection`. -/
  close (conn : ℕ) : τ → τ

/-- The parameters of a connection. -/
structure DbParams where
  host : Bytes
  user : Bytes
  password : Bytes
  database : Bytes
  deriving DecidableEq

structure DbConnection extends DbParams where
  conn : Option ℕ
  deriving DecidableEq

variable {τ : Type*}

/-- Calls on a connection, one after the other, up to the first that throws. -/
def MySqlDriver.calls (D : MySqlDriver τ) (conn : ℕ) : List SqlCall → τ → Except Bytes Unit × τ
  | [], t => (.ok (), t)
  | c :: cs, t =>
    match D.call conn c t with
    | (.ok (), t) => MySqlDriver.calls D conn cs t
    | (.error e, t) => (.error e, t)

namespace DbConnection

variable (D : MySqlDriver τ)

/-- What the constructor calls on a connection that is not null. -/
def configuration (p : DbParams) : List SqlCall :=
  [.setSchema p.database, .setClientOption (bytes "OPT_RECONNECT") (bytes "true"),
    .setClientOption (bytes "OPT_CONNECT_TIMEOUT") (bytes "10"),
    .setClientOption (bytes "multi_statements") (bytes "false"), .createStatement,
    .execute (bytes "SET NAMES utf8mb4")]

/-- The constructor. An `SQLException` is thrown on as a `DbException`, and the connection that was
made is destroyed. -/
def new (p : DbParams) (t : τ) : Except StdException DbConnection × τ :=
  match D.connect p.host p.user p.password t with
  | (.error e, t) => (.error (.runtimeError e), t)
  | (.ok none, t) => (.ok { p with conn := none }, t)
  | (.ok (some conn), t) =>
    match D.calls conn (configuration p) t with
    | (.error e, t) => (.error (.runtimeError e), D.close conn t)
    | (.ok (), t) => (.ok { p with conn := some conn }, t)

/-- `ping`; without a connection it has no result. -/
def ping (c : DbConnection) (t : τ) : Option (Bool × τ) :=
  c.conn.map fun conn =>
    match D.calls conn [.createStatement, .executeQuery (bytes "SELECT 1")] t with
    | (.ok (), t) => (true, t)
    | (.error _, t) => (false, t)

/-- `reconnect`, which calls the new connection even if it is null. -/
def reconnect (c : DbConnection) (t : τ) :
    Option (Except StdException Unit × DbConnection × τ) :=
  match c.conn with
  | some conn =>
    match D.call conn .reconnect t with
    | (.ok (), t) => some (.ok (), c, t)
    | (.error e, t) => some (.error (.runtimeError e), c, t)
  | none =>
    match D.connect c.host c.user c.password t with
    | (.error e, t) => some (.error (.runtimeError e), c, t)
    | (.ok none, _) => none
    | (.ok (some conn), t) =>
      match D.call conn (.setSchema c.database) t with
      | (.ok (), t) => some (.ok (), { c with conn := some conn }, t)
      | (.error e, t) => some (.error (.runtimeError e), { c with conn := some conn }, t)

variable {D} {p : DbParams} {t t' : τ} {c : DbConnection}

theorem params_of_new (h : new D p t = (.ok c, t')) : c.toDbParams = p := by
  unfold new at h
  split at h
  · cases h
  · cases h
    rfl
  · split at h
    · cases h
    · cases h
      rfl

end DbConnection

end KamaHttp
