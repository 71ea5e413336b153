import KamaHttp.App.StoreContract

/-!
# The client of Redis

`RedisClient.h` and `RedisStore.h`. The client keeps a connection for each thread, opens it with the
first command and opens it once more when a command has no reply. The library behind it, `hiredis`,
is a parameter: what it answers may depend on anything that happens outside.

* `get_raises_iff`, `cmd_raises_iff`: a command throws exactly if the thread needs a connection, for
  the first time or once more, and none can be opened.
-/

namespace KamaHttp

/-- The call throws. -/
def Raises {ε β : Type*} (x : Except ε β) : Prop := ∃ e, x = .error e

theorem raises_error {ε β : Type*} (e : ε) : Raises (.error e : Except ε β) := ⟨e, rfl⟩

theorem not_raises_ok {ε β : Type*} (b : β) : ¬ Raises (.ok b : Except ε β) := fun ⟨_, h⟩ => by
  cases h

/-- The replies of the server. -/
inductive RedisReply
  | string (str : Bytes)
  | status (str : Bytes)
  | error (str : Bytes)
  | integer (n : ℤ)
  | nil
  deriving DecidableEq

/-- A connection, `redisContext`. -/
structure RedisContext where
  err : ℤ
  errstr : Bytes
  deriving DecidableEq

/-- The functions of `hiredis` that the client calls. -/
structure Hiredis (ρ : Type*) where
  /-- `redisConnectWithTimeout` with host, port, seconds and microseconds; it may return null. -/
  connectWithTimeout : Bytes → ℤ → ℤ → ℤ → ρ → Option RedisContext × ρ
  /-- `redisvCommand` with the arguments of the command; it returns null when there is no reply. -/
  command : RedisContext → List Bytes → ρ → Option RedisReply × ρ
  /-- `redisFree`. -/
  free : RedisContext → ρ → ρ

/-- `RedisClient`, without the connections. -/
structure RedisClient where
  host : Bytes
  port : ℤ
  sec : ℤ
  usec : ℤ

/-- The connection `tls_ctx_` of the thread, and what is outside. -/
structure RedisConn (ρ : Type*) where
  ctx : Option RedisContext
  env : ρ

namespace RedisClient

/-- `RedisClient(host, port, timeout_ms)`. -/
def new (host : Bytes) (port timeoutMs : ℤ) : RedisClient :=
  ⟨host, port, timeoutMs.tdiv 1000, timeoutMs.tmod 1000 * 1000⟩

variable {ρ : Type*} (H : Hiredis ρ) (c : RedisClient)

/-- `get`: the connection of the thread. One that could not be opened stays behind with its
error. -/
def get (s : RedisConn ρ) : Except StdException RedisContext × RedisConn ρ :=
  match s.ctx with
  | some ctx => (.ok ctx, s)
  | none =>
    match H.connectWithTimeout c.host c.port c.sec c.usec s.env with
    | (none, env) => (.error (.runtimeError (bytes "redis connect failed: no ctx")), ⟨none, env⟩)
    | (some ctx, env) =>
      if ctx.err ≠ 0 then
        (.error (.runtimeError (bytes "redis connect failed: " ++ ctx.errstr)), ⟨some ctx, env⟩)
      else (.ok ctx, ⟨some ctx, env⟩)

/-- `cmd`, with the arguments that the format makes. -/
def cmd (args : List Bytes) (s : RedisConn ρ) :
    Except StdException (Option RedisReply) × RedisConn ρ :=
  match get H c s with
  | (.error e, s) => (.error e, s)
  | (.ok ctx, s) =>
    match H.command ctx args s.env with
    | (some r, env) => (.ok (some r), { s with env })
    | (none, env) =>
      -- the connection is gone: it is opened once more
      match get H c ⟨none, H.free ctx env⟩ with
      | (.error e, s) => (.error e, s)
      | (.ok ctx, s) =>
        match H.command ctx args s.env with
        | (r, env) => (.ok r, { s with env })

/-! ### When a command throws -/

/-- No connection can be opened: the library has none, or one with an error. -/
def ConnectFails (env : ρ) : Prop :=
  ∀ ctx, (H.connectWithTimeout c.host c.port c.sec c.usec env).1 = some ctx → ctx.err ≠ 0

variable {H c} {s : RedisConn ρ}

theorem get_raises_iff : Raises (get H c s).1 ↔ s.ctx = none ∧ ConnectFails H c s.env := by
  obtain ⟨_ | ctx, env⟩ := s
  · rcases hc : H.connectWithTimeout c.host c.port c.sec c.usec env with ⟨_ | ctx, env'⟩
    · simp [get, ConnectFails, hc, raises_error]
    · by_cases herr : ctx.err = 0
      · simp [get, ConnectFails, hc, herr, not_raises_ok]
      · simp [get, ConnectFails, hc, herr, raises_error]
  · simp [get, not_raises_ok]

/-- **A command throws exactly if a connection it needs cannot be opened**: the first one, or the
one that replaces a connection on which there was no reply. -/
theorem cmd_raises_iff {args : List Bytes} : Raises (cmd H c args s).1 ↔
    Raises (get H c s).1 ∨ ∃ ctx, (get H c s).1 = .ok ctx ∧
      (H.command ctx args (get H c s).2.env).1 = none ∧
      ConnectFails H c (H.free ctx (H.command ctx args (get H c s).2.env).2) := by
  rcases hget : get H c s with ⟨e | ctx, s₁⟩
  · simp [cmd, hget, raises_error]
  · rcases hcmd : H.command ctx args s₁.env with ⟨_ | r, env⟩
    · have hagain := get_raises_iff (H := H) (c := c) (s := ⟨none, H.free ctx env⟩)
      rcases hget₂ : get H c ⟨none, H.free ctx env⟩ with ⟨e | ctx₂, s₂⟩
      · rw [hget₂] at hagain
        simp [cmd, hget, hcmd, hget₂, raises_error, (hagain.1 (raises_error e)).2]
      · rw [hget₂] at hagain
        have hopen : ¬ ConnectFails H c (H.free ctx env) := fun h =>
          not_raises_ok _ (hagain.2 ⟨rfl, h⟩)
        simp [cmd, hget, hcmd, hget₂, not_raises_ok, hopen]
    · simp [cmd, hget, hcmd, not_raises_ok]

/-- A piece of a format, between white space, with the argument it takes. -/
inductive Piece
  | literal (text : String)
  | s (str : Bytes)
  | b (data : Bytes)
  | d (n : ℤ)

/-- The argument a piece becomes; `%s` takes a C string. -/
def Piece.arg : Piece → Bytes
  | .literal text => bytes text
  | .s str => cStr str
  | .b data => data
  | .d n => decimal n

end RedisClient

/-! ## The store on the client -/

namespace RedisStore

open RedisClient

/-- The option of `SET` for a time to live. -/
def expiryOption (ttlSec : ℤ) : List Piece :=
  [.s (if 0 < ttlSec then bytes "EX" else []), .d (if 0 < ttlSec then ttlSec else 0)]

variable (keyPrefix key value : Bytes) (ttlSec : ℤ)

/-- The command of `get`, `"GET %s"`. -/
def getCommand : List Piece := [.literal "GET", .s (keyPrefix ++ key)]

/-- The command of `setNX`, `"SET %s %b NX %s %d"`. -/
def setNXCommand : List Piece :=
  [.literal "SET", .s (keyPrefix ++ key), .b value, .literal "NX"] ++ expiryOption ttlSec

/-- The command of `set`, `"SET %s %b %s %d"`. -/
def setCommand : List Piece :=
  [.literal "SET", .s (keyPrefix ++ key), .b value] ++ expiryOption ttlSec

/-- The command of `del`, `"DEL %s"`. -/
def delCommand : List Piece := [.literal "DEL", .s (keyPrefix ++ key)]

/-- The value in a reply to `GET`. -/
def found : Option RedisReply → Option Bytes
  | some (.string str) => some str
  | _ => none

/-- Whether the reply says that the value was stored. -/
def stored (r : Option RedisReply) : Bool := r == some (.status (bytes "OK"))

end RedisStore

open RedisStore in
/-- `RedisStore`, with the prefix of its keys, on a function that performs commands. -/
def redisStore {κ : Type*} (keyPrefix : Bytes)
    (cmd : List Bytes → κ → Except StdException (Option RedisReply) × κ) : IStore κ where
  get key s :=
    let r := cmd ((getCommand keyPrefix key).map (·.arg)) s
    (r.1.map found, r.2)
  setNX key value ttlSec s :=
    let r := cmd ((setNXCommand keyPrefix key value ttlSec).map (·.arg)) s
    (r.1.map stored, r.2)
  set key value ttlSec s :=
    let r := cmd ((setCommand keyPrefix key value ttlSec).map (·.arg)) s
    (r.1.map fun _ => (), r.2)
  del key s :=
    let r := cmd ((delCommand keyPrefix key).map (·.arg)) s
    (r.1.map fun _ => (), r.2)

end KamaHttp
