import KamaHttp.App.RedisClient

/-!
# Redis, and the store on it

What the server does with the commands the store sends, as documented: `GET`, `DEL`, and `SET` with
the options `NX` and `EX n`; with any other option `SET` is an error and changes nothing. The server
can be reached and replies to every command.

* `get_eq`, `setNX_eq`, `set_eq`, `del_eq`: what an operation of the store does to the data of the
  server.
* `answers_eq_of_timed`: the store answers as the reference in the runs in which every entry is
  given a time to live.
-/

namespace KamaHttp

/-- The data of the server. -/
abbrev RedisData := TtlMap Bytes Bytes

namespace RedisServer

/-- The number of seconds of the option `EX`. -/
def seconds (s : Bytes) : Option ℕ :=
  if s ≠ [] ∧ s.all isdigit ∧ 0 < digitsVal s then some (digitsVal s) else none

/-- The options of `SET`: whether `NX` is among them, and the time to live, zero without `EX`. -/
def setOptions : List Bytes → Option (Bool × ℤ)
  | [] => some (false, 0)
  | [x] => if x = bytes "NX" then some (true, 0) else none
  | x :: y :: rest =>
    if x = bytes "NX" then (setOptions (y :: rest)).map fun o => (true, o.2)
    else if x = bytes "EX" then
      (seconds y).bind fun n => (setOptions rest).map fun o => (o.1, (n : ℤ))
    else none

/-- One command. -/
def exec (args : List Bytes) (db : RedisData) : RedisReply × RedisData :=
  match args with
  | [cmd, key] =>
    if cmd = bytes "GET" then
      (match db.get key with
        | some v => .string v
        | none => .nil, db)
    else if cmd = bytes "DEL" then
      (.integer (if (db.get key).isSome then 1 else 0), db.del key)
    else (.error (bytes "ERR unknown command or wrong number of arguments"), db)
  | cmd :: key :: value :: options =>
    if cmd = bytes "SET" then
      match setOptions options with
      | none => (.error (bytes "ERR syntax error"), db)
      | some (true, ttl) =>
        (if (db.setNX key value ttl).1 then .status (bytes "OK") else .nil,
          (db.setNX key value ttl).2)
      | some (false, ttl) => (.status (bytes "OK"), db.set key value ttl)
    else (.error (bytes "ERR unknown command or wrong number of arguments"), db)
  | _ => (.error (bytes "ERR unknown command or wrong number of arguments"), db)

theorem seconds_decimal {n : ℕ} (h : 0 < n) : seconds (decimal n) = some n := by
  obtain ⟨hval, hne, hall⟩ := digitsVal_decimal n
  rw [seconds, hval, if_pos ⟨hne, List.all_eq_true.2 hall, h⟩]

end RedisServer

/-- The library, when the server can be reached and replies to every command. -/
def reachable : Hiredis RedisData where
  connectWithTimeout _ _ _ _ db := (some ⟨0, []⟩, db)
  command _ args db := (some (RedisServer.exec args db).1, (RedisServer.exec args db).2)
  free _ db := db

/-- A thread whose store has a server that can be reached. -/
abbrev RedisWorld := RedisConn RedisData

namespace RedisStore

open RedisServer

variable (c : RedisClient) (keyPrefix : Bytes)

/-- The store on a server that can be reached. -/
def onServer : IStore RedisWorld := redisStore keyPrefix (c.cmd reachable)

/-- The key as the server gets it. -/
def wireKey (key : Bytes) : Bytes := cStr (keyPrefix ++ key)

/-- A command is performed on the data, and the thread has a connection then. -/
theorem cmd_reachable (args : List Bytes) (s : RedisWorld) :
    ∃ ctx, c.cmd reachable args s =
      (.ok (some (exec args s.env).1), ⟨ctx, (exec args s.env).2⟩) := by
  obtain ⟨_ | ctx, db⟩ := s
  · exact ⟨some ⟨0, []⟩, rfl⟩
  · exact ⟨some ctx, rfl⟩

/-! ## What the operations do to the data -/

theorem setOptions_expiry {ttlSec : ℤ} (h : 0 < ttlSec) :
    setOptions ((expiryOption ttlSec).map (·.arg)) = some (false, ttlSec) := by
  obtain ⟨n, rfl⟩ := Int.eq_ofNat_of_zero_le h.le
  have hn : 0 < n := by omega
  have hex : cStr (bytes "EX") = bytes "EX" := by decide
  have hne : bytes "EX" ≠ bytes "NX" := by decide
  simp only [expiryOption, if_pos h, List.map_cons, List.map_nil, RedisClient.Piece.arg, hex,
    setOptions, if_neg hne, if_true, seconds_decimal hn]
  rfl

/-- Without a time to live, the option is an empty argument, and no option of the server. -/
theorem setOptions_no_expiry {ttlSec : ℤ} (h : ¬ 0 < ttlSec) :
    setOptions ((expiryOption ttlSec).map (·.arg)) = none := by
  have hnil : cStr ([] : Bytes) = [] := rfl
  have hnx : ([] : Bytes) ≠ bytes "NX" := by decide
  have hex : ([] : Bytes) ≠ bytes "EX" := by decide
  simp only [expiryOption, if_neg h, List.map_cons, List.map_nil, RedisClient.Piece.arg, hnil,
    setOptions, if_neg hnx, if_neg hex]

theorem setOptions_nx (options : List Bytes) :
    setOptions (bytes "NX" :: options) = (setOptions options).map fun o => (true, o.2) := by
  cases options with
  | nil => rfl
  | cons x rest => simp [setOptions]

theorem exec_set (key value : Bytes) (options : List Bytes) (db : RedisData) :
    exec (bytes "SET" :: key :: value :: options) db =
      match setOptions options with
      | none => (.error (bytes "ERR syntax error"), db)
      | some (true, ttl) =>
        (if (db.setNX key value ttl).1 then .status (bytes "OK") else .nil,
          (db.setNX key value ttl).2)
      | some (false, ttl) => (.status (bytes "OK"), db.set key value ttl) := by
  rw [exec, if_pos rfl]

variable (key value : Bytes) {ttlSec : ℤ} (s : RedisWorld)

theorem get_eq : ∃ ctx, (onServer c keyPrefix).get key s =
    (.ok (s.env.get (wireKey keyPrefix key)), ⟨ctx, s.env⟩) := by
  obtain ⟨ctx, h⟩ := cmd_reachable c [bytes "GET", wireKey keyPrefix key] s
  have hget : (onServer c keyPrefix).get key s = (fun r => (r.1.map found, r.2))
      (c.cmd reachable [bytes "GET", wireKey keyPrefix key] s) := rfl
  refine ⟨ctx, ?_⟩
  rw [hget, h]
  cases hk : s.env.get (wireKey keyPrefix key) <;> simp [exec, hk, found, Except.map]

theorem del_eq : ∃ ctx, (onServer c keyPrefix).del key s =
    (.ok (), ⟨ctx, s.env.del (wireKey keyPrefix key)⟩) := by
  obtain ⟨ctx, h⟩ := cmd_reachable c [bytes "DEL", wireKey keyPrefix key] s
  have hdel : (onServer c keyPrefix).del key s = (fun r => (r.1.map fun _ => (), r.2))
      (c.cmd reachable [bytes "DEL", wireKey keyPrefix key] s) := rfl
  have hget : bytes "DEL" ≠ bytes "GET" := by decide
  refine ⟨ctx, ?_⟩
  rw [hdel, h]
  simp [exec, hget, Except.map]

/-- The command of `set`, on the server. -/
theorem set_eq_exec (ttlSec : ℤ) : ∃ ctx, (onServer c keyPrefix).set key value ttlSec s =
    (.ok (), ⟨ctx, (exec (bytes "SET" :: wireKey keyPrefix key :: value ::
      (expiryOption ttlSec).map (·.arg)) s.env).2⟩) := by
  obtain ⟨ctx, h⟩ := cmd_reachable c
    (bytes "SET" :: wireKey keyPrefix key :: value :: (expiryOption ttlSec).map (·.arg)) s
  have hset : (onServer c keyPrefix).set key value ttlSec s = (fun r => (r.1.map fun _ => (), r.2))
      (c.cmd reachable (bytes "SET" :: wireKey keyPrefix key :: value ::
        (expiryOption ttlSec).map (·.arg)) s) := rfl
  refine ⟨ctx, ?_⟩
  rw [hset, h]
  rfl

/-- The command of `setNX`, on the server. -/
theorem setNX_eq_exec (ttlSec : ℤ) : ∃ ctx, (onServer c keyPrefix).setNX key value ttlSec s =
    (.ok (stored (some (exec (bytes "SET" :: wireKey keyPrefix key :: value :: bytes "NX" ::
      (expiryOption ttlSec).map (·.arg)) s.env).1)),
      ⟨ctx, (exec (bytes "SET" :: wireKey keyPrefix key :: value :: bytes "NX" ::
        (expiryOption ttlSec).map (·.arg)) s.env).2⟩) := by
  obtain ⟨ctx, h⟩ := cmd_reachable c (bytes "SET" :: wireKey keyPrefix key :: value ::
    bytes "NX" :: (expiryOption ttlSec).map (·.arg)) s
  have hset : (onServer c keyPrefix).setNX key value ttlSec s = (fun r => (r.1.map stored, r.2))
      (c.cmd reachable (bytes "SET" :: wireKey keyPrefix key :: value :: bytes "NX" ::
        (expiryOption ttlSec).map (·.arg)) s) := rfl
  refine ⟨ctx, ?_⟩
  rw [hset, h]
  rfl

/-- `set` with a time to live stores the value. -/
theorem set_eq (h : 0 < ttlSec) : ∃ ctx, (onServer c keyPrefix).set key value ttlSec s =
    (.ok (), ⟨ctx, s.env.set (wireKey keyPrefix key) value ttlSec⟩) := by
  obtain ⟨ctx, hset⟩ := set_eq_exec c keyPrefix key value s ttlSec
  exact ⟨ctx, by rw [hset, exec_set, setOptions_expiry h]⟩

/-- `set` without a time to live stores nothing. -/
theorem set_eq_of_no_ttl (h : ¬ 0 < ttlSec) :
    ∃ ctx, (onServer c keyPrefix).set key value ttlSec s = (.ok (), ⟨ctx, s.env⟩) := by
  obtain ⟨ctx, hset⟩ := set_eq_exec c keyPrefix key value s ttlSec
  exact ⟨ctx, by rw [hset, exec_set, setOptions_no_expiry h]⟩

/-- What `set` makes of the data, with or without a time to live. -/
def setData (db : RedisData) (wire value : Bytes) (ttlSec : ℤ) : RedisData :=
  if 0 < ttlSec then db.set wire value ttlSec else db

@[simp] theorem now_setData (db : RedisData) (wire value : Bytes) (ttlSec : ℤ) :
    (setData db wire value ttlSec).now = db.now := by
  unfold setData
  split <;> rfl

theorem set_eq_setData (ttlSec : ℤ) : ∃ ctx, (onServer c keyPrefix).set key value ttlSec s =
    (.ok (), ⟨ctx, setData s.env (wireKey keyPrefix key) value ttlSec⟩) := by
  unfold setData
  split
  · rename_i h
    exact set_eq c keyPrefix key value s h
  · rename_i h
    exact set_eq_of_no_ttl c keyPrefix key value s h

/-- `setNX` with a time to live stores the value if the key has none. -/
theorem setNX_eq (h : 0 < ttlSec) : ∃ ctx, (onServer c keyPrefix).setNX key value ttlSec s =
    (.ok (s.env.setNX (wireKey keyPrefix key) value ttlSec).1,
      ⟨ctx, (s.env.setNX (wireKey keyPrefix key) value ttlSec).2⟩) := by
  obtain ⟨ctx, hset⟩ := setNX_eq_exec c keyPrefix key value s ttlSec
  refine ⟨ctx, ?_⟩
  rw [hset, exec_set, setOptions_nx, setOptions_expiry h]
  cases hnx : (s.env.setNX (wireKey keyPrefix key) value ttlSec).1 <;> simp [hnx, stored]

/-- `setNX` without a time to live stores nothing, and says so. -/
theorem setNX_eq_of_no_ttl (h : ¬ 0 < ttlSec) :
    ∃ ctx, (onServer c keyPrefix).setNX key value ttlSec s = (.ok false, ⟨ctx, s.env⟩) := by
  obtain ⟨ctx, hset⟩ := setNX_eq_exec c keyPrefix key value s ttlSec
  refine ⟨ctx, ?_⟩
  rw [hset, exec_set, setOptions_nx, setOptions_no_expiry h]
  rfl

/-! ## The store and the reference -/

/-- The runs of the store. -/
def exec : Machine StoreOp RedisWorld (Except StdException StoreReply) :=
  (onServer c keyPrefix).exec fun seconds s => { s with env := s.env.tick seconds }

/-- The operation has a key without null bytes; a `set` has a time to live, and a `setNX` has one or
finds that the reference has an entry. -/
def Timed (now : ℕ) (before : List StoreOp) : StoreOp → Prop
  | .get key => 0 ∉ keyPrefix ++ key
  | .setNX key _ ttlSec => 0 ∉ keyPrefix ++ key ∧
    (0 < ttlSec ∨ ((ttlExec.run before (.empty now)).get key).isSome)
  | .set key _ ttlSec => 0 ∉ keyPrefix ++ key ∧ 0 < ttlSec
  | .del key => 0 ∉ keyPrefix ++ key
  | .tick _ => True

/-- The server has the entries of the reference, under the prefix. -/
structure Mirrors (s : RedisWorld) (m : TtlMap Bytes Bytes) : Prop where
  now : s.env.now = m.now
  entry : ∀ key, 0 ∉ keyPrefix ++ key → s.env.entry (keyPrefix ++ key) = m.entry key

variable {c keyPrefix} {key value : Bytes} {s : RedisWorld} {m : TtlMap Bytes Bytes}

theorem wireKey_eq (h : 0 ∉ keyPrefix ++ key) : wireKey keyPrefix key = keyPrefix ++ key :=
  cStr_of_no_null h

/-- Keys without null bytes are different keys of the server. -/
theorem wireKey_ne {key' : Bytes} (h : 0 ∉ keyPrefix ++ key) (h' : 0 ∉ keyPrefix ++ key')
    (hne : key' ≠ key) : wireKey keyPrefix key' ≠ wireKey keyPrefix key := by
  rw [wireKey_eq h, wireKey_eq h']
  exact fun he => hne (List.append_cancel_left he)

theorem Mirrors.get_eq (h : Mirrors keyPrefix s m) (hk : 0 ∉ keyPrefix ++ key) :
    s.env.get (wireKey keyPrefix key) = m.get key := by
  rw [wireKey_eq hk, TtlMap.get, TtlMap.get, h.entry key hk, h.now]

/-- The same entry is put under the key on both sides, or taken away. -/
theorem Mirrors.update (h : Mirrors keyPrefix s m) (hk : 0 ∉ keyPrefix ++ key)
    (ctx : Option RedisContext) (x : Option (Bytes × Option ℕ)) :
    Mirrors keyPrefix
      ⟨ctx, ⟨s.env.now, Function.update s.env.entry (wireKey keyPrefix key) x⟩⟩
      ⟨m.now, Function.update m.entry key x⟩ where
  now := h.now
  entry key' hk' := by
    show Function.update s.env.entry (wireKey keyPrefix key) x (keyPrefix ++ key') =
      Function.update m.entry key x key'
    rw [← wireKey_eq hk']
    by_cases he : key' = key
    · rw [he, Function.update_self, Function.update_self]
    · rw [Function.update_of_ne (wireKey_ne hk hk' he), Function.update_of_ne he, wireKey_eq hk']
      exact h.entry key' hk'

theorem Mirrors.set (h : Mirrors keyPrefix s m) (hk : 0 ∉ keyPrefix ++ key)
    (ctx : Option RedisContext) (value : Bytes) (ttlSec : ℤ) :
    Mirrors keyPrefix ⟨ctx, s.env.set (wireKey keyPrefix key) value ttlSec⟩
      (m.set key value ttlSec) := by
  have hset := h.update hk ctx (some (value, TtlMap.expiry s.env.now ttlSec))
  rw [TtlMap.set, TtlMap.set, ← h.now]
  rw [← h.now] at hset
  exact hset

/-- **One operation that meets the condition** is answered as the reference answers it. -/
theorem Mirrors.next {now : ℕ} {before : List StoreOp} {op : StoreOp}
    (h : Mirrors keyPrefix s m) (hm : m = ttlExec.run before (.empty now))
    (ht : Timed keyPrefix now before op) :
    (exec c keyPrefix op s).1 = (ttlExec op m).1 ∧
      Mirrors keyPrefix (exec c keyPrefix op s).2 (ttlExec op m).2 := by
  cases op with
  | get key =>
    obtain ⟨ctx, hget⟩ := RedisStore.get_eq c keyPrefix key s
    simp only [exec, IStore.exec, hget, h.get_eq ht]
    exact ⟨rfl, h.now, h.entry⟩
  | setNX key value ttlSec =>
    obtain ⟨hk, httl⟩ := ht
    rw [← hm] at httl
    have hget := h.get_eq hk
    by_cases hpos : 0 < ttlSec
    · obtain ⟨ctx, hset⟩ := setNX_eq c keyPrefix key value s hpos
      simp only [exec, IStore.exec, hset, TtlMap.setNX, hget]
      cases hsome : m.get key with
      | none =>
        rw [ttlExec_setNX_of_free value ttlSec hsome]
        exact ⟨rfl, h.set hk ctx value ttlSec⟩
      | some v =>
        rw [ttlExec_setNX_of_taken value ttlSec (by rw [hsome]; rfl)]
        exact ⟨rfl, h.now, h.entry⟩
    · obtain ⟨ctx, hset⟩ := setNX_eq_of_no_ttl c keyPrefix key value s hpos
      simp only [exec, IStore.exec, hset]
      rw [ttlExec_setNX_of_taken value ttlSec (httl.resolve_left hpos)]
      exact ⟨rfl, h.now, h.entry⟩
  | set key value ttlSec =>
    obtain ⟨ctx, hset⟩ := set_eq c keyPrefix key value s ht.2
    simp only [exec, IStore.exec, hset]
    exact ⟨rfl, h.set ht.1 ctx value ttlSec⟩
  | del key =>
    obtain ⟨ctx, hdel⟩ := del_eq c keyPrefix key s
    simp only [exec, IStore.exec, hdel]
    exact ⟨rfl, h.update ht ctx none⟩
  | tick seconds =>
    refine ⟨rfl, ?_, h.entry⟩
    exact congrArg (· + seconds) h.now

/-- **When the store keeps its contract.** A run of operations on an empty server is answered as the
reference answers it, if the keys have no null byte, every `set` has a time to live, and every
`setNX` has one or finds its key taken. -/
theorem answers_eq_of_timed (c : RedisClient) {keyPrefix : Bytes} {now : ℕ} {calls : List StoreOp}
    (h : Along (Timed keyPrefix now) calls) :
    (exec c keyPrefix).answers calls ⟨none, .empty now⟩ = ttlExec.answers calls (.empty now) := by
  refine (Machine.answers_eq_of_along (R := fun before s m => m = ttlExec.run before (.empty now) ∧
    Mirrors keyPrefix s m) ⟨rfl, rfl, fun _ _ => rfl⟩ ?_ h).1
  rintro before op s m ⟨hm, hmirrors⟩ hop
  obtain ⟨hans, hnext⟩ := hmirrors.next (c := c) hm hop
  exact ⟨hans, by rw [Machine.run_concat, ← hm], hnext⟩

/-- A link with a time to live, which has elapsed. -/
theorem answers_eq_of_timed_link :
    let c := RedisClient.new (bytes "127.0.0.1") 6379 200
    let calls : List StoreOp := [.setNX (bytes "a") (bytes "u") 1, .tick 1, .get (bytes "a")]
    (exec c (bytes "short:")).answers calls ⟨none, .empty 0⟩ = ttlExec.answers calls (.empty 0) ∧
      ttlExec.answers calls (.empty 0) = [.ok (.inserted true), .ok .done, .ok (.value none)] := by
  intro c calls
  have hkey : 0 ∉ bytes "short:" ++ bytes "a" := by decide
  have htimed : Along (Timed (bytes "short:") 0) calls := along_cons.2
    ⟨⟨hkey, .inl (by decide)⟩, along_cons.2 ⟨trivial, along_cons.2 ⟨hkey, along_nil _⟩⟩⟩
  exact ⟨answers_eq_of_timed c htimed, by decide +kernel⟩

/-- Without a time to live nothing is stored: neither by `set`, nor by `setNX`, which says so. -/
theorem without_ttl_not_stored :
    let c := RedisClient.new (bytes "127.0.0.1") 6379 200
    (exec c (bytes "short:")).answers [.set (bytes "a") (bytes "u") 0, .get (bytes "a")]
        ⟨none, .empty 0⟩ = [.ok .done, .ok (.value none)] ∧
      ttlExec.answers [.set (bytes "a") (bytes "u") 0, .get (bytes "a")] (.empty 0) =
        [.ok .done, .ok (.value (some (bytes "u")))] ∧
      (exec c (bytes "short:")).answers [.setNX (bytes "a") (bytes "u") 0] ⟨none, .empty 0⟩ =
        [.ok (.inserted false)] ∧
      ttlExec.answers [.setNX (bytes "a") (bytes "u") 0] (.empty 0) = [.ok (.inserted true)] := by
  refine ⟨by decide +kernel, by decide +kernel, by decide +kernel, by decide +kernel⟩

end RedisStore

end KamaHttp
