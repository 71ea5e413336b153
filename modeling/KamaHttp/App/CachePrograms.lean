import KamaHttp.App.CacheServers
import KamaHttp.App.RedisPrograms

/-!
# The cache and the authority, call by call

What the operations of `CacheAsideStore` do on `RedisStore` and `MySqlStore`, as programs that call
the library of Redis, make statements of MySQL and read the clock.

* `implements_cacheProgram`: run alone, they do what the operations do.
* `run_cacheTask`: so do the handlers on them.
-/

namespace KamaHttp

open Interaction RedisClient RedisStore

/-- The calls of the stores. A statement of MySQL may throw. -/
inductive CacheAsideCall
  | redis (c : RedisCall)
  | select (key : Bytes)
  | insert (key value : Bytes) (ttlSec : ℤ)
  | time

/-- What a call returns. -/
def CacheAsideCall.Returned : CacheAsideCall → Type
  | .redis c => c.Returned
  | .select _ => Except StdException (Option ShortUrl)
  | .insert _ _ _ => Except StdException Unit
  | .time => ℕ

/-- A program of the stores. -/
abbrev CacheAsideProgram (α : Type*) := Interaction CacheAsideCall CacheAsideCall.Returned α

/-! ## The stores -/

section Programs

/-- A program that calls the library of Redis only. -/
abbrev onRedis {α : Type*} (p : RedisProgram α) : CacheAsideProgram α :=
  p.embed CacheAsideCall.redis fun _ r => r

variable (keyPrefix key value : Bytes) (ttlSec backfillTtlSec : ℤ)

/-- The arguments of the command of `set`. -/
abbrev RedisStore.setArgs : List Bytes := (setCommand keyPrefix key value ttlSec).map (·.arg)

/-- `RedisStore::set`. -/
def setProgram (ctx : Option RedisContext) :
    RedisProgram (Except StdException Unit × Option RedisContext) :=
  (cmdProgram (setArgs keyPrefix key value ttlSec) ctx).bind fun r =>
    .done (r.1.map fun _ => (), r.2)

/-- `MySqlStore::get`. -/
def selectProgram : CacheAsideProgram (Except StdException (Option Bytes)) :=
  .call (.select key) fun
    | .error e => .done (.error e)
    | .ok none => .done (.ok none)
    | .ok (some row) =>
      if 0 < row.ttlSec.getD 0 then
        .call .time fun (now : ℕ) =>
          .done (.ok (if MySql.Expired now row then none else some row.longUrl))
      else .done (.ok (some row.longUrl))

/-- `MySqlStore::setNX`, which catches what the statement throws. -/
def insertProgram : CacheAsideProgram Bool :=
  .call (.insert key value ttlSec) fun
    | .ok () => .done true
    | .error _ => .done false

/-- `CacheAsideStore`. -/
def cacheProgram : StoreProgram CacheAsideCall CacheAsideCall.Returned (Option RedisContext) where
  get key ctx := (onRedis ((redisProgram keyPrefix).get key ctx)).bind fun
    | (.error e, ctx) => .done (.error e, ctx)
    | (.ok (some v), ctx) => .done (.ok (some v), ctx)
    | (.ok none, ctx) => (selectProgram key).bind fun
      | .error e => .done (.error e, ctx)
      | .ok none => .done (.ok none, ctx)
      | .ok (some v) => (onRedis (setProgram keyPrefix key v backfillTtlSec ctx)).bind fun
        | (.error e, ctx) => .done (.error e, ctx)
        | (.ok (), ctx) => .done (.ok (some v), ctx)
  setNX key value ttlSec ctx := (insertProgram key value ttlSec).bind fun
    | false => .done (.ok false, ctx)
    | true => (onRedis (setProgram keyPrefix key value ttlSec ctx)).bind fun
      | (.error e, ctx) => .done (.error e, ctx)
      | (.ok (), ctx) => .done (.ok true, ctx)

end Programs

/-! ## The programs, run alone -/

section Run

variable {ρ : Type*} (H : Hiredis ρ) (c : RedisClient) (keyPrefix : Bytes) (backfillTtlSec : ℤ)

/-- What becomes of a call, on a library of Redis and on MySQL with the same clock. -/
def Hiredis.answerAside : (x : CacheAsideCall) → ρ × MySql → x.Returned × (ρ × MySql)
  | .redis x, s => ((H.answer c x s.1).1, ((H.answer c x s.1).2, s.2))
  | .select key, s => (.ok (s.2.rows key), s)
  | .insert key value ttlSec, s =>
    match s.2.rows key with
    | some _ => (.error (.runtimeError (bytes "Duplicate entry for key 'PRIMARY'")), s)
    | none => (.ok (), (s.1, s.2.put key (some (s.2.row value ttlSec))))
  | .time, s => (s.2.now, s)

/-- The connection of the thread, what is outside of it, and MySQL. -/
def cacheEquiv (ρ : Type*) : Option RedisContext × (ρ × MySql) ≃ RedisConn ρ × MySql where
  toFun s := (⟨s.1, s.2.1⟩, s.2.2)
  invFun s := (s.1.ctx, (s.1.env, s.2))
  left_inv _ := rfl
  right_inv _ := rfl

theorem run_onRedis {α : Type*} (p : RedisProgram α) (s : ρ × MySql) :
    (onRedis p).run (H.answerAside c) s =
      ((p.run (H.answer c) s.1).1, ((p.run (H.answer c) s.1).2, s.2)) := by
  have hcalls : ∀ (x : RedisCall) (env : ρ) (db : MySql),
      ((H.answerAside c (.redis x) (env, db)).1, (H.answerAside c (.redis x) (env, db)).2) =
        ((H.answer c x env).1, ((H.answer c x env).2, db)) := fun _ _ _ => rfl
  exact run_embed CacheAsideCall.redis (fun _ r => r) hcalls p s.1 s.2

theorem run_setProgram (key value : Bytes) (ttlSec : ℤ) (s : RedisConn ρ) :
    (setProgram keyPrefix key value ttlSec s.ctx).run (H.answer c) s.env =
      alone (connEquiv ρ) ((redisStore keyPrefix (c.cmd H)).set key value ttlSec s) := by
  rw [setProgram, run_bind, run_cmdProgram]
  rfl

/-- A lookup in MySQL, run alone. -/
theorem run_selectProgram (key : Bytes) (s : ρ × MySql) :
    (selectProgram key).run (H.answerAside c) s = (.ok (s.2.select key), s) := by
  rw [selectProgram, Interaction.run, MySql.select]
  simp only [Hiredis.answerAside]
  cases hrow : s.2.rows key with
  | none => rfl
  | some row =>
    dsimp only [Option.bind_some]
    split
    · rfl
    · rename_i hpos
      have hlive : ¬ MySql.Expired s.2.now row := fun h => hpos h.1
      rw [if_neg hlive]
      rfl

theorem run_insertProgram (key value : Bytes) (ttlSec : ℤ) (s : ρ × MySql) :
    (insertProgram key value ttlSec).run (H.answerAside c) s = match s.2.rows key with
      | some _ => (false, s)
      | none => (true, (s.1, s.2.put key (some (s.2.row value ttlSec)))) := by
  rw [insertProgram, Interaction.run]
  simp only [Hiredis.answerAside]
  cases s.2.rows key <;> rfl

open CacheAside in
/-- **The programs are the operations of `CacheAsideStore`.** -/
theorem implements_cacheProgram :
    Implements (cacheProgram keyPrefix backfillTtlSec) (H.answerAside c)
      (withCache (redisStore keyPrefix (c.cmd H)) backfillTtlSec) (cacheEquiv ρ) where
  get key ctx env := by
    have hget := (implements_redisProgram keyPrefix H c).get key ctx env.1
    have hstore : (cacheEquiv ρ (ctx, env)).1 = connEquiv ρ (ctx, env.1) := rfl
    rw [cacheProgram, run_bind, run_onRedis, hget, withCache_get, hstore]
    rcases (redisStore keyPrefix (c.cmd H)).get key (connEquiv ρ (ctx, env.1)) with
      ⟨x | _ | v, s⟩
    · rfl
    · have hmysql : (cacheEquiv ρ (ctx, env)).2 = env.2 := rfl
      simp only [alone, run_bind, run_selectProgram, hmysql]
      cases env.2.select key with
      | none => rfl
      | some v =>
        have hset := run_setProgram H c keyPrefix key v backfillTtlSec s
        simp only [run_bind, run_onRedis, connEquiv, Equiv.coe_fn_symm_mk, hset, alone]
        rcases (redisStore keyPrefix (c.cmd H)).set key v backfillTtlSec s with ⟨x | _, s'⟩ <;> rfl
    · rfl
  setNX key value ttlSec ctx env := by
    have hmysql : (cacheEquiv ρ (ctx, env)).2 = env.2 := rfl
    have hstore : (cacheEquiv ρ (ctx, env)).1 = connEquiv ρ (ctx, env.1) := rfl
    rw [cacheProgram, run_bind, run_insertProgram, withCache_setNX, hmysql, hstore]
    cases env.2.rows key with
    | some row => rfl
    | none =>
      have hset := run_setProgram H c keyPrefix key value ttlSec (connEquiv ρ (ctx, env.1))
      simp only [run_bind, run_onRedis]
      dsimp only [connEquiv, Equiv.coe_fn_mk] at hset ⊢
      rw [hset]
      rcases (redisStore keyPrefix (c.cmd H)).set key value ttlSec ⟨ctx, env.1⟩ with ⟨x | _, s'⟩ <;>
        rfl

/-- **The program of a task, run alone**: what the handler does on the two stores. -/
theorem run_cacheTask (task : HandlerTask (Option RedisContext)) (env : ρ × MySql) :
    (task.program (cacheProgram keyPrefix backfillTtlSec)).run (H.answerAside c) env =
      handlerAlone (cacheEquiv ρ)
        (task.handle (CacheAside.withCache (redisStore keyPrefix (c.cmd H)) backfillTtlSec)
          (cacheEquiv ρ) env) :=
  (implements_cacheProgram H c keyPrefix backfillTtlSec).run_handlerTask task env

end Run

end KamaHttp
