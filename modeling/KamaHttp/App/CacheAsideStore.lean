import KamaHttp.App.MySqlStore
import KamaHttp.App.RedisClient

/-!
# Redis in front of MySQL

`CacheAsideStore.h`: reads ask Redis first, then MySQL, and fill Redis with what MySQL has; writes
go to MySQL first, then to Redis.

* `cache_harmless_iff`: for every operation and every outcome of its calls to Redis, the authority
  is not harmed exactly if none of these calls throws, unless nothing has changed by then.
* `inserted_and_thrown`: without Redis a link is inserted, and the caller gets an exception.
-/

namespace KamaHttp

section Store

variable {κ : Type*}

/-- A null pointer to a store, on which no operation is called. -/
def nullStore : IStore κ where
  get _ w := (.ok none, w)
  setNX _ _ _ w := (.ok true, w)
  set _ _ _ w := (.ok (), w)
  del _ w := (.ok (), w)

/-- `CacheAsideStore`, with pointers that may be null. -/
def cacheAsideStore (redis mysql : Option (IStore κ)) (backfillTtlSec : ℤ) : IStore κ :=
  let redis := redis.getD nullStore
  let mysql := mysql.getD nullStore
  { get := fun key w =>
      match redis.get key w with
      | (.error e, w) => (.error e, w)
      | (.ok (some v), w) => (.ok (some v), w)
      | (.ok none, w) =>
        match mysql.get key w with
        | (.error e, w) => (.error e, w)
        | (.ok none, w) => (.ok none, w)
        | (.ok (some v), w) =>
          match redis.set key v backfillTtlSec w with
          | (.error e, w) => (.error e, w)
          | (.ok (), w) => (.ok (some v), w)
    setNX := fun key value ttlSec w =>
      match mysql.setNX key value ttlSec w with
      | (.error e, w) => (.error e, w)
      | (.ok false, w) => (.ok false, w)
      | (.ok true, w) =>
        match redis.set key value ttlSec w with
        | (.error e, w) => (.error e, w)
        | (.ok (), w) => (.ok true, w)
    set := fun key value ttlSec w =>
      match mysql.set key value ttlSec w with
      | (.error e, w) => (.error e, w)
      | (.ok (), w) => redis.set key value ttlSec w
    del := fun key w =>
      match mysql.del key w with
      | (.error e, w) => (.error e, w)
      | (.ok (), w) => redis.del key w }

end Store

section Pair

variable {α β : Type*}

/-- A store that works on the first of two states. -/
def IStore.onFirst (S : IStore α) : IStore (α × β) where
  get key w := ((S.get key w.1).1, ((S.get key w.1).2, w.2))
  setNX key value ttlSec w :=
    ((S.setNX key value ttlSec w.1).1, ((S.setNX key value ttlSec w.1).2, w.2))
  set key value ttlSec w := ((S.set key value ttlSec w.1).1, ((S.set key value ttlSec w.1).2, w.2))
  del key w := ((S.del key w.1).1, ((S.del key w.1).2, w.2))

/-- A store that works on the second of two states. -/
def IStore.onSecond (S : IStore β) : IStore (α × β) where
  get key w := ((S.get key w.2).1, (w.1, (S.get key w.2).2))
  setNX key value ttlSec w :=
    ((S.setNX key value ttlSec w.2).1, (w.1, (S.setNX key value ttlSec w.2).2))
  set key value ttlSec w := ((S.set key value ttlSec w.2).1, (w.1, (S.set key value ttlSec w.2).2))
  del key w := ((S.del key w.2).1, (w.1, (S.del key w.2).2))

end Pair

namespace CacheAside

variable {α : Type*}

/-- The store on some store `R` and on MySQL. -/
def withCache (R : IStore α) (backfillTtlSec : ℤ) : IStore (α × MySql) :=
  cacheAsideStore (some R.onFirst) (some mySqlStore.onSecond) backfillTtlSec

variable (R : IStore α) (backfillTtlSec : ℤ) (key value : Bytes) (ttlSec : ℤ) (w : α × MySql)

/-- `get`, by what the calls return. -/
theorem withCache_get : (withCache R backfillTtlSec).get key w =
    match R.get key w.1 with
    | (.error e, s) => (.error e, (s, w.2))
    | (.ok (some v), s) => (.ok (some v), (s, w.2))
    | (.ok none, s) =>
      match w.2.select key with
      | none => (.ok none, (s, w.2))
      | some v => ((R.set key v backfillTtlSec s).1.map fun _ => some v,
          ((R.set key v backfillTtlSec s).2, w.2)) := by
  rcases hr : R.get key w.1 with ⟨_ | _ | v, s⟩
  · simp [withCache, cacheAsideStore, IStore.onFirst, hr]
  · cases hs : w.2.select key with
    | none => simp [withCache, cacheAsideStore, IStore.onFirst, IStore.onSecond, mySqlStore, hr, hs]
    | some v =>
      rcases hb : R.set key v backfillTtlSec s with ⟨_ | _, s'⟩ <;>
        simp [withCache, cacheAsideStore, IStore.onFirst, IStore.onSecond, mySqlStore, hr, hs, hb,
          Except.map]
  · simp [withCache, cacheAsideStore, IStore.onFirst, hr]

theorem withCache_setNX : (withCache R backfillTtlSec).setNX key value ttlSec w =
    match w.2.rows key with
    | some _ => (.ok false, w)
    | none => ((R.set key value ttlSec w.1).1.map fun _ => true,
        ((R.set key value ttlSec w.1).2, w.2.put key (some (w.2.row value ttlSec)))) := by
  cases hr : w.2.rows key with
  | some row => simp [withCache, cacheAsideStore, IStore.onSecond, mySqlStore, hr]
  | none =>
    rcases hb : R.set key value ttlSec w.1 with ⟨_ | _, s'⟩ <;>
      simp [withCache, cacheAsideStore, IStore.onFirst, IStore.onSecond, mySqlStore, hr, hb,
        Except.map]

theorem withCache_set : (withCache R backfillTtlSec).set key value ttlSec w =
    ((R.set key value ttlSec w.1).1,
      ((R.set key value ttlSec w.1).2, w.2.put key (some (w.2.row value ttlSec)))) := rfl

theorem withCache_del : (withCache R backfillTtlSec).del key w =
    ((R.del key w.1).1, ((R.del key w.1).2, w.2.put key none)) := rfl

/-! ## Failures of the cache -/

/-- The operation does not harm the authority: `get` returns what MySQL holds whenever Redis did not
return a value, `setNX` returns `true` exactly when MySQL inserted the row, and no operation reports
a failure when MySQL has changed. -/
def Harmless : StoreOp → Prop
  | .get key => (∀ v, (R.get key w.1).1 ≠ .ok (some v)) →
    ((withCache R backfillTtlSec).get key w).1 = (mySqlStore.get key w.2).1
  | .setNX key value ttlSec =>
    (((withCache R backfillTtlSec).setNX key value ttlSec w).1 = .ok true ↔
      (mySqlStore.setNX key value ttlSec w.2).1 = .ok true) ∧
    (((withCache R backfillTtlSec).setNX key value ttlSec w).1 ≠ .ok true →
      ((withCache R backfillTtlSec).setNX key value ttlSec w).2.2 = w.2)
  | .set key value ttlSec => Raises ((withCache R backfillTtlSec).set key value ttlSec w).1 →
    ((withCache R backfillTtlSec).set key value ttlSec w).2.2 = w.2
  | .del key => Raises ((withCache R backfillTtlSec).del key w).1 →
    ((withCache R backfillTtlSec).del key w).2.2 = w.2
  | .tick _ => True

/-- No call to Redis throws, of those the operation makes; behind a statement that leaves MySQL as
it is, it may. -/
def CallsReturn : StoreOp → Prop
  | .get key => ¬ Raises (R.get key w.1).1 ∧
    ∀ v, (R.get key w.1).1 = .ok none → w.2.select key = some v →
      ¬ Raises (R.set key v backfillTtlSec (R.get key w.1).2).1
  | .setNX key value ttlSec => w.2.rows key = none → ¬ Raises (R.set key value ttlSec w.1).1
  | .set key value ttlSec =>
    w.2.put key (some (w.2.row value ttlSec)) = w.2 ∨ ¬ Raises (R.set key value ttlSec w.1).1
  | .del key => w.2.put key none = w.2 ∨ ¬ Raises (R.del key w.1).1
  | .tick _ => True

theorem harmless_get_iff :
    Harmless R backfillTtlSec w (.get key) ↔ CallsReturn R backfillTtlSec w (.get key) := by
  rw [Harmless, CallsReturn, withCache_get]
  rcases hr : R.get key w.1 with ⟨e | _ | v, s⟩
  · refine iff_of_false (fun h => ?_) fun h => h.1 (raises_error e)
    cases h fun v hv => by cases hv
  · cases hs : w.2.select key with
    | none =>
      refine iff_of_true (fun _ => ?_) ⟨not_raises_ok _, fun v _ hv => by cases hv⟩
      exact congrArg Except.ok hs.symm
    | some v =>
      have hmysql : (mySqlStore.get key w.2).1 = .ok (some v) := congrArg Except.ok hs
      rw [hmysql]
      rcases hb : R.set key v backfillTtlSec s with ⟨e | _, s'⟩
      · refine iff_of_false (fun h => ?_) fun h => h.2 v rfl rfl ?_
        · simp only [hb] at h
          cases h fun v hv => by cases hv
        · simp only [hb]
          exact raises_error e
      · refine iff_of_true (fun _ => by simp only [hb]; rfl) ⟨not_raises_ok _, fun v' _ hv' => ?_⟩
        cases hv'
        simp only [hb]
        exact not_raises_ok _
  · refine iff_of_true (fun h => absurd rfl (h v)) ⟨not_raises_ok _, fun v' hv' => ?_⟩
    cases hv'

theorem harmless_setNX_iff : Harmless R backfillTtlSec w (.setNX key value ttlSec) ↔
    CallsReturn R backfillTtlSec w (.setNX key value ttlSec) := by
  rw [Harmless, CallsReturn, withCache_setNX]
  cases hr : w.2.rows key with
  | some row =>
    refine iff_of_true ⟨?_, fun _ => rfl⟩ fun h => by cases h
    simp [mySqlStore, hr]
  | none =>
    have hmysql : (mySqlStore.setNX key value ttlSec w.2).1 = .ok true := by simp [mySqlStore, hr]
    simp only [hmysql, iff_true, forall_const]
    rcases hb : R.set key value ttlSec w.1 with ⟨e | _, s⟩
    · refine iff_of_false (fun h => ?_) fun h => h (raises_error e)
      cases h.1
    · exact iff_of_true ⟨rfl, fun h => absurd rfl h⟩ (not_raises_ok _)

/-- **When a failure of Redis does no harm.** For every operation in every state, whatever the
library behind the client does: the authority is not harmed exactly if no call to Redis throws that
the operation makes, or MySQL is as it was by then. -/
theorem cache_harmless_iff {ρ : Type*} (H : Hiredis ρ) (c : RedisClient) (keyPrefix : Bytes)
    (backfillTtlSec : ℤ) (op : StoreOp) (w : RedisConn ρ × MySql) :
    Harmless (redisStore keyPrefix (c.cmd H)) backfillTtlSec w op ↔
      CallsReturn (redisStore keyPrefix (c.cmd H)) backfillTtlSec w op := by
  cases op with
  | get key => exact harmless_get_iff _ _ _ _
  | setNX key value ttlSec => exact harmless_setNX_iff _ _ _ _ _ _
  | set key value ttlSec =>
    rw [Harmless, CallsReturn, withCache_set]
    exact imp_iff_or_not
  | del key =>
    rw [Harmless, CallsReturn, withCache_del]
    exact imp_iff_or_not
  | tick seconds => exact Iff.rfl

/-- The library, when the server refuses the connection. -/
def refused : Hiredis Unit where
  connectWithTimeout _ _ _ _ env := (some ⟨1, bytes "Connection refused"⟩, env)
  command _ _ env := (none, env)
  free _ env := env

/-- Without Redis a link is inserted, and the caller gets an exception, by `setNX` and by the `get`
that follows. -/
theorem inserted_and_thrown :
    let c := RedisClient.new (bytes "127.0.0.1") 6379 200
    let R := redisStore (bytes "short:") (c.cmd refused)
    let w : RedisConn Unit × MySql := (⟨none, ()⟩, .empty 0)
    let w' := ((withCache R 60).setNX (bytes "a") (bytes "u") 10 w).2
    let e := StdException.runtimeError (bytes "redis connect failed: Connection refused")
    ((withCache R 60).setNX (bytes "a") (bytes "u") 10 w).1 = .error e ∧
      w'.2.select (bytes "a") = some (bytes "u") ∧
      ((withCache R 60).get (bytes "a") w').1 = .error e ∧
      ¬ Harmless R 60 w (.setNX (bytes "a") (bytes "u") 10) ∧
      ¬ Harmless R 60 w' (.get (bytes "a")) := by
  intro c R w w' e
  have hset : ((withCache R 60).setNX (bytes "a") (bytes "u") 10 w).1 = .error e := by
    decide +kernel
  have hget : ((withCache R 60).get (bytes "a") w').1 = .error e := by decide +kernel
  have hredis : (R.get (bytes "a") w'.1).1 = .error e := by decide +kernel
  have hrow : w'.2.select (bytes "a") = some (bytes "u") := by decide +kernel
  refine ⟨hset, hrow, hget, fun h => ?_, fun h => ?_⟩
  · have hinserted : (mySqlStore.setNX (bytes "a") (bytes "u") 10 w.2).1 = .ok true := rfl
    have htrue := h.1.2 hinserted
    rw [hset] at htrue
    cases htrue
  · have hvalue := h fun v hv => by rw [hredis] at hv; cases hv
    rw [hget] at hvalue
    cases hvalue

end CacheAside

end KamaHttp
