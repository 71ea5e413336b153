import KamaHttp.App.CacheAsideStore
import KamaHttp.App.RedisServer

/-!
# The cache and the authority on two servers

`CacheAsideStore` on a server of Redis and one of MySQL that can be reached, and whose clocks agree.

* `get_eq_found`, `setNX_eq_insert`, `set_eq_replace`, `del_eq_delete`: what an operation returns,
  and what it does to the two servers.
-/

namespace KamaHttp

/-- The data of Redis, with the connection of the thread, and MySQL. -/
abbrev Servers := RedisWorld × MySql

namespace Servers

/-- Two servers without data. -/
def fresh (now : ℕ) : Servers := (⟨none, .empty now⟩, .empty now)

def tick (seconds : ℕ) (w : Servers) : Servers :=
  ({ w.1 with env := w.1.env.tick seconds }, w.2.tick seconds)

end Servers

namespace CacheAside

open RedisStore

variable (c : RedisClient) (keyPrefix : Bytes) (backfillTtlSec : ℤ)

/-- The store. -/
def onServers : IStore Servers := withCache (onServer c keyPrefix) backfillTtlSec

variable (key value : Bytes) (ttlSec : ℤ) (w : Servers)

/-- What `get` returns: what Redis has, else what MySQL has. -/
def found : Option Bytes := (w.1.env.get (wireKey keyPrefix key)).or (w.2.select key)

/-- The data of Redis behind `get`: a value that came from MySQL is filled in. -/
def filled : RedisData :=
  match w.1.env.get (wireKey keyPrefix key), w.2.select key with
  | none, some v => setData w.1.env (wireKey keyPrefix key) v backfillTtlSec
  | _, _ => w.1.env

theorem get_eq_found : ∃ ctx, (onServers c keyPrefix backfillTtlSec).get key w =
    (.ok (found keyPrefix key w), (⟨ctx, filled keyPrefix backfillTtlSec key w⟩, w.2)) := by
  obtain ⟨ctx, hget⟩ := RedisStore.get_eq c keyPrefix key w.1
  rw [onServers, withCache_get, hget, found, filled]
  cases hr : w.1.env.get (wireKey keyPrefix key) with
  | some v => exact ⟨ctx, rfl⟩
  | none =>
    cases hs : w.2.select key with
    | none => exact ⟨ctx, rfl⟩
    | some v =>
      obtain ⟨ctx', hset⟩ := set_eq_setData c keyPrefix key v ⟨ctx, w.1.env⟩ backfillTtlSec
      refine ⟨ctx', ?_⟩
      simp only [hset]
      rfl

theorem setNX_eq_insert : ∃ ctx, (onServers c keyPrefix backfillTtlSec).setNX key value ttlSec w =
    match w.2.rows key with
    | some _ => (.ok false, w)
    | none => (.ok true, (⟨ctx, setData w.1.env (wireKey keyPrefix key) value ttlSec⟩,
        w.2.put key (some (w.2.row value ttlSec)))) := by
  obtain ⟨ctx, hset⟩ := set_eq_setData c keyPrefix key value w.1 ttlSec
  rw [onServers, withCache_setNX, hset]
  exact ⟨ctx, rfl⟩

theorem set_eq_replace : ∃ ctx, (onServers c keyPrefix backfillTtlSec).set key value ttlSec w =
    (.ok (), (⟨ctx, setData w.1.env (wireKey keyPrefix key) value ttlSec⟩,
      w.2.put key (some (w.2.row value ttlSec)))) := by
  obtain ⟨ctx, hset⟩ := set_eq_setData c keyPrefix key value w.1 ttlSec
  rw [onServers, withCache_set, hset]
  exact ⟨ctx, rfl⟩

theorem del_eq_delete : ∃ ctx, (onServers c keyPrefix backfillTtlSec).del key w =
    (.ok (), (⟨ctx, w.1.env.del (wireKey keyPrefix key)⟩, w.2.put key none)) := by
  obtain ⟨ctx, hdel⟩ := RedisStore.del_eq c keyPrefix key w.1
  rw [onServers, withCache_del, hdel]
  exact ⟨ctx, rfl⟩

end CacheAside

end KamaHttp
