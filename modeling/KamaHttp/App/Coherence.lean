import Mathlib.Data.Fintype.Basic
import Mathlib.Data.PNat.Notation
import KamaHttp.App.CacheServers
import KamaHttp.Foundations.System

/-!
# Clients of the cache and the authority

Any number of clients run `CacheAsideStore` on the same two servers. An operation is one or two
statements of MySQL and commands of Redis, each atomic at its server; the steps of other clients may
come between them.

* `run_begin`: a client that runs alone does what the operation of the store does.
* `coherent_of_orderly`: when no client is in an operation, Redis agrees with MySQL and `get`
  returns the last write, in the runs in which no client puts into Redis what MySQL has no longer,
  unless the write that made it so has yet to reach Redis.
* `not_coherent_of_stale`: the last client to put into Redis what MySQL has no longer breaks it.
* `not_coherent_of_late_fill`: a backfill that comes behind a deletion.
-/

namespace KamaHttp

open CacheAside
open RedisStore (wireKey wireKey_ne setData)

/-- An operation of a client; the times to live are positive. -/
inductive ClientOp
  | get (key : Bytes)
  | setNX (key value : Bytes) (ttlSec : ℕ+)
  | set (key value : Bytes) (ttlSec : ℕ+)
  | del (key : Bytes)

/-- The operation, as one of the store. -/
def ClientOp.storeOp : ClientOp → StoreOp
  | .get key => .get key
  | .setNX key value ttlSec => .setNX key value (ttlSec : ℕ)
  | .set key value ttlSec => .set key value (ttlSec : ℕ)
  | .del key => .del key

/-- Where a client is: without an operation, or before a command or a statement. A `SET` is the one
of the backfill or the one of a write, which returns the reply. -/
inductive Client
  | idle
  | get (key : Bytes)
  | select (key : Bytes)
  | fill (key value : Bytes)
  | insert (key value : Bytes) (ttlSec : ℕ+)
  | replace (key value : Bytes) (ttlSec : ℕ+)
  | set (key value : Bytes) (ttlSec : ℕ+) (reply : StoreReply)
  | delete (key : Bytes)
  | del (key : Bytes)
  deriving DecidableEq

namespace Client

/-- A client that has just been asked for an operation. -/
def begin : ClientOp → Client
  | .get key => .get key
  | .setNX key value ttlSec => .insert key value ttlSec
  | .set key value ttlSec => .replace key value ttlSec
  | .del key => .delete key

section Steps

variable (keyPrefix : Bytes) (backfillTtlSec : ℕ+)

/-- One step of a client: where it is then, the data of Redis, MySQL, and the reply when the
operation returns. -/
def next (redis : RedisData) (mysql : MySql) :
    Client → Client × RedisData × MySql × Option StoreReply
  | .idle => (.idle, redis, mysql, none)
  | .get key =>
    match redis.get (wireKey keyPrefix key) with
    | some v => (.idle, redis, mysql, some (.value (some v)))
    | none => (.select key, redis, mysql, none)
  | .select key =>
    match mysql.select key with
    | some v => (.fill key v, redis, mysql, none)
    | none => (.idle, redis, mysql, some (.value none))
  | .fill key v =>
    (.idle, redis.set (wireKey keyPrefix key) v (backfillTtlSec : ℕ), mysql, some (.value (some v)))
  | .insert key value ttlSec =>
    match mysql.rows key with
    | some _ => (.idle, redis, mysql, some (.inserted false))
    | none => (.set key value ttlSec (.inserted true), redis,
        mysql.put key (some (mysql.row value (ttlSec : ℕ))), none)
  | .replace key value ttlSec => (.set key value ttlSec .done, redis,
      mysql.put key (some (mysql.row value (ttlSec : ℕ))), none)
  | .set key value ttlSec reply =>
    (.idle, redis.set (wireKey keyPrefix key) value (ttlSec : ℕ), mysql, some reply)
  | .delete key => (.del key, redis, mysql.put key none, none)
  | .del key => (.idle, redis.del (wireKey keyPrefix key), mysql, some .done)

/-- At most `n` steps of a client that runs alone, until the operation returns. -/
def run : ℕ → Client → RedisData → MySql → Option StoreReply × RedisData × MySql
  | 0, _, redis, mysql => (none, redis, mysql)
  | n + 1, client, redis, mysql =>
    match client.next keyPrefix backfillTtlSec redis mysql with
    | (_, redis, mysql, some reply) => (some reply, redis, mysql)
    | (client, redis, mysql, none) => run n client redis mysql

section Alone

variable {keyPrefix backfillTtlSec} {redis redis' : RedisData} {mysql mysql' : MySql}
  {client client' : Client} {reply : StoreReply} {n : ℕ}

theorem run_of_reply (h : client.next keyPrefix backfillTtlSec redis mysql =
    (client', redis', mysql', some reply)) :
    run keyPrefix backfillTtlSec (n + 1) client redis mysql = (some reply, redis', mysql') := by
  rw [run, h]

theorem run_of_no_reply (h : client.next keyPrefix backfillTtlSec redis mysql =
    (client', redis', mysql', none)) :
    run keyPrefix backfillTtlSec (n + 1) client redis mysql =
      run keyPrefix backfillTtlSec n client' redis' mysql' := by
  rw [run, h]

end Alone

/-- **A client that runs alone** does what the operation of the store does, in at most three
steps. -/
theorem run_begin (c : RedisClient) (op : ClientOp) (ctx : Option RedisContext) (redis : RedisData)
    (mysql : MySql) : ∃ reply redis' mysql' ctx',
      run keyPrefix backfillTtlSec 3 (begin op) redis mysql = (some reply, redis', mysql') ∧
        (onServers c keyPrefix (backfillTtlSec : ℕ)).exec Servers.tick op.storeOp
          (⟨ctx, redis⟩, mysql) = (.ok reply, (⟨ctx', redis'⟩, mysql')) := by
  have hset : ∀ wire v (ttl : ℕ+), setData redis wire v (ttl : ℕ) = redis.set wire v (ttl : ℕ) :=
    fun wire v ttl => if_pos (by exact_mod_cast ttl.pos)
  cases op with
  | get key =>
    obtain ⟨ctx', hget⟩ := get_eq_found c keyPrefix (backfillTtlSec : ℕ) key (⟨ctx, redis⟩, mysql)
    simp only [ClientOp.storeOp, IStore.exec, hget, found, filled]
    cases hr : redis.get (wireKey keyPrefix key) with
    | some v => exact ⟨_, _, _, ctx', run_of_reply (by simp only [begin, next, hr]; rfl), rfl⟩
    | none =>
      have hget' : next keyPrefix backfillTtlSec redis mysql (begin (.get key)) =
          (.select key, redis, mysql, none) := by
        simp only [begin, next, hr]
      rw [run_of_no_reply hget']
      cases hs : mysql.select key with
      | none =>
        have hselect : next keyPrefix backfillTtlSec redis mysql (.select key) =
            (.idle, redis, mysql, some (.value none)) := by
          simp only [next, hs]
        exact ⟨_, _, _, ctx', run_of_reply hselect, rfl⟩
      | some v =>
        have hselect : next keyPrefix backfillTtlSec redis mysql (.select key) =
            (.fill key v, redis, mysql, none) := by
          simp only [next, hs]
        rw [run_of_no_reply hselect]
        exact ⟨_, _, _, ctx', run_of_reply rfl, by simp only [hset]; rfl⟩
  | setNX key value ttlSec =>
    obtain ⟨ctx', hsetNX⟩ := setNX_eq_insert c keyPrefix (backfillTtlSec : ℕ) key value (ttlSec : ℕ)
      (⟨ctx, redis⟩, mysql)
    simp only [ClientOp.storeOp, IStore.exec, hsetNX]
    cases hrow : mysql.rows key with
    | some row =>
      exact ⟨_, _, _, ctx, run_of_reply (by simp only [begin, next, hrow]; rfl), rfl⟩
    | none =>
      have hinsert : next keyPrefix backfillTtlSec redis mysql (begin (.setNX key value ttlSec)) =
          (.set key value ttlSec (.inserted true), redis,
            mysql.put key (some (mysql.row value (ttlSec : ℕ))), none) := by
        simp only [begin, next, hrow]
      rw [run_of_no_reply hinsert]
      exact ⟨_, _, _, ctx', run_of_reply rfl, by simp only [hset]; rfl⟩
  | set key value ttlSec =>
    obtain ⟨ctx', hreplace⟩ := set_eq_replace c keyPrefix (backfillTtlSec : ℕ) key value
      (ttlSec : ℕ) (⟨ctx, redis⟩, mysql)
    simp only [ClientOp.storeOp, IStore.exec, hreplace, hset]
    exact ⟨_, _, _, ctx', (run_of_no_reply rfl).trans (run_of_reply rfl), rfl⟩
  | del key =>
    obtain ⟨ctx', hdel⟩ := del_eq_delete c keyPrefix (backfillTtlSec : ℕ) key (⟨ctx, redis⟩, mysql)
    simp only [ClientOp.storeOp, IStore.exec, hdel]
    exact ⟨_, _, _, ctx', (run_of_no_reply rfl).trans (run_of_reply rfl), rfl⟩

end Steps

/-- What the client is about to put into Redis, a value or nothing, by the key. -/
def puts : Client → Option (Bytes × Option Bytes)
  | .fill key value => some (key, some value)
  | .set key value _ _ => some (key, some value)
  | .del key => some (key, none)
  | _ => none

/-- The write that the client is about to complete. -/
def completes : Client → Option (Bytes × Option Bytes)
  | .set key value _ _ => some (key, some value)
  | .del key => some (key, none)
  | _ => none

section Cases

variable (keyPrefix : Bytes) (backfillTtlSec : ℕ+) (client : Client) (redis : RedisData)
  (mysql : MySql)

theorem completes_eq_none {client : Client} (h : client.puts = none) : client.completes = none := by
  cases client <;> first | rfl | cases h

/-- What a step does to the servers: nothing, or a row is written or deleted and Redis comes next,
or something is put into Redis. -/
theorem next_cases : let result := client.next keyPrefix backfillTtlSec redis mysql
    (client.puts = none ∧ result.2.1 = redis ∧ result.2.2.1 = mysql) ∨
      (∃ key row, client.puts = none ∧ result.2.1 = redis ∧ result.2.2.1 = mysql.put key row ∧
        result.1.completes = some (key, row.map (·.longUrl))) ∨
      ∃ key x, client.puts = some (key, x) := by
  cases client with
  | idle => exact .inl ⟨rfl, rfl, rfl⟩
  | get key =>
    left
    simp only [next]
    split <;> exact ⟨rfl, rfl, rfl⟩
  | select key =>
    left
    simp only [next]
    split <;> exact ⟨rfl, rfl, rfl⟩
  | fill key v => exact .inr (.inr ⟨key, some v, rfl⟩)
  | insert key value ttlSec =>
    simp only [next]
    split
    · exact .inl ⟨rfl, rfl, rfl⟩
    · exact .inr (.inl ⟨key, _, rfl, rfl, rfl, rfl⟩)
  | replace key value ttlSec => exact .inr (.inl ⟨key, _, rfl, rfl, rfl, rfl⟩)
  | set key value ttlSec reply => exact .inr (.inr ⟨key, some value, rfl⟩)
  | delete key => exact .inr (.inl ⟨key, none, rfl, rfl, rfl, rfl⟩)
  | del key => exact .inr (.inr ⟨key, none, rfl⟩)

variable {client}

/-- A step that puts something into Redis, and ends the operation. -/
theorem next_of_puts {key : Bytes} {x : Option Bytes} (h : client.puts = some (key, x)) :
    let result := client.next keyPrefix backfillTtlSec redis mysql
    result.1 = .idle ∧ result.2.2.1 = mysql ∧
      ∀ wire, result.2.1.get wire = if wire = wireKey keyPrefix key then x else redis.get wire := by
  cases client with
  | fill key v =>
    cases h
    exact ⟨rfl, rfl, fun wire => TtlMap.get_set ..⟩
  | set key value ttlSec reply =>
    cases h
    exact ⟨rfl, rfl, fun wire => TtlMap.get_set ..⟩
  | del key =>
    cases h
    exact ⟨rfl, rfl, fun wire => TtlMap.get_del ..⟩
  | idle | get | select | insert | replace | delete => cases h

/-- A client that puts something into Redis completes a write with it, or fills Redis in. -/
theorem completes_of_puts {p : Bytes × Option Bytes} (h : client.puts = some p) :
    client.completes = some p ∨ client.completes = none := by
  cases client <;> first | exact .inl h | exact .inr rfl

theorem completes_of_puts_none {key : Bytes} (h : client.puts = some (key, none)) :
    client.completes = some (key, none) := by
  cases client <;> first | exact h | cases h

end Cases

end Client

/-- The two servers, where each client is, and what the last completed write of each key left. -/
structure Clients (C : Type*) where
  redis : RedisData
  mysql : MySql
  client : C → Client
  written : Bytes → Option Bytes

/-- A client is asked for an operation, or makes a step, or time passes. -/
inductive ClientEvent (C : Type*)
  | begin (t : C) (op : ClientOp)
  | step (t : C)
  | tick (seconds : ℕ)

namespace Clients

variable {C : Type*} [DecidableEq C] (keyPrefix : Bytes) (backfillTtlSec : ℕ+)

def next (s : Clients C) : ClientEvent C → Clients C
  | .begin t op => { s with client := Function.update s.client t (.begin op) }
  | .step t =>
    let result := (s.client t).next keyPrefix backfillTtlSec s.redis s.mysql
    { redis := result.2.1
      mysql := result.2.2.1
      client := Function.update s.client t result.1
      written := match (s.client t).completes with
        | some (key, value) => Function.update s.written key value
        | none => s.written }
  | .tick seconds => { s with redis := s.redis.tick seconds, mysql := s.mysql.tick seconds }

/-- A client is asked when it has no operation, and makes steps when it has one. -/
def Enabled (s : Clients C) : ClientEvent C → Prop
  | .begin t _ => s.client t = .idle
  | .step t => s.client t ≠ .idle
  | .tick _ => True

instance (s : Clients C) : DecidablePred s.Enabled
  | .begin t _ => inferInstanceAs (Decidable (s.client t = .idle))
  | .step t => inferInstanceAs (Decidable (s.client t ≠ .idle))
  | .tick _ => .isTrue trivial

def fresh (now : ℕ) : Clients C := ⟨.empty now, .empty now, fun _ => .idle, fun _ => none⟩

/-- No client is in an operation. -/
def Quiescent (s : Clients C) : Prop := ∀ t, s.client t = .idle

instance [Fintype C] (s : Clients C) : Decidable s.Quiescent :=
  inferInstanceAs (Decidable (∀ _, _ = _))

/-- The value in the row of a key. -/
def value (s : Clients C) (key : Bytes) : Option Bytes := (s.mysql.rows key).map (·.longUrl)

end Clients

/-- The runs of the clients, in any order, on servers without data. -/
def clientSystem (C : Type*) [DecidableEq C] (keyPrefix : Bytes) (backfillTtlSec : ℕ+) :
    System (Clients C) (ClientEvent C) where
  init s := ∃ now, s = .fresh now
  step s e s' := s.Enabled e ∧ s' = s.next keyPrefix backfillTtlSec e

namespace CacheAside

variable {C : Type*}

/-- The servers and the store agree on the keys without null bytes: what Redis has is in the row,
there is nothing for a row that was deleted, and `get` returns what the last completed write left,
or nothing if that has expired. -/
structure Coherent (c : RedisClient) (keyPrefix : Bytes) (backfillTtlSec : ℕ+) (s : Clients C) :
    Prop where
  cached : ∀ key, 0 ∉ keyPrefix ++ key → ∀ v, s.redis.get (wireKey keyPrefix key) = some v →
    ∃ row, s.mysql.rows key = some row ∧ row.longUrl = v
  deleted : ∀ key, 0 ∉ keyPrefix ++ key → s.mysql.rows key = none →
    s.redis.get (wireKey keyPrefix key) = none
  last : ∀ key, 0 ∉ keyPrefix ++ key → ∀ ctx,
    let answer := ((onServers c keyPrefix (backfillTtlSec : ℕ)).get key (⟨ctx, s.redis⟩, s.mysql)).1
    answer = .ok (s.written key) ∨
      answer = .ok none ∧ ∃ row, s.mysql.rows key = some row ∧ MySql.Expired s.mysql.now row

/-- A client is about to complete the write that made the row of the key what it is. -/
def Fresh (s : Clients C) (t : C) (key : Bytes) : Prop :=
  (s.client t).completes = some (key, s.value key)

/-- What a client puts into Redis is what the row of the key has, or another client is about to
complete the write that made it so; and the key has no null byte. -/
def Orderly (keyPrefix : Bytes) (s : Clients C) : ClientEvent C → Prop
  | .step t => ∀ key x, (s.client t).puts = some (key, x) →
    0 ∉ keyPrefix ++ key ∧ (s.value key = x ∨ ∃ t', t' ≠ t ∧ Fresh s t' key)
  | _ => True

instance [Fintype C] [DecidableEq C] (keyPrefix : Bytes) (s : Clients C) :
    DecidablePred (Orderly keyPrefix s)
  | .begin _ _ => .isTrue trivial
  | .step t => decidable_of_iff (∀ p ∈ (s.client t).puts,
      0 ∉ keyPrefix ++ p.1 ∧ (s.value p.1 = p.2 ∨
        ∃ t', t' ≠ t ∧ (s.client t').completes = some (p.1, s.value p.1)))
      ⟨fun h key x hp => h (key, x) hp, fun h p hp => h p.1 p.2 hp⟩
  | .tick _ => .isTrue trivial

/-! ## What keeps the servers in agreement -/

/-- Redis, the row and the last completed write agree on the key. -/
structure Agrees (keyPrefix : Bytes) (s : Clients C) (key : Bytes) : Prop where
  redis : ∀ v, s.redis.get (wireKey keyPrefix key) = some v → s.value key = some v
  written : s.written key = s.value key

variable {c : RedisClient} {keyPrefix : Bytes} {backfillTtlSec : ℕ+} {s s' : Clients C} {t t' : C}
  {key : Bytes}

/-- For each key without null bytes the servers agree, or a client is about to make them. -/
def Settles (keyPrefix : Bytes) (s : Clients C) (key : Bytes) : Prop :=
  Agrees keyPrefix s key ∨ ∃ t, Fresh s t key

/-- What a step leaves as it is, for one key. -/
theorem Settles.frame (h : Settles keyPrefix s key)
    (hredis : ∀ v, s'.redis.get (wireKey keyPrefix key) = some v →
      s.redis.get (wireKey keyPrefix key) = some v)
    (hvalue : s'.value key = s.value key) (hwritten : s'.written key = s.written key)
    (hfresh : ∀ t, Fresh s t key → Fresh s' t key) : Settles keyPrefix s' key := by
  rcases h with h | ⟨t, h⟩
  · left
    exact ⟨fun v hv => hvalue.trans (h.redis v (hredis v hv)),
      hwritten.trans (h.written.trans hvalue.symm)⟩
  · exact .inr ⟨t, hfresh t h⟩

theorem Fresh.of_client_eq (h : Fresh s t key) (hclient : s'.client t = s.client t)
    (hvalue : s'.value key = s.value key) : Fresh s' t key := by
  rw [Fresh, hclient, hvalue]
  exact h

theorem not_fresh_of_completes_eq_none (h : (s.client t).completes = none) : ¬ Fresh s t key := by
  intro hf
  rw [Fresh, h] at hf
  cases hf

/-! ### What agreement means to a reader -/

theorem Settles.agrees (h : Settles keyPrefix s key) (hq : s.Quiescent) :
    Agrees keyPrefix s key := by
  rcases h with h | ⟨t, hf⟩
  · exact h
  · rw [Fresh, hq t] at hf
    cases hf

theorem Agrees.exists_row (h : Agrees keyPrefix s key) {v : Bytes}
    (hv : s.redis.get (wireKey keyPrefix key) = some v) :
    ∃ row, s.mysql.rows key = some row ∧ row.longUrl = v :=
  Option.map_eq_some_iff.1 (h.redis v hv)

theorem Agrees.get_eq_none (h : Agrees keyPrefix s key) (hrow : s.mysql.rows key = none) :
    s.redis.get (wireKey keyPrefix key) = none := by
  by_contra hne
  obtain ⟨v, hv⟩ := Option.ne_none_iff_exists'.1 hne
  obtain ⟨row, hrow', -⟩ := h.exists_row hv
  rw [hrow] at hrow'
  cases hrow'

/-- `get` returns the last completed write, or nothing if the row has expired. -/
theorem Agrees.answer (h : Agrees keyPrefix s key) (c : RedisClient) (backfillTtlSec : ℕ+)
    (ctx : Option RedisContext) :
    let answer := ((onServers c keyPrefix (backfillTtlSec : ℕ)).get key (⟨ctx, s.redis⟩, s.mysql)).1
    answer = .ok (s.written key) ∨
      answer = .ok none ∧ ∃ row, s.mysql.rows key = some row ∧ MySql.Expired s.mysql.now row := by
  intro answer
  obtain ⟨ctx', hget⟩ :=
    get_eq_found c keyPrefix (backfillTtlSec : ℕ) key (⟨ctx, s.redis⟩, s.mysql)
  have hanswer : answer = .ok (found keyPrefix key (⟨ctx, s.redis⟩, s.mysql)) :=
    congrArg Prod.fst hget
  rw [hanswer, h.written, found]
  cases hr : s.redis.get (wireKey keyPrefix key) with
  | some v =>
    rw [h.redis v hr]
    exact .inl rfl
  | none =>
    rw [Option.none_or, Clients.value, MySql.select]
    cases hrow : s.mysql.rows key with
    | none => exact .inl rfl
    | some row =>
      by_cases hexpired : MySql.Expired s.mysql.now row
      · exact .inr ⟨by simp [hexpired], row, rfl, hexpired⟩
      · exact .inl (by simp [hexpired])

/-! ### The steps -/

variable [DecidableEq C]

/-- A client that another client's step leaves where it is. -/
theorem client_next_of_ne (h : t' ≠ t) :
    (s.next keyPrefix backfillTtlSec (.step t)).client t' = s.client t' :=
  Function.update_of_ne h ..

/-- What a step of a client does to the servers and to the last completed writes. -/
theorem next_step_cases (keyPrefix : Bytes) (backfillTtlSec : ℕ+) (s : Clients C) (t : C) :
    let s' := s.next keyPrefix backfillTtlSec (.step t)
    ((s.client t).completes = none ∧ s'.redis = s.redis ∧ s'.mysql = s.mysql ∧
        s'.written = s.written) ∨
      (∃ key row, (s.client t).completes = none ∧ s'.redis = s.redis ∧
        s'.mysql = s.mysql.put key row ∧ s'.written = s.written ∧
        (s'.client t).completes = some (key, row.map (·.longUrl))) ∨
      ∃ key x, (s.client t).puts = some (key, x) := by
  intro s'
  have hwritten : (s.client t).completes = none → s'.written = s.written := fun hnone => by
    simp only [s', Clients.next, hnone]
  rcases Client.next_cases keyPrefix backfillTtlSec (s.client t) s.redis s.mysql with
    ⟨hputs, hredis, hmysql⟩ | ⟨key, row, hputs, hredis, hmysql, hnext⟩ | hputs
  · have hnone := Client.completes_eq_none hputs
    exact .inl ⟨hnone, hredis, hmysql, hwritten hnone⟩
  · have hnone := Client.completes_eq_none hputs
    have hclient : s'.client t =
        ((s.client t).next keyPrefix backfillTtlSec s.redis s.mysql).1 := Function.update_self ..
    refine .inr (.inl ⟨key, row, hnone, hredis, hmysql, hwritten hnone, ?_⟩)
    rw [hclient]
    exact hnext
  · exact .inr (.inr hputs)

/-- A step that puts something into Redis: the operation ends, and if it was a write, this one is
the last to be completed. -/
theorem next_step_of_puts (keyPrefix : Bytes) (backfillTtlSec : ℕ+) {x : Option Bytes}
    (h : (s.client t).puts = some (key, x)) :
    let s' := s.next keyPrefix backfillTtlSec (.step t)
    s'.client t = .idle ∧ s'.mysql = s.mysql ∧
      (∀ wire, s'.redis.get wire = if wire = wireKey keyPrefix key then x else s.redis.get wire) ∧
      ((s.client t).completes = some (key, x) ∧ s'.written = Function.update s.written key x ∨
        (s.client t).completes = none ∧ s'.written = s.written) := by
  intro s'
  obtain ⟨hidle, hmysql, hredis⟩ :=
    Client.next_of_puts keyPrefix backfillTtlSec s.redis s.mysql h
  have hclient : s'.client t =
      ((s.client t).next keyPrefix backfillTtlSec s.redis s.mysql).1 := Function.update_self ..
  refine ⟨hclient.trans hidle, hmysql, hredis, ?_⟩
  rcases Client.completes_of_puts h with hsome | hnone
  · exact .inl ⟨hsome, by simp only [s', Clients.next, hsome]⟩
  · exact .inr ⟨hnone, by simp only [s', Clients.next, hnone]⟩

theorem Settles.begin (h : Settles keyPrefix s key) (op : ClientOp) (ht : s.client t = .idle) :
    Settles keyPrefix (s.next keyPrefix backfillTtlSec (.begin t op)) key := by
  refine h.frame (fun _ hv => hv) rfl rfl fun t' hf => ?_
  have hne : t' ≠ t := by
    rintro rfl
    rw [Fresh, ht] at hf
    cases hf
  exact hf.of_client_eq (Function.update_of_ne hne ..) rfl

theorem Settles.tick (h : Settles keyPrefix s key) (seconds : ℕ) :
    Settles keyPrefix (s.next keyPrefix backfillTtlSec (.tick seconds)) key :=
  h.frame (fun _ hv => TtlMap.get_tick hv) rfl rfl fun _ hf => hf

/-- A step that concerns another key, or only looks. -/
theorem Settles.frame_step (h : Settles keyPrefix s key)
    (hnot : ¬ Fresh s t key)
    (hredis : ∀ v, (s.next keyPrefix backfillTtlSec (.step t)).redis.get (wireKey keyPrefix key) =
      some v → s.redis.get (wireKey keyPrefix key) = some v)
    (hvalue : (s.next keyPrefix backfillTtlSec (.step t)).value key = s.value key)
    (hwritten : (s.next keyPrefix backfillTtlSec (.step t)).written key = s.written key) :
    Settles keyPrefix (s.next keyPrefix backfillTtlSec (.step t)) key := by
  refine h.frame hredis hvalue hwritten fun t' hf => ?_
  have hne : t' ≠ t := by
    rintro rfl
    exact hnot hf
  exact hf.of_client_eq (client_next_of_ne hne) hvalue

/-- A step that puts into Redis what the row has, or what another client is about to replace. -/
theorem Settles.put {x : Option Bytes} (h : Settles keyPrefix s key)
    (hcurrent : s.value key = x ∨ ∃ t', t' ≠ t ∧ Fresh s t' key)
    (hvalue : (s.next keyPrefix backfillTtlSec (.step t)).value key = s.value key)
    (hredis : (s.next keyPrefix backfillTtlSec (.step t)).redis.get (wireKey keyPrefix key) = x)
    (hdone : (s.next keyPrefix backfillTtlSec (.step t)).written key = x ∨
      (s.client t).completes = none ∧
        (s.next keyPrefix backfillTtlSec (.step t)).written key = s.written key) :
    Settles keyPrefix (s.next keyPrefix backfillTtlSec (.step t)) key := by
  have hother : ∀ t', t' ≠ t → Fresh s t' key →
      Settles keyPrefix (s.next keyPrefix backfillTtlSec (.step t)) key := fun t' hne hf =>
    .inr ⟨t', hf.of_client_eq (client_next_of_ne hne) hvalue⟩
  rcases hcurrent with hx | ⟨t', hne, hf⟩
  · have hput : ∀ v, (s.next keyPrefix backfillTtlSec (.step t)).redis.get
        (wireKey keyPrefix key) = some v →
          (s.next keyPrefix backfillTtlSec (.step t)).value key = some v := by
      intro v hv
      rw [hvalue, hx, ← hredis, hv]
    rcases hdone with hwritten | ⟨hnone, hwritten⟩
    · exact .inl ⟨hput, by rw [hwritten, hvalue, hx]⟩
    · -- a backfill completes no write: the last one stands, or is about to be completed
      rcases h with h | ⟨t', hf⟩
      · exact .inl ⟨hput, by rw [hwritten, hvalue, h.written]⟩
      · refine hother t' ?_ hf
        rintro rfl
        exact not_fresh_of_completes_eq_none hnone hf
  · exact hother t' hne hf

/-- **One step of a client**, in which it puts into Redis only what the row has or what another
client is about to replace. -/
theorem Settles.step (h : Settles keyPrefix s key) (hkey : 0 ∉ keyPrefix ++ key)
    (ho : Orderly keyPrefix s (.step t)) :
    Settles keyPrefix (s.next keyPrefix backfillTtlSec (.step t)) key := by
  rcases next_step_cases keyPrefix backfillTtlSec s t with ⟨hnone, hredis, hmysql, hwritten⟩ |
    ⟨key', row, hnone, hredis, hmysql, hwritten, hnext⟩ | ⟨key', x, hputs⟩
  · refine h.frame_step (not_fresh_of_completes_eq_none hnone) ?_ ?_ ?_
    · intro v hv
      rwa [hredis] at hv
    · rw [Clients.value, hmysql, Clients.value]
    · rw [hwritten]
  · by_cases hk : key = key'
    · -- the row is new, and this client is about to tell Redis
      subst hk
      refine .inr ⟨t, ?_⟩
      rw [Fresh, hnext, Clients.value, hmysql, MySql.rows_put, if_pos rfl]
    · refine h.frame_step (not_fresh_of_completes_eq_none hnone) ?_ ?_ ?_
      · intro v hv
        rwa [hredis] at hv
      · rw [Clients.value, hmysql, MySql.rows_put, if_neg hk, Clients.value]
      · rw [hwritten]
  · obtain ⟨hkey', hcurrent⟩ := ho key' x hputs
    obtain ⟨-, hmysql, hredis, hdone⟩ := next_step_of_puts keyPrefix backfillTtlSec hputs
    have hvalue : (s.next keyPrefix backfillTtlSec (.step t)).value key = s.value key := by
      rw [Clients.value, hmysql, Clients.value]
    by_cases hk : key = key'
    · subst hk
      refine h.put hcurrent hvalue (by rw [hredis, if_pos rfl]) ?_
      rcases hdone with ⟨-, hwritten⟩ | ⟨hnone, hwritten⟩
      · exact .inl (by rw [hwritten, Function.update_self])
      · exact .inr ⟨hnone, by rw [hwritten]⟩
    · refine h.frame_step ?_ ?_ hvalue ?_
      · rcases hdone with ⟨hsome, -⟩ | ⟨hnone, -⟩
        · intro hf
          rw [Fresh, hsome] at hf
          cases hf
          exact hk rfl
        · exact not_fresh_of_completes_eq_none hnone
      · intro v hv
        rwa [hredis, if_neg (wireKey_ne hkey' hkey hk)] at hv
      · rcases hdone with ⟨-, hwritten⟩ | ⟨-, hwritten⟩
        · rw [hwritten, Function.update_of_ne hk]
        · rw [hwritten]

/-- Along orderly steps the servers agree on each key, or a client is about to make them. -/
theorem settles_of_reaches
    (h : Reaches (clientSystem C keyPrefix backfillTtlSec) (Orderly keyPrefix) s)
    (hkey : 0 ∉ keyPrefix ++ key) : Settles keyPrefix s key := by
  refine h.invariant (I := fun s => Settles keyPrefix s key) ?_ ?_
  · rintro _ ⟨now, rfl⟩
    left
    exact ⟨fun v hv => (by cases hv), rfl⟩
  · rintro s e _ hs ho ⟨hen, rfl⟩
    cases e with
    | begin t op => exact hs.begin op hen
    | step t => exact hs.step hkey ho
    | tick seconds => exact hs.tick seconds

/-- **Coherence.** For any number of clients and any order of their steps, when no client is in an
operation: in every state reached by steps that put into Redis only what the row has, or what
another client is about to replace. -/
theorem coherent_of_orderly (c : RedisClient)
    (h : Reaches (clientSystem C keyPrefix backfillTtlSec) (Orderly keyPrefix) s)
    (hq : s.Quiescent) : Coherent c keyPrefix backfillTtlSec s := by
  have hagrees : ∀ key, 0 ∉ keyPrefix ++ key → Agrees keyPrefix s key := fun key hkey =>
    (settles_of_reaches h hkey).agrees hq
  refine ⟨fun key hkey v hv => ?_, fun key hkey hrow => ?_, fun key hkey ctx => ?_⟩
  · exact (hagrees key hkey).exists_row hv
  · exact (hagrees key hkey).get_eq_none hrow
  · exact (hagrees key hkey).answer c backfillTtlSec ctx

/-- Two writes of one key that cross: the first of the two to reach MySQL is the first to reach
Redis. -/
theorem coherent_of_orderly_crossing :
    let c := RedisClient.new (bytes "127.0.0.1") 6379 200
    let es : List (ClientEvent Bool) :=
      [.begin false (.set (bytes "a") (bytes "u") 10),
        .begin true (.set (bytes "a") (bytes "v") 10),
        .step false, .step true, .step false, .step true]
    let s := es.foldl (Clients.next (bytes "short:") 60) (.fresh 0)
    s.written (bytes "a") = some (bytes "v") ∧ Coherent c (bytes "short:") 60 s := by
  intro c es s
  have hruns : Runs (fun s e => s.Enabled e ∧ Orderly (bytes "short:") s e)
      (Clients.next (bytes "short:") 60) (.fresh 0) es := by
    decide +kernel
  have hreaches : Reaches (clientSystem Bool (bytes "short:") 60) (Orderly (bytes "short:")) s :=
    .of_runs (fun _ _ he => ⟨he.2, he.1, rfl⟩) (.init ⟨0, rfl⟩) hruns
  exact ⟨by decide +kernel, coherent_of_orderly c hreaches (by decide +kernel)⟩

/-! ## What goes wrong -/

/-- **The last client** to put something into Redis that the row has no longer leaves the servers in
disagreement; a `DEL` that finds a row again does so until the row expires. -/
theorem not_coherent_of_stale (c : RedisClient) {x : Option Bytes} (hkey : 0 ∉ keyPrefix ++ key)
    (hothers : ∀ t', t' ≠ t → s.client t' = .idle) (hputs : (s.client t).puts = some (key, x))
    (hstale : s.value key ≠ x)
    (hlive : x = none → ∀ row, s.mysql.rows key = some row → ¬ MySql.Expired s.mysql.now row) :
    (s.next keyPrefix backfillTtlSec (.step t)).Quiescent ∧
      ¬ Coherent c keyPrefix backfillTtlSec (s.next keyPrefix backfillTtlSec (.step t)) := by
  obtain ⟨hidle, hmysql, hredis, hdone⟩ := next_step_of_puts keyPrefix backfillTtlSec hputs
  have hvalue : (s.next keyPrefix backfillTtlSec (.step t)).value key = s.value key := by
    rw [Clients.value, hmysql, Clients.value]
  have hput :
      (s.next keyPrefix backfillTtlSec (.step t)).redis.get (wireKey keyPrefix key) = x := by
    rw [hredis, if_pos rfl]
  refine ⟨fun t' => ?_, fun h => ?_⟩
  · by_cases ht : t' = t
    · rw [ht, hidle]
    · rw [client_next_of_ne ht, hothers t' ht]
  · cases x with
    | some v =>
      obtain ⟨row, hrow, hv⟩ := h.cached key hkey v hput
      rw [← hvalue, Clients.value, hrow, ← hv] at hstale
      exact hstale rfl
    | none =>
      -- the row is there and has not expired, and the last write was the deletion
      have hwritten : (s.next keyPrefix backfillTtlSec (.step t)).written key = none := by
        rcases hdone with ⟨-, hwritten⟩ | ⟨hnone, -⟩
        · rw [hwritten, Function.update_self]
        · rw [Client.completes_of_puts_none hputs] at hnone
          cases hnone
      obtain ⟨row, hrow⟩ : ∃ row, s.mysql.rows key = some row :=
        Option.ne_none_iff_exists'.1 fun hnone => hstale (by rw [Clients.value, hnone]; rfl)
      obtain ⟨ctx, hget⟩ := get_eq_found c keyPrefix (backfillTtlSec : ℕ) key
        (⟨none, (s.next keyPrefix backfillTtlSec (.step t)).redis⟩,
          (s.next keyPrefix backfillTtlSec (.step t)).mysql)
      have hselect : s.mysql.select key = some row.longUrl :=
        MySql.select_eq_some_iff.2 ⟨row, hrow, hlive rfl row hrow, rfl⟩
      have hfound : found keyPrefix key
          (⟨none, (s.next keyPrefix backfillTtlSec (.step t)).redis⟩,
            (s.next keyPrefix backfillTtlSec (.step t)).mysql) = some row.longUrl := by
        rw [found, hput, hmysql, hselect]
        rfl
      rcases h.last key hkey none with hlast | ⟨hlast, -⟩
      · rw [hget, hfound, hwritten] at hlast
        cases hlast
      · rw [hget, hfound] at hlast
        cases hlast

/-- A client reads a row that another deletes before it fills Redis. -/
def lateFill : List (ClientEvent Bool) :=
  [.begin false (.set (bytes "a") (bytes "u") 10), .step false, .begin true (.get (bytes "a")),
    .step true, .step true, .step false, .begin false (.del (bytes "a")), .step false, .step false,
    .step true]

/-- A backfill that comes behind a deletion: the row is gone, and Redis has it for a minute. -/
theorem not_coherent_of_late_fill :
    let c := RedisClient.new (bytes "127.0.0.1") 6379 200
    ∃ s : Clients Bool, Reaches (clientSystem Bool (bytes "short:") 60) Always s ∧ s.Quiescent ∧
      s.mysql.rows (bytes "a") = none ∧ s.written (bytes "a") = none ∧
      s.redis.get (bytes "short:a") = some (bytes "u") ∧ ¬ Coherent c (bytes "short:") 60 s := by
  intro c
  have hruns : Runs Clients.Enabled (Clients.next (bytes "short:") 60) (.fresh 0) lateFill := by
    decide +kernel
  refine ⟨lateFill.foldl (Clients.next (bytes "short:") 60) (.fresh 0), ?_, by decide +kernel,
    by decide +kernel, by decide +kernel, by decide +kernel, fun h => ?_⟩
  · exact .of_runs (fun _ _ he => ⟨trivial, he, rfl⟩) (.init ⟨0, rfl⟩) hruns
  · have hdeleted := h.deleted (bytes "a") (by decide) (by decide +kernel)
    revert hdeleted
    decide +kernel

end CacheAside

end KamaHttp
