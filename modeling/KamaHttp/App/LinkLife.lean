import KamaHttp.App.CacheServers

/-!
# How long a link lives behind the cache

The runs of `CacheAsideStore` in which time passes and Redis drops entries at any moment. MySQL
gives a link away until `created + ttl`, that second included, and `get` then fills Redis for
another `backfillTtlSec` seconds.

* `exists_effect`: what an operation answers, and what it leaves in Redis and in MySQL.
* `not_returned_late`: a link is not returned when its time to live has elapsed, in the runs in
  which nothing puts it into Redis for longer than it has left.
* `Dies.fits_get`: a `get` of the link does not, with `backfillTtlSec ≤ 1`.
* `exists_returned_of_not_fits`: an operation that does prolongs the link.
* `returned_late`: a `get` in the last second of a link prolongs it by a minute.
-/

namespace KamaHttp

open RedisStore MySql

namespace CacheAside

/-- An operation on the store, or an entry that Redis drops, by its key there. -/
inductive CacheOp
  | store (op : StoreOp)
  | evict (wire : Bytes)

section Runs

variable (c : RedisClient) (keyPrefix : Bytes) (backfillTtlSec : ℤ)

/-- The runs. -/
def exec : Machine CacheOp Servers (Except StdException StoreReply)
  | .store op, w => (onServers c keyPrefix backfillTtlSec).exec Servers.tick op w
  | .evict wire, w => (.ok .done, ({ w.1 with env := w.1.env.del wire }, w.2))

/-- The operation writes a link: it is `set`, or it is `setNX` and returns `true`. -/
def Writes (key value : Bytes) (ttlSec : ℤ) (w : Servers) (op : CacheOp) : Prop :=
  op = .store (.set key value ttlSec) ∨ op = .store (.setNX key value ttlSec) ∧
    (exec c keyPrefix backfillTtlSec op w).1 = .ok (.inserted true)

end Runs

/-- What an operation answers, and what it leaves in Redis and in MySQL. -/
inductive Effect (keyPrefix : Bytes) (backfillTtlSec : ℤ) (w : Servers) :
    CacheOp → Except StdException StoreReply → RedisData → MySql → Prop
  | looks {key} (hno : w.1.env.get (wireKey keyPrefix key) = none → w.2.select key = none) :
      Effect keyPrefix backfillTtlSec w (.store (.get key)) (.ok (.value (found keyPrefix key w)))
        w.1.env w.2
  | fills {key v} (hr : w.1.env.get (wireKey keyPrefix key) = none)
      (hs : w.2.select key = some v) : Effect keyPrefix backfillTtlSec w (.store (.get key))
        (.ok (.value (some v))) (setData w.1.env (wireKey keyPrefix key) v backfillTtlSec) w.2
  | taken {key v ttl row} (hrow : w.2.rows key = some row) :
      Effect keyPrefix backfillTtlSec w (.store (.setNX key v ttl)) (.ok (.inserted false))
        w.1.env w.2
  | inserts {key v ttl} (hrow : w.2.rows key = none) :
      Effect keyPrefix backfillTtlSec w (.store (.setNX key v ttl)) (.ok (.inserted true))
        (setData w.1.env (wireKey keyPrefix key) v ttl) (w.2.put key (some (w.2.row v ttl)))
  | replaces {key v ttl} : Effect keyPrefix backfillTtlSec w (.store (.set key v ttl)) (.ok .done)
      (setData w.1.env (wireKey keyPrefix key) v ttl) (w.2.put key (some (w.2.row v ttl)))
  | deletes {key} : Effect keyPrefix backfillTtlSec w (.store (.del key)) (.ok .done)
      (w.1.env.del (wireKey keyPrefix key)) (w.2.put key none)
  | ticks {seconds} : Effect keyPrefix backfillTtlSec w (.store (.tick seconds)) (.ok .done)
      (w.1.env.tick seconds) (w.2.tick seconds)
  | evicts {wire} : Effect keyPrefix backfillTtlSec w (.evict wire) (.ok .done)
      (w.1.env.del wire) w.2

/-- **Every operation has one of these effects.** -/
theorem exists_effect (c : RedisClient) (keyPrefix : Bytes) (backfillTtlSec : ℤ) (op : CacheOp)
    (w : Servers) : ∃ ctx answer env db,
      exec c keyPrefix backfillTtlSec op w = (answer, (⟨ctx, env⟩, db)) ∧
        Effect keyPrefix backfillTtlSec w op answer env db := by
  rcases op with (key | ⟨key, v, ttl⟩ | ⟨key, v, ttl⟩ | key | seconds) | wire
  · obtain ⟨ctx, hget⟩ := get_eq_found c keyPrefix backfillTtlSec key w
    simp only [exec, IStore.exec, hget]
    refine ⟨ctx, _, _, _, rfl, ?_⟩
    unfold filled
    split
    · rename_i v hr hs
      have hfound : found keyPrefix key w = some v := by
        rw [found, hr, hs]
        rfl
      rw [hfound]
      exact .fills hr hs
    · rename_i hother
      exact .looks fun hr => Option.eq_none_iff_forall_ne_some.2 fun v => hother v hr
  · obtain ⟨ctx, hset⟩ := setNX_eq_insert c keyPrefix backfillTtlSec key v ttl w
    simp only [exec, IStore.exec, hset]
    cases hrow : w.2.rows key with
    | some row => exact ⟨w.1.ctx, _, _, _, rfl, .taken hrow⟩
    | none => exact ⟨ctx, _, _, _, rfl, .inserts hrow⟩
  · obtain ⟨ctx, hset⟩ := set_eq_replace c keyPrefix backfillTtlSec key v ttl w
    simp only [exec, IStore.exec, hset]
    exact ⟨ctx, _, _, _, rfl, .replaces⟩
  · obtain ⟨ctx, hdel⟩ := del_eq_delete c keyPrefix backfillTtlSec key w
    simp only [exec, IStore.exec, hdel]
    exact ⟨ctx, _, _, _, rfl, .deletes⟩
  · exact ⟨w.1.ctx, _, _, _, rfl, .ticks⟩
  · exact ⟨w.1.ctx, _, _, _, rfl, .evicts⟩

/-- If the operation puts the value into Redis, under a key that is the same there, then it expires
when the link does or in the second after. -/
def Fits (keyPrefix : Bytes) (backfillTtlSec : ℤ) (key value : Bytes) (elapsed : ℤ) (w : Servers) :
    CacheOp → Prop
  | .store (.get key') => wireKey keyPrefix key' = wireKey keyPrefix key →
    w.1.env.get (wireKey keyPrefix key) = none → w.2.select key' = some value →
      backfillTtlSec ≤ 0 ∨ w.2.now + backfillTtlSec ≤ elapsed + 1
  | .store (.setNX key' v ttl) => wireKey keyPrefix key' = wireKey keyPrefix key →
    w.2.rows key' = none → v = value → ttl ≤ 0 ∨ w.2.now + ttl ≤ elapsed + 1
  | .store (.set key' v ttl) => wireKey keyPrefix key' = wireKey keyPrefix key → v = value →
    ttl ≤ 0 ∨ w.2.now + ttl ≤ elapsed + 1
  | _ => True

/-! ## The link in the two servers -/

/-- MySQL has the link or nothing under the key, and if Redis has the value, then it expires when
the link does or in the second after. -/
structure Dies (keyPrefix key value : Bytes) (created : ℕ) (ttlSec : ℤ) (env : RedisData)
    (db : MySql) : Prop where
  clock : env.now = db.now
  row : ∀ row, db.rows key = some row → row = ⟨value, created, some ttlSec⟩
  entry : ∀ e, env.entry (wireKey keyPrefix key) = some (value, e) →
    ∃ t : ℕ, e = some t ∧ (t : ℤ) ≤ created + ttlSec + 1

namespace Dies

variable {keyPrefix key value : Bytes} {created : ℕ} {ttlSec : ℤ} {env : RedisData} {db : MySql}

/-- The link has just been written. -/
theorem written (hclock : env.now = db.now) (httl : 0 < ttlSec) :
    Dies keyPrefix key value db.now ttlSec (setData env (wireKey keyPrefix key) value ttlSec)
      (db.put key (some (db.row value ttlSec))) where
  clock := by
    rw [setData, if_pos httl]
    exact hclock
  row row hrow := by
    rw [rows_put, if_pos rfl, MySql.row, if_pos httl] at hrow
    exact (Option.some.inj hrow).symm
  entry e he := by
    rw [setData, if_pos httl, TtlMap.entry_set, if_pos rfl, TtlMap.expiry, if_pos httl] at he
    cases he
    refine ⟨_, rfl, ?_⟩
    rw [hclock]
    omega

/-- **When the time has elapsed, neither server has the link.** -/
theorem found_ne (h : Dies keyPrefix key value created ttlSec env db) (httl : 0 < ttlSec)
    (hlate : (created : ℤ) + ttlSec < db.now) (ctx : Option RedisContext) :
    found keyPrefix key (⟨ctx, env⟩, db) ≠ some value := by
  have hmysql : db.select key = none := by
    by_contra hne
    obtain ⟨v, hv⟩ := Option.ne_none_iff_exists'.1 hne
    obtain ⟨row, hrow, hlive, -⟩ := select_eq_some_iff.1 hv
    obtain rfl := h.row row hrow
    exact hlive ⟨httl, hlate⟩
  intro hfound
  rw [found, hmysql, Option.or_none] at hfound
  obtain ⟨e, he, hpending⟩ := TtlMap.get_eq_some_iff.1 hfound
  obtain ⟨t, rfl, ht⟩ := h.entry e he
  rw [TtlMap.pending_some, h.clock] at hpending
  omega

/-- A backfill of a second does not outlast the link. -/
theorem fits_get (h : Dies keyPrefix key value created ttlSec env db) (httl : 0 < ttlSec)
    {backfillTtlSec : ℤ} (hb : backfillTtlSec ≤ 1) (ctx : Option RedisContext) :
    Fits keyPrefix backfillTtlSec key value (created + ttlSec) (⟨ctx, env⟩, db)
      (.store (.get key)) := by
  intro _ _ hselect
  obtain ⟨row, hrow, hlive, -⟩ := select_eq_some_iff.1 hselect
  obtain rfl := h.row row hrow
  have hle : (db.now : ℤ) ≤ created + ttlSec := not_lt.1 fun hlt => hlive ⟨httl, hlt⟩
  right
  show (db.now : ℤ) + backfillTtlSec ≤ created + ttlSec + 1
  omega

/-! ### What the operations do to it -/

theorem tick (h : Dies keyPrefix key value created ttlSec env db) (seconds : ℕ) :
    Dies keyPrefix key value created ttlSec (env.tick seconds) (db.tick seconds) where
  clock := congrArg (· + seconds) h.clock
  row := h.row
  entry := h.entry

/-- Redis loses an entry, and any other server keeps what it has. -/
theorem lost (h : Dies keyPrefix key value created ttlSec env db) (wire : Bytes) :
    Dies keyPrefix key value created ttlSec (env.del wire) db where
  clock := h.clock
  row := h.row
  entry e he := by
    rw [TtlMap.entry_del] at he
    split at he
    · cases he
    · exact h.entry e he

theorem deleted (h : Dies keyPrefix key value created ttlSec env db) (key' : Bytes) :
    Dies keyPrefix key value created ttlSec env (db.put key' none) where
  clock := h.clock
  row row hrow := by
    rw [rows_put] at hrow
    split at hrow
    · cases hrow
    · exact h.row row hrow
  entry := h.entry

/-- An entry is put into Redis. -/
theorem setData (h : Dies keyPrefix key value created ttlSec env db) {wire v : Bytes} {ttl : ℤ}
    (hfits : wire = wireKey keyPrefix key → v = value →
      ttl ≤ 0 ∨ (db.now : ℤ) + ttl ≤ created + ttlSec + 1) :
    Dies keyPrefix key value created ttlSec (setData env wire v ttl) db := by
  unfold RedisStore.setData
  split
  · rename_i hpos
    refine ⟨h.clock, h.row, fun e he => ?_⟩
    rw [TtlMap.entry_set] at he
    split at he
    · rename_i hwire
      rw [TtlMap.expiry, if_pos hpos] at he
      cases he
      refine ⟨_, rfl, ?_⟩
      have hle := hfits hwire.symm rfl
      rw [h.clock]
      omega
    · exact h.entry e he
  · exact h

/-- Another link is written to MySQL. -/
theorem put_other (h : Dies keyPrefix key value created ttlSec env db) {key' : Bytes}
    (hk : key' ≠ key) (row : Option ShortUrl) :
    Dies keyPrefix key value created ttlSec env (db.put key' row) := by
  refine ⟨h.clock, fun row hrow => h.row row ?_, h.entry⟩
  rwa [rows_put, if_neg hk.symm] at hrow

end Dies

/-! ## The runs -/

variable {c : RedisClient} {keyPrefix : Bytes} {backfillTtlSec : ℤ} {key value : Bytes}
  {created : ℕ} {ttlSec : ℤ} {w : Servers} {op : CacheOp}

/-- **One operation** that does not write the link and meets the conditions. -/
theorem Dies.next (h : Dies keyPrefix key value created ttlSec w.1.env w.2)
    (hwrites : ∀ v ttl, ¬ Writes c keyPrefix backfillTtlSec key v ttl w op)
    (hfits : Fits keyPrefix backfillTtlSec key value (created + ttlSec) w op) :
    Dies keyPrefix key value created ttlSec (exec c keyPrefix backfillTtlSec op w).2.1.env
      (exec c keyPrefix backfillTtlSec op w).2.2 := by
  obtain ⟨ctx, answer, env, db, hexec, heffect⟩ := exists_effect c keyPrefix backfillTtlSec op w
  rw [hexec]
  cases heffect with
  | looks | taken => exact h
  | @fills key' v hr hs =>
    refine h.setData fun hwire hv => ?_
    rw [hwire] at hr
    exact hfits hwire hr (hv ▸ hs)
  | @inserts key' v ttl hrow =>
    have hk : key' ≠ key := by
      rintro rfl
      exact hwrites v ttl (.inr ⟨rfl, by rw [hexec]⟩)
    exact (h.setData fun hwire hv => hfits hwire hrow hv).put_other hk _
  | @replaces key' v ttl =>
    have hk : key' ≠ key := by
      rintro rfl
      exact hwrites v ttl (.inl rfl)
    exact (h.setData hfits).put_other hk _
  | @deletes key' => exact (h.lost _).deleted key'
  | @ticks seconds => exact h.tick seconds
  | @evicts wire => exact h.lost wire

/-- A link that is written has the whole of its time before it. -/
theorem Dies.of_writes (hclock : w.1.env.now = w.2.now) (httl : 0 < ttlSec)
    (hop : Writes c keyPrefix backfillTtlSec key value ttlSec w op) :
    Dies keyPrefix key value w.2.now ttlSec (exec c keyPrefix backfillTtlSec op w).2.1.env
      (exec c keyPrefix backfillTtlSec op w).2.2 := by
  obtain ⟨ctx, answer, env, db, hexec, heffect⟩ := exists_effect c keyPrefix backfillTtlSec op w
  rw [Writes, hexec] at hop
  rw [hexec]
  rcases hop with rfl | ⟨rfl, hinserted⟩
  · cases heffect
    exact .written hclock httl
  · cases heffect with
    | taken => cases hinserted
    | inserts => exact .written hclock httl

/-- The clocks of the servers agree. -/
theorem clock_exec (h : w.1.env.now = w.2.now) (op : CacheOp) :
    (exec c keyPrefix backfillTtlSec op w).2.1.env.now =
      (exec c keyPrefix backfillTtlSec op w).2.2.now := by
  obtain ⟨ctx, answer, env, db, hexec, heffect⟩ := exists_effect c keyPrefix backfillTtlSec op w
  rw [hexec]
  cases heffect with
  | looks | taken | deletes | evicts => exact h
  | fills | inserts | replaces => exact (now_setData ..).trans h
  | @ticks seconds => exact congrArg (· + seconds) h

theorem clock_run (calls : List CacheOp) (h : w.1.env.now = w.2.now) :
    ((exec c keyPrefix backfillTtlSec).run calls w).1.env.now =
      ((exec c keyPrefix backfillTtlSec).run calls w).2.now := by
  induction calls generalizing w with
  | nil => exact h
  | cons op calls ih => exact ih (clock_exec h op)

/-- **No link is prolonged**, on any servers whose clocks agree and whatever came before it, if
behind it no operation writes it again, and none puts it into Redis for longer than it has left. -/
theorem not_returned_late (start : Servers) (before : List CacheOp) (op : CacheOp)
    (later : List CacheOp) (hstart : start.1.env.now = start.2.now) (httl : 0 < ttlSec)
    (hw : w = (exec c keyPrefix backfillTtlSec).run before start)
    (hop : Writes c keyPrefix backfillTtlSec key value ttlSec w op)
    (hlater : Along (fun calls op' =>
      let w' := (exec c keyPrefix backfillTtlSec).run (before ++ op :: calls) start
      (∀ v ttl, ¬ Writes c keyPrefix backfillTtlSec key v ttl w' op') ∧
        Fits keyPrefix backfillTtlSec key value (w.2.now + ttlSec) w' op') later)
    {w' : Servers} (hw' : w' = (exec c keyPrefix backfillTtlSec).run (before ++ op :: later) start)
    (hlate : (w.2.now : ℤ) + ttlSec < w'.2.now) :
    ((onServers c keyPrefix backfillTtlSec).get key w').1 ≠ .ok (some value) := by
  have hclock : w.1.env.now = w.2.now := by
    rw [hw]
    exact clock_run before hstart
  have hdies : Dies keyPrefix key value w.2.now ttlSec w'.1.env w'.2 := by
    rw [hw']
    refine hlater.invariant (I := fun calls =>
      Dies keyPrefix key value w.2.now ttlSec
        ((exec c keyPrefix backfillTtlSec).run (before ++ op :: calls) start).1.env
        ((exec c keyPrefix backfillTtlSec).run (before ++ op :: calls) start).2) ?_ ?_
    · rw [Machine.run_concat, ← hw]
      exact .of_writes hclock httl hop
    · rintro calls op' h ⟨hwrites, hfits⟩
      rw [← List.cons_append, ← List.append_assoc, Machine.run_concat]
      exact h.next hwrites hfits
  have hfound : found keyPrefix key w' ≠ some value := hdies.found_ne httl hlate w'.1.ctx
  obtain ⟨ctx, hget⟩ := get_eq_found c keyPrefix backfillTtlSec key w'
  rw [hget]
  intro h
  exact hfound (Except.ok.inj h)

/-- With a backfill of one second: a `get` in the last second of a link, and the second after. -/
theorem not_returned_late_backfill_one :
    let c := RedisClient.new (bytes "127.0.0.1") 6379 200
    let later : List CacheOp := [.store (.tick 10), .store (.get (bytes "a")), .store (.tick 1)]
    let w' := (exec c (bytes "short:") 1).run (.store (.set (bytes "a") (bytes "u") 10) :: later)
      (.fresh 0)
    w'.2.now = 11 ∧
      ((onServers c (bytes "short:") 1).get (bytes "a") w').1 ≠ .ok (some (bytes "u")) := by
  intro c later w'
  refine ⟨by decide +kernel, not_returned_late (.fresh 0) []
    (.store (.set (bytes "a") (bytes "u") 10)) later rfl (by decide) rfl (.inl rfl) ?_ rfl
    (by decide +kernel)⟩
  have htick : ∀ w v ttl seconds,
      ¬ Writes c (bytes "short:") 1 (bytes "a") v ttl w (.store (.tick seconds)) := by
    rintro w v ttl seconds (h | ⟨h, -⟩) <;> cases h
  have hget : ∀ w v ttl,
      ¬ Writes c (bytes "short:") 1 (bytes "a") v ttl w (.store (.get (bytes "a"))) := by
    rintro w v ttl (h | ⟨h, -⟩) <;> cases h
  refine along_cons.2 ⟨⟨fun v ttl => htick _ v ttl 10, trivial⟩, along_cons.2 ⟨⟨?_, ?_⟩, ?_⟩⟩
  · exact fun v ttl => hget _ v ttl
  · exact fun _ _ _ => .inr (by decide +kernel)
  · exact along_cons.2 ⟨⟨fun v ttl => htick _ v ttl 1, trivial⟩, along_nil _⟩

/-! ## What goes wrong -/

/-- A value that is put into Redis for longer than that is returned later. -/
theorem exists_returned_of_setData {ctx : Option RedisContext} {db : MySql} {elapsed ttl : ℤ}
    (hop : (exec c keyPrefix backfillTtlSec op w).2 =
      (⟨ctx, setData w.1.env (wireKey keyPrefix key) value ttl⟩, db))
    (hclock : w.1.env.now = db.now) (hlong : ¬ (ttl ≤ 0 ∨ db.now + ttl ≤ elapsed + 1)) :
    ∃ seconds : ℕ,
      let w' := (exec c keyPrefix backfillTtlSec).run [op, .store (.tick seconds)] w
      elapsed < w'.2.now ∧
        ((onServers c keyPrefix backfillTtlSec).get key w').1 = .ok (some value) := by
  have hpos : 0 < ttl := by omega
  -- the first second in which the time has elapsed
  let n := (elapsed + 1 - db.now).toNat
  have hrun : (exec c keyPrefix backfillTtlSec).run [op, .store (.tick n)] w =
      Servers.tick n (⟨ctx, setData w.1.env (wireKey keyPrefix key) value ttl⟩, db) := by
    rw [← hop]
    rfl
  have hentry : (setData w.1.env (wireKey keyPrefix key) value ttl).entry (wireKey keyPrefix key) =
      some (value, some (w.1.env.now + ttl.toNat)) := by
    rw [setData, if_pos hpos, TtlMap.entry_set, if_pos rfl, TtlMap.expiry, if_pos hpos]
  have hnow : ((setData w.1.env (wireKey keyPrefix key) value ttl).tick n).now = db.now + n := by
    rw [TtlMap.tick, now_setData, hclock]
  have hget : ((setData w.1.env (wireKey keyPrefix key) value ttl).tick n).get
      (wireKey keyPrefix key) = some value := by
    refine TtlMap.get_eq_some_iff.2 ⟨_, hentry, ?_⟩
    rw [TtlMap.pending_some, hnow, hclock]
    omega
  refine ⟨n, ?_, ?_⟩
  · rw [hrun]
    show elapsed < ((db.now + n : ℕ) : ℤ)
    omega
  · obtain ⟨ctx', hanswer⟩ := get_eq_found c keyPrefix backfillTtlSec key
      (Servers.tick n (⟨ctx, setData w.1.env (wireKey keyPrefix key) value ttl⟩, db))
    rw [hrun, hanswer, found, Servers.tick, hget]
    rfl

/-- **An operation that breaks the condition prolongs the link**: some seconds later its time to
live has elapsed, and `get` returns the value. -/
theorem exists_returned_of_not_fits {elapsed : ℤ} (hclock : w.1.env.now = w.2.now)
    (h : ¬ Fits keyPrefix backfillTtlSec key value elapsed w op) :
    ∃ seconds : ℕ,
      let w' := (exec c keyPrefix backfillTtlSec).run [op, .store (.tick seconds)] w
      elapsed < w'.2.now ∧
        ((onServers c keyPrefix backfillTtlSec).get key w').1 = .ok (some value) := by
  obtain ⟨ctx, answer, env, db, hexec, heffect⟩ := exists_effect c keyPrefix backfillTtlSec op w
  cases heffect with
  | looks hno =>
    simp only [Fits, Classical.not_imp] at h
    obtain ⟨hwire, hr, hs, -⟩ := h
    rw [hno (hwire ▸ hr)] at hs
    cases hs
  | fills hr hs =>
    simp only [Fits, Classical.not_imp] at h
    obtain ⟨hwire, -, hs', hlong⟩ := h
    obtain rfl := Option.some.inj (hs.symm.trans hs')
    rw [hwire] at hexec
    exact exists_returned_of_setData (congrArg Prod.snd hexec) hclock hlong
  | inserts hrow =>
    simp only [Fits, Classical.not_imp] at h
    obtain ⟨hwire, -, rfl, hlong⟩ := h
    rw [hwire] at hexec
    exact exists_returned_of_setData (congrArg Prod.snd hexec) hclock hlong
  | replaces =>
    simp only [Fits, Classical.not_imp] at h
    obtain ⟨hwire, rfl, hlong⟩ := h
    rw [hwire] at hexec
    exact exists_returned_of_setData (congrArg Prod.snd hexec) hclock hlong
  | taken hrow =>
    simp only [Fits, hrow, Classical.not_imp] at h
    exact absurd h.2.1 (by simp)
  | deletes | ticks | evicts => exact absurd trivial h

/-- With a backfill of a minute, which the server is asked for in the last second of a link, the
link is returned when its time to live has elapsed. -/
theorem returned_late :
    let c := RedisClient.new (bytes "127.0.0.1") 6379 200
    let calls : List CacheOp := [.store (.set (bytes "a") (bytes "u") 10), .store (.tick 10),
      .store (.get (bytes "a")), .store (.tick 1)]
    let w := (exec c (bytes "short:") 60).run calls (.fresh 0)
    w.2.now = 11 ∧
      ((onServers c (bytes "short:") 60).get (bytes "a") w).1 = .ok (some (bytes "u")) := by
  refine ⟨by decide +kernel, by decide +kernel⟩

end CacheAside

end KamaHttp
