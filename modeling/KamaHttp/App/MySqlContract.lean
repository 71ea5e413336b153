import KamaHttp.App.MySqlStore

/-!
# The store on MySQL and the contract

`MySqlStore` beside the reference. A row that has expired stays in the table until it is replaced or
deleted: `get` passes over it, but `INSERT` is refused by it. In the very second in which its time
to live elapses a row has not expired; the reference is taken in both readings of that second.

* `Mirrors.next_zero`, `Mirrors.next_one`: one operation, on a table that mirrors a reference.
* `answers_eq_iff_punctual`: the runs that are answered as the references answer them.
-/

namespace KamaHttp

open TtlMap

/-- The operation with a positive time to live made `grace` seconds longer. -/
def StoreOp.prolong (grace : ℕ) : StoreOp → StoreOp
  | .setNX key value ttlSec => .setNX key value (if 0 < ttlSec then ttlSec + grace else ttlSec)
  | .set key value ttlSec => .set key value (if 0 < ttlSec then ttlSec + grace else ttlSec)
  | op => op

/-- The reference in which an entry is there for `grace` seconds more. With one second it is still
there in the second in which its time to live elapses. -/
def ttlExecWith (grace : ℕ) :
    Machine StoreOp (TtlMap Bytes Bytes) (Except StdException StoreReply) :=
  fun op m => ttlExec (op.prolong grace) m

theorem StoreOp.prolong_zero (op : StoreOp) : op.prolong 0 = op := by
  cases op <;> simp [StoreOp.prolong]

theorem ttlExecWith_zero : ttlExecWith 0 = ttlExec := by
  funext op m
  rw [ttlExecWith, op.prolong_zero]

namespace MySqlStore

/-- The runs of the store. -/
def exec : Machine StoreOp MySql (Except StdException StoreReply) :=
  mySqlStore.exec fun seconds db => db.tick seconds

/-- The operation inserts under no key whose last entry has expired. -/
def Fresh (m : TtlMap Bytes Bytes) : StoreOp → Prop
  | .setNX key _ _ => ∀ p, m.entry key = some p → pending m.now p.2
  | _ => True

/-- The operation inserts under no key whose last entry has expired, and asks for none whose time to
live elapses in this second. -/
def Punctual (m : TtlMap Bytes Bytes) : StoreOp → Prop
  | .get key => ∀ p, m.entry key = some p → p.2 ≠ some m.now
  | op => Fresh m op

/-- When a row is gone for a reference that gives it `grace` seconds more. -/
def rowExpiry (grace : ℕ) (row : ShortUrl) : Option ℕ :=
  expiry row.createdAt (if 0 < row.ttlSec.getD 0 then row.ttlSec.getD 0 + grace else 0)

/-- The table and the reference have the same entries, expired ones included. -/
structure Mirrors (grace : ℕ) (db : MySql) (m : TtlMap Bytes Bytes) : Prop where
  now_eq : m.now = db.now
  entry_eq : ∀ key, m.entry key = (db.rows key).map fun row => (row.longUrl, rowExpiry grace row)

theorem Mirrors.empty (grace now : ℕ) : Mirrors grace (MySql.empty now) (.empty now) :=
  ⟨rfl, fun _ => rfl⟩

variable {grace : ℕ} {db : MySql} {m : TtlMap Bytes Bytes} {row : ShortUrl} {key : Bytes}

/-- A row that is still there in the second in which its time elapses has not expired exactly if it
is pending. -/
theorem pending_rowExpiry_one {now : ℕ} :
    pending now (rowExpiry 1 row) ↔ ¬ MySql.Expired now row := by
  simp only [rowExpiry, expiry, MySql.Expired]
  by_cases h : 0 < row.ttlSec.getD 0
  · have hpos : 0 < row.ttlSec.getD 0 + ((1 : ℕ) : ℤ) := by omega
    rw [if_pos h, if_pos hpos, pending_some]
    omega
  · simp [h, pending]

/-- Apart from the second in which the time of a row elapses, the row has not expired exactly if it
is pending. -/
theorem pending_rowExpiry_zero {now : ℕ} :
    pending now (rowExpiry 0 row) ↔
      ¬ MySql.Expired now row ∧ rowExpiry 0 row ≠ some now := by
  simp only [rowExpiry, expiry, MySql.Expired]
  by_cases h : 0 < row.ttlSec.getD 0
  · have hpos : 0 < row.ttlSec.getD 0 + ((0 : ℕ) : ℤ) := by omega
    rw [if_pos h, if_pos hpos, pending_some, ne_eq, Option.some.injEq]
    omega
  · simp [h, pending]

/-- The second in which the time of a row elapses is past when the row has expired. -/
theorem rowExpiry_ne_of_expired {now : ℕ} (h : MySql.Expired now row) :
    rowExpiry 0 row ≠ some now := by
  obtain ⟨hpos, hlt⟩ := h
  rw [rowExpiry, if_pos hpos, expiry, if_pos (by omega), ne_eq, Option.some.injEq]
  omega

theorem rowExpiry_row (db : MySql) (value : Bytes) (ttlSec : ℤ) :
    rowExpiry grace (db.row value ttlSec) =
      expiry db.now (if 0 < ttlSec then ttlSec + grace else ttlSec) := by
  by_cases h : 0 < ttlSec
  · simp [rowExpiry, MySql.row, h]
  · simp [rowExpiry, MySql.row, h, expiry]

/-! ## One operation -/

theorem Mirrors.get_eq (h : Mirrors grace db m) (key : Bytes) :
    m.get key = (db.rows key).bind fun row =>
      if pending db.now (rowExpiry grace row) then some row.longUrl else none := by
  rw [TtlMap.get, h.entry_eq, h.now_eq]
  cases db.rows key with
  | none => rfl
  | some row =>
    by_cases hp : pending db.now (rowExpiry grace row) <;> simp [Option.filter, hp]

theorem Mirrors.tick (h : Mirrors grace db m) (seconds : ℕ) :
    Mirrors grace (db.tick seconds) (m.tick seconds) :=
  ⟨congrArg (· + seconds) h.now_eq, h.entry_eq⟩

theorem Mirrors.del (h : Mirrors grace db m) (key : Bytes) :
    Mirrors grace (db.put key none) (m.del key) where
  now_eq := h.now_eq
  entry_eq key' := by
    rw [entry_del, MySql.rows_put, h.entry_eq]
    split <;> rfl

theorem Mirrors.set (h : Mirrors grace db m) (key value : Bytes) (ttlSec : ℤ) :
    Mirrors grace (db.put key (some (db.row value ttlSec)))
      (m.set key value (if 0 < ttlSec then ttlSec + grace else ttlSec)) where
  now_eq := h.now_eq
  entry_eq key' := by
    rw [entry_set, MySql.rows_put, h.entry_eq, h.now_eq]
    split
    · rw [Option.map_some, rowExpiry_row]
      rfl
    · rfl

/-- **An insertion is answered alike exactly if the key has no entry that has expired**, in either
reading of the last second: where there is no row both insert, and where there is one the table
refuses. -/
theorem Mirrors.next_setNX (h : Mirrors grace db m) (key value : Bytes) (ttlSec : ℤ) :
    ((exec (.setNX key value ttlSec) db).1 = (ttlExecWith grace (.setNX key value ttlSec) m).1 ↔
        Fresh m (.setNX key value ttlSec)) ∧
      (Fresh m (.setNX key value ttlSec) →
        Mirrors grace (exec (.setNX key value ttlSec) db).2
          (ttlExecWith grace (.setNX key value ttlSec) m).2) := by
  have hget := h.get_eq key
  rw [Fresh, h.entry_eq, h.now_eq, ttlExecWith, StoreOp.prolong]
  rcases hrow : db.rows key with _ | row
  · rw [hrow] at hget
    rw [ttlExec_setNX_of_free _ _ hget]
    refine ⟨?_, fun _ => ?_⟩
    · simp [exec, IStore.exec, mySqlStore, hrow, Except.map]
    · simpa [exec, IStore.exec, mySqlStore, hrow] using h.set key value ttlSec
  · rw [hrow, Option.bind_some] at hget
    by_cases hp : pending db.now (rowExpiry grace row)
    · have htaken : (m.get key).isSome := by rw [hget, if_pos hp]; rfl
      rw [ttlExec_setNX_of_taken _ _ htaken]
      refine ⟨?_, fun _ => ?_⟩
      · simp [exec, IStore.exec, mySqlStore, hrow, Except.map, hp]
      · simpa [exec, IStore.exec, mySqlStore, hrow] using h
    · rw [if_neg hp] at hget
      rw [ttlExec_setNX_of_free _ _ hget]
      refine ⟨?_, fun hfresh => absurd (hfresh _ rfl) hp⟩
      simp [exec, IStore.exec, mySqlStore, hrow, Except.map, hp]

/-- The operations other than `get`: all of them but an insertion are answered alike. -/
theorem Mirrors.next (h : Mirrors grace db m) {op : StoreOp} (hop : ∀ key, op ≠ .get key) :
    ((exec op db).1 = (ttlExecWith grace op m).1 ↔ Fresh m op) ∧
      (Fresh m op → Mirrors grace (exec op db).2 (ttlExecWith grace op m).2) := by
  cases op with
  | get key => exact absurd rfl (hop key)
  | setNX key value ttlSec => exact h.next_setNX key value ttlSec
  | set key value ttlSec =>
    exact ⟨⟨fun _ => trivial, fun _ => rfl⟩, fun _ => h.set key value ttlSec⟩
  | del key => exact ⟨⟨fun _ => trivial, fun _ => rfl⟩, fun _ => h.del key⟩
  | tick seconds => exact ⟨⟨fun _ => trivial, fun _ => rfl⟩, fun _ => h.tick seconds⟩

theorem Mirrors.next_get_one (h : Mirrors 1 db m) (key : Bytes) :
    (exec (.get key) db).1 = (ttlExecWith 1 (.get key) m).1 := by
  have hget : db.select key = m.get key := by
    rw [h.get_eq, MySql.select]
    congr 1
    funext row
    simp [pending_rowExpiry_one]
  exact congrArg (fun v => Except.ok (StoreReply.value v)) hget

theorem Mirrors.next_get_zero (h : Mirrors 0 db m) (key : Bytes) :
    (exec (.get key) db).1 = (ttlExecWith 0 (.get key) m).1 ↔ Punctual m (.get key) := by
  have hanswer : (exec (.get key) db).1 = (ttlExecWith 0 (.get key) m).1 ↔
      db.select key = m.get key := by
    show Except.ok (StoreReply.value _) = .ok (.value _) ↔ _
    simp
  rw [hanswer, h.get_eq, MySql.select, Punctual, h.entry_eq, h.now_eq]
  cases db.rows key with
  | none => simp
  | some row =>
    by_cases hexpired : MySql.Expired db.now row
    · have hp : ¬ pending db.now (rowExpiry 0 row) := fun hp =>
        (pending_rowExpiry_zero.1 hp).1 hexpired
      have hdue := rowExpiry_ne_of_expired hexpired
      simp [hexpired, hp, hdue]
    · simp [hexpired, pending_rowExpiry_zero]

/-- One operation beside the reference. -/
theorem Mirrors.next_zero (h : Mirrors 0 db m) (op : StoreOp) :
    ((exec op db).1 = (ttlExec op m).1 ↔ Punctual m op) ∧
      (Punctual m op → Mirrors 0 (exec op db).2 (ttlExec op m).2) := by
  rw [← ttlExecWith_zero]
  cases op with
  | get key => exact ⟨h.next_get_zero key, fun _ => h⟩
  | setNX key value ttlSec => exact h.next_setNX key value ttlSec
  | set key value ttlSec => exact h.next fun _ he => by cases he
  | del key => exact h.next fun _ he => by cases he
  | tick seconds => exact h.next fun _ he => by cases he

/-- One operation beside the reference that counts the last second. -/
theorem Mirrors.next_one (h : Mirrors 1 db m) (op : StoreOp) :
    ((exec op db).1 = (ttlExecWith 1 op m).1 ↔ Fresh m op) ∧
      (Fresh m op → Mirrors 1 (exec op db).2 (ttlExecWith 1 op m).2) := by
  by_cases hop : ∃ key, op = .get key
  · obtain ⟨key, rfl⟩ := hop
    exact ⟨⟨fun _ => trivial, fun _ => h.next_get_one key⟩, fun _ => h⟩
  · exact h.next fun key he => hop ⟨key, he⟩

/-! ## Runs -/

/-- Whether an insertion succeeds exactly if nothing would be returned under its key: exactly if
there is no row that has expired. -/
theorem setNX_iff_get (db : MySql) (key value : Bytes) (ttlSec : ℤ) :
    ((mySqlStore.setNX key value ttlSec db).1 = .ok true ↔ (mySqlStore.get key db).1 = .ok none) ↔
      ∀ row, db.rows key = some row → ¬ MySql.Expired db.now row := by
  simp only [mySqlStore, MySql.select]
  cases db.rows key with
  | none => simp
  | some row => by_cases hexpired : MySql.Expired db.now row <;> simp [hexpired]

/-- **When the store keeps its contract.** A run of operations on an empty table is answered as the
reference answers it exactly if it inserts under no key whose last entry has expired, and asks for
none in the second in which the time to live of its entry elapses. If the reference still has the
entry in that second, only the insertions count. And in the state behind any run, an insertion
succeeds exactly if nothing would be returned under its key, if and only if there is no row under
the key that has expired. -/
theorem answers_eq_iff_punctual (now : ℕ) (calls : List StoreOp) :
    (exec.answers calls (MySql.empty now) = ttlExec.answers calls (.empty now) ↔
        Along (fun before => Punctual (ttlExec.run before (.empty now))) calls) ∧
      (exec.answers calls (MySql.empty now) = (ttlExecWith 1).answers calls (.empty now) ↔
        Along (fun before => Fresh ((ttlExecWith 1).run before (.empty now))) calls) ∧
      ∀ key value ttlSec,
        let db := exec.run calls (MySql.empty now)
        (((mySqlStore.setNX key value ttlSec db).1 = .ok true ↔
            (mySqlStore.get key db).1 = .ok none) ↔
          ∀ row, db.rows key = some row → ¬ MySql.Expired db.now row) := by
  refine ⟨?_, ?_, fun key value ttlSec => setNX_iff_get _ key value ttlSec⟩
  · refine Machine.answers_eq_iff (R := fun calls db m =>
      m = ttlExec.run calls (.empty now) ∧ Mirrors 0 db m) ⟨rfl, .empty 0 now⟩ ?_
    rintro calls op db m ⟨rfl, h⟩
    rw [Machine.run_concat]
    exact ⟨(h.next_zero op).1, fun hop => ⟨rfl, (h.next_zero op).2 hop⟩⟩
  · refine Machine.answers_eq_iff (R := fun calls db m =>
      m = (ttlExecWith 1).run calls (.empty now) ∧ Mirrors 1 db m) ⟨rfl, .empty 1 now⟩ ?_
    rintro calls op db m ⟨rfl, h⟩
    rw [Machine.run_concat]
    exact ⟨(h.next_one op).1, fun hop => ⟨rfl, (h.next_one op).2 hop⟩⟩

/-- The key of a link that has expired cannot be used again: nothing is returned under it, and the
insertion is refused. Both references insert. -/
theorem expired_key_not_reused :
    exec.answers [.set (bytes "a") (bytes "u") 1, .tick 2, .get (bytes "a"),
          .setNX (bytes "a") (bytes "v") 0] (.empty 0) =
        [.ok .done, .ok .done, .ok (.value none), .ok (.inserted false)] ∧
      ttlExec.answers [.set (bytes "a") (bytes "u") 1, .tick 2, .get (bytes "a"),
          .setNX (bytes "a") (bytes "v") 0] (.empty 0) =
        [.ok .done, .ok .done, .ok (.value none), .ok (.inserted true)] ∧
      (ttlExecWith 1).answers [.set (bytes "a") (bytes "u") 1, .tick 2, .get (bytes "a"),
          .setNX (bytes "a") (bytes "v") 0] (.empty 0) =
        [.ok .done, .ok .done, .ok (.value none), .ok (.inserted true)] := by
  refine ⟨by decide +kernel, by decide +kernel, by decide +kernel⟩

end MySqlStore

end KamaHttp
