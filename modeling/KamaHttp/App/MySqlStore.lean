import KamaHttp.App.StoreContract

/-!
# The store on MySQL

`MySqlStore.h`, on the table `short_url`. `INSERT` fails exactly if there is a row with the
identifier, `REPLACE` writes the whole row, and the server knows the time in seconds; identifiers
are compared byte by byte, and the other statements succeed.
-/

namespace KamaHttp

/-- A row; the column `ttl_sec` may be null. -/
structure ShortUrl where
  longUrl : Bytes
  createdAt : ℕ
  ttlSec : Option ℤ
  deriving DecidableEq

/-- The table, by the identifiers, and the clock. -/
structure MySql where
  now : ℕ
  rows : Bytes → Option ShortUrl

namespace MySql

def empty (now : ℕ) : MySql := ⟨now, fun _ => none⟩

/-- The row that `INSERT` and `REPLACE` write. -/
def row (db : MySql) (value : Bytes) (ttlSec : ℤ) : ShortUrl :=
  ⟨value, db.now, if 0 < ttlSec then some ttlSec else none⟩

def put (db : MySql) (key : Bytes) (row : Option ShortUrl) : MySql :=
  { db with rows := Function.update db.rows key row }

theorem rows_put (db : MySql) (key : Bytes) (row : Option ShortUrl) (key' : Bytes) :
    (db.put key row).rows key' = if key' = key then row else db.rows key' :=
  Function.update_apply ..

def tick (db : MySql) (seconds : ℕ) : MySql := { db with now := db.now + seconds }

/-- The row has expired: `now > created + ttl`. -/
def Expired (now : ℕ) (row : ShortUrl) : Prop :=
  0 < row.ttlSec.getD 0 ∧ (row.createdAt : ℤ) + row.ttlSec.getD 0 < now

instance (now : ℕ) (row : ShortUrl) : Decidable (Expired now row) :=
  inferInstanceAs (Decidable (_ ∧ _))

/-- What `SELECT` and the check of the time make of the table. -/
def select (db : MySql) (key : Bytes) : Option Bytes :=
  (db.rows key).bind fun row => if Expired db.now row then none else some row.longUrl

theorem select_eq_some_iff {db : MySql} {key value : Bytes} :
    db.select key = some value ↔
      ∃ row, db.rows key = some row ∧ ¬ Expired db.now row ∧ row.longUrl = value := by
  rw [select, Option.bind_eq_some_iff]
  constructor
  · rintro ⟨row, hrow, h⟩
    split at h
    · cases h
    · rename_i hlive
      exact ⟨row, hrow, hlive, Option.some.inj h⟩
  · rintro ⟨row, hrow, hlive, rfl⟩
    exact ⟨row, hrow, if_neg hlive⟩

end MySql

def mySqlStore : IStore MySql where
  get key db := (.ok (db.select key), db)
  setNX key value ttlSec db :=
    match db.rows key with
    | some _ => (.ok false, db)
    | none => (.ok true, db.put key (some (db.row value ttlSec)))
  set key value ttlSec db := (.ok (), db.put key (some (db.row value ttlSec)))
  del key db := (.ok (), db.put key none)

end KamaHttp
