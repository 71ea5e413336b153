import KamaHttp.App.CachePrograms
import KamaHttp.App.RedisProcesses
import KamaHttp.Foundations.Discipline

/-!
# Processes with a cache

Any number of threads, in any number of processes, shorten and redirect on `CacheAsideStore`, with
one Redis and one MySQL. Connections to Redis may break at any point of a command, statements of
MySQL may throw, executed or not; Redis may forget what it has, and no two clocks need to agree.

* `rowDiscipline`: rows stay, and what Redis has under the prefix of the keys is in a row.
* `keeps_cacheTask`: the programs keep to it, and what their answers come from.
* `rows_of_reaches`: an identifier that is handed out has its row for ever, is handed out once, and
  every redirect for it leads to its URL.
-/

namespace KamaHttp

open Interaction RedisStore RedisServer

/-- How a call of the stores turns out. A statement that throws may have been executed. -/
inductive CacheAsideOutcome
  | redis (outcome : RedisOutcome)
  | returned
  | threw (what : Bytes) (executed : Bool)
  | read (now : ℕ)

/-- The data of Redis, and MySQL. -/
abbrev CacheAsideData := RedisData × MySql

/-- What a call returns and makes of the data. An `INSERT` of a row that exists throws. -/
def CacheAsideCall.perform : (x : CacheAsideCall) → CacheAsideData → CacheAsideOutcome →
    Option (x.Returned × CacheAsideData)
  | .redis c, s, .redis outcome => (c.perform s.1 outcome).map fun r => (r.1, (r.2, s.2))
  | .select key, s, .returned => some (.ok (s.2.rows key), s)
  | .select _, s, .threw what _ => some (.error (.runtimeError what), s)
  | .insert key value ttlSec, s, .returned =>
    if (s.2.rows key).isNone then some (.ok (), (s.1, s.2.put key (some (s.2.row value ttlSec))))
    else none
  | .insert key value ttlSec, s, .threw what executed =>
    some (.error (.runtimeError what),
      if executed ∧ (s.2.rows key).isNone then (s.1, s.2.put key (some (s.2.row value ttlSec)))
      else s)
  | .time, s, .read now => some (now, s)
  | _, _, _ => none

/-! ## The discipline -/

/-- The identifier has a row, with the URL. -/
def HasRow (db : MySql) (id url : Bytes) : Prop := ∃ row, db.rows id = some row ∧ row.longUrl = url

theorem HasRow.unique {db : MySql} {id url url' : Bytes} (h : HasRow db id url)
    (h' : HasRow db id url') : url' = url := by
  obtain ⟨row, hrow, rfl⟩ := h
  obtain ⟨row', hrow', rfl⟩ := h'
  rw [hrow] at hrow'
  rw [Option.some.inj hrow']

/-- Identifiers have no null bytes, and what Redis has under the prefix is in a row. -/
structure Backed (keyPrefix : Bytes) (s : CacheAsideData) : Prop where
  plain : ∀ key url, HasRow s.2 key url → 0 ∉ key
  entry : ∀ key v expires, 0 ∉ key → s.1.entry (wireKey keyPrefix key) = some (v, expires) →
    HasRow s.2 key v

/-- Every row stays as it is. -/
def RowsStay (s s' : CacheAsideData) : Prop :=
  ∀ key row, s.2.rows key = some row → s'.2.rows key = some row

theorem HasRow.stays {s s' : CacheAsideData} {id url : Bytes} (h : HasRow s.2 id url)
    (hstay : RowsStay s s') : HasRow s'.2 id url := by
  obtain ⟨row, hrow, hurl⟩ := h
  exact ⟨row, hstay id row hrow, hurl⟩

/-- **What the programs keep to**: identifiers without a row are taken, rows stay, and Redis has
nothing else under the prefix. -/
def rowDiscipline (keyPrefix : Bytes) : Discipline CacheAsideData Bytes where
  Inv := Backed keyPrefix
  Rely := RowsStay
  fresh s := {key | s.2.rows key = none}
  refl _ _ _ h := h
  trans h h' key row hrow := h' key row (h key row hrow)
  fresh_anti := by
    intro s s' h key hnone
    refine Option.eq_none_iff_forall_ne_some.2 fun row hrow => ?_
    have hstays := h key row hrow
    rw [show s'.2.rows key = none from hnone] at hstays
    cases hstays

/-- Redis forgets, clocks are set, and other clients change other keys. -/
def CacheElsewhere (keyPrefix : Bytes) (s s' : CacheAsideData) : Prop :=
  s'.2.rows = s.2.rows ∧ ∀ key, s'.1.entry (wireKey keyPrefix key) = none ∨
    s'.1.entry (wireKey keyPrefix key) = s.1.entry (wireKey keyPrefix key)

theorem CacheElsewhere.keeps {keyPrefix : Bytes} {s s' : CacheAsideData}
    (h : CacheElsewhere keyPrefix s s') (hs : Backed keyPrefix s) :
    Backed keyPrefix s' ∧ RowsStay s s' := by
  obtain ⟨hrows, hentry⟩ := h
  have hstay : RowsStay s s' := fun key row hrow => by rw [hrows, hrow]
  have hback : ∀ key url, HasRow s'.2 key url → HasRow s.2 key url := fun key url h => by
    rwa [HasRow, ← hrows]
  refine ⟨⟨fun key url h => hs.plain key url (hback key url h), ?_⟩, hstay⟩
  intro key v expires hkey hv
  rcases hentry key with hnone | heq
  · rw [hnone] at hv
    cases hv
  · exact (hs.entry key v expires hkey (heq ▸ hv)).stays hstay

/-! ## The calls -/

section Calls

variable {keyPrefix key value : Bytes} {ttlSec : ℤ} {s s' : CacheAsideData}

/-- A row for an identifier that has none. -/
theorem Backed.insert (h : Backed keyPrefix s) (hkey : 0 ∉ key) (hnone : s.2.rows key = none)
    (row : ShortUrl) :
    Backed keyPrefix (s.1, s.2.put key (some row)) ∧ RowsStay s (s.1, s.2.put key (some row)) := by
  have hstay : RowsStay s (s.1, s.2.put key (some row)) := by
    intro key' row' hrow
    have hne : key' ≠ key := by
      rintro rfl
      rw [hnone] at hrow
      cases hrow
    rw [MySql.rows_put, if_neg hne, hrow]
  refine ⟨⟨?_, fun key' v expires hkey' hv => (h.entry key' v expires hkey' hv).stays hstay⟩, hstay⟩
  rintro key' url ⟨row', hrow, hurl⟩
  rw [MySql.rows_put] at hrow
  split at hrow
  · rename_i heq
    exact heq ▸ hkey
  · exact h.plain key' url ⟨row', hrow, hurl⟩

/-- The value of a row, under the key of its identifier. -/
theorem Backed.setData (h : Backed keyPrefix s) (hpre : 0 ∉ keyPrefix)
    (hrow : HasRow s.2 key value) :
    Backed keyPrefix (RedisStore.setData s.1 (wireKey keyPrefix key) value ttlSec, s.2) := by
  unfold RedisStore.setData
  split
  swap
  · exact h
  have hkey := h.plain key value hrow
  refine ⟨h.plain, fun key' v expires hkey' hv => ?_⟩
  by_cases heq : key' = key
  · subst heq
    rw [TtlMap.entry_set, if_pos rfl, Option.some.injEq, Prod.mk.injEq] at hv
    exact hv.1 ▸ hrow
  · have hne : wireKey keyPrefix key' ≠ wireKey keyPrefix key :=
      wireKey_ne (by simp [hpre, hkey]) (by simp [hpre, hkey']) heq
    rw [TtlMap.entry_set, if_neg hne] at hv
    exact h.entry key' v expires hkey' hv

/-- `SET` stores the value, but without a time to live. -/
theorem exec_setArgs (keyPrefix key value : Bytes) (ttlSec : ℤ) (db : RedisData) :
    (RedisServer.exec (setArgs keyPrefix key value ttlSec) db).2 =
      RedisStore.setData db (wireKey keyPrefix key) value ttlSec := by
  have hargs : setArgs keyPrefix key value ttlSec = bytes "SET" :: wireKey keyPrefix key ::
    value :: (expiryOption ttlSec).map (·.arg) := rfl
  rw [hargs, exec_set, RedisStore.setData]
  by_cases hpos : 0 < ttlSec
  · rw [setOptions_expiry hpos, if_pos hpos]
  · rw [setOptions_no_expiry hpos, if_neg hpos]

/-- A call of the library, on both. -/
theorem perform_redis {c : RedisCall} {r : c.Returned} {outcome : CacheAsideOutcome}
    (h : (CacheAsideCall.redis c).perform s outcome = some (r, s')) :
    ∃ outcome, c.perform s.1 outcome = some (r, s'.1) ∧ s'.2 = s.2 := by
  cases outcome with
  | redis outcome =>
    obtain ⟨⟨r', db⟩, hr, heq⟩ := Option.map_eq_some_iff.1 h
    cases heq
    exact ⟨outcome, hr, rfl⟩
  | returned | threw | read => cases h

/-- A call that is no command leaves the data as they are. -/
theorem perform_other {c : RedisCall} (hc : ∀ ctx args, c ≠ .command ctx args) {r : c.Returned}
    {db db' : RedisData} {outcome : RedisOutcome} (h : c.perform db outcome = some (r, db')) :
    db' = db := by
  cases c with
  | command ctx args => exact absurd rfl (hc ctx args)
  | connect | free =>
    cases outcome <;> cases h
    rfl

/-- A command may be executed; a reply that arrives is the one to it. -/
theorem perform_command {ctx : RedisContext} {args : List Bytes} {r : Option RedisReply}
    {db db' : RedisData} {outcome : RedisOutcome}
    (h : (RedisCall.command ctx args).perform db outcome = some (r, db')) :
    (db' = db ∨ db' = (RedisServer.exec args db).2) ∧
      ∀ r', r = some r' → r' = (RedisServer.exec args db).1 := by
  cases outcome with
  | opened x => cases h
  | freed => cases h
  | fared fate =>
    cases h
    refine ⟨?_, fun r' hr => ?_⟩
    · split
      · exact .inr rfl
      · exact .inl rfl
    · exact (Option.some.inj (Option.ite_none_right_eq_some.1 hr).2).symm

/-- A `SELECT` that returns has the row there is. -/
theorem perform_select {r : Except StdException (Option ShortUrl)} {outcome : CacheAsideOutcome}
    (h : (CacheAsideCall.select key).perform s outcome = some (r, s')) :
    s' = s ∧ ∀ row, r = .ok (some row) → HasRow s.2 key row.longUrl := by
  cases outcome with
  | returned =>
    cases h
    exact ⟨rfl, fun row hrow => ⟨row, Except.ok.inj hrow, rfl⟩⟩
  | threw what executed =>
    cases h
    exact ⟨rfl, fun row hrow => by cases hrow⟩
  | redis | read => cases h

theorem perform_time {r : ℕ} {outcome : CacheAsideOutcome}
    (h : CacheAsideCall.time.perform s outcome = some (r, s')) : s' = s := by
  cases outcome with
  | read now =>
    cases h
    rfl
  | redis | returned | threw => cases h

/-- An `INSERT` that returns has added the row; one that throws may have added it as well. -/
theorem perform_insert {r : Except StdException Unit} {outcome : CacheAsideOutcome}
    (h : (CacheAsideCall.insert key value ttlSec).perform s outcome = some (r, s')) :
    (s.2.rows key = none ∧ s' = (s.1, s.2.put key (some (s.2.row value ttlSec)))) ∨
      s' = s ∧ r ≠ .ok () := by
  cases outcome with
  | returned =>
    obtain ⟨hnone, heq⟩ := Option.ite_none_right_eq_some.1 h
    cases heq
    exact .inl ⟨Option.isNone_iff_eq_none.1 hnone, rfl⟩
  | threw what executed =>
    cases h
    split
    · rename_i hexecuted
      exact .inl ⟨Option.isNone_iff_eq_none.1 hexecuted.2, rfl⟩
    · exact .inr ⟨rfl, fun hr => by cases hr⟩
  | redis | read => cases h

end Calls

/-! ## The programs -/

section Programs

variable {keyPrefix : Bytes}

/-- The book of a program among others. -/
abbrev rowBook (keyPrefix : Bytes) :
    Book CacheAsideCall CacheAsideCall.Returned (Set Bytes × CacheAsideData) :=
  (rowDiscipline keyPrefix).book CacheAsideCall.perform

/-- The book of its calls of the library of Redis. -/
abbrev redisBook (keyPrefix : Bytes) :
    Book RedisCall RedisCall.Returned (Set Bytes × CacheAsideData) :=
  (rowBook keyPrefix).pull CacheAsideCall.redis fun _ r => r

/-- What is known of the rows, and what has been taken. -/
structure Knows (known : MySql → Prop) (own : Set Bytes) (g : Set Bytes × CacheAsideData) :
    Prop where
  known : known g.2.2
  own : own ⊆ g.1

/-- It stays true when rows are added. -/
def Stable (known : MySql → Prop) : Prop :=
  ∀ s s' : CacheAsideData, RowsStay s s' → known s.2 → known s'.2

theorem stable_true : Stable fun _ => True := fun _ _ _ h => h

theorem stable_hasRow (id url : Bytes) : Stable (HasRow · id url) := fun _ _ hstay h =>
  h.stays hstay

variable {known : MySql → Prop} {own : Set Bytes} {g : Set Bytes × CacheAsideData}

/-- A call of the library of Redis that leaves the data backed. -/
theorem keeps_redisCall (hstable : Stable known) {c : RedisCall} (said : c.Returned → MySql → Prop)
    (hcall : ∀ s r outcome db, Backed keyPrefix s → known s.2 →
      c.perform s.1 outcome = some (r, db) → Backed keyPrefix (db, s.2) ∧ said r s.2)
    (hg : Knows known own g) : (rowBook keyPrefix).right (.redis c) g ∧
      ∀ r g', (rowBook keyPrefix).next (.redis c) r g g' → Knows known own g' ∧ said r g'.2.2 := by
  refine ⟨fun s outcome r s' hinv hrely hperform => ?_, ?_⟩
  · obtain ⟨outcome, hredis, hrows⟩ := perform_redis hperform
    have hbacked := (hcall s r outcome s'.1 hinv (hstable _ _ hrely hg.known) hredis).1
    rw [← hrows] at hbacked
    exact ⟨hbacked, fun key row hrow => by rw [hrows, hrow]⟩
  · rintro r g' ⟨s, outcome, hinv, hrely, hperform, hown⟩
    obtain ⟨outcome, hredis, hrows⟩ := perform_redis hperform
    have hknown := hstable _ _ hrely hg.known
    refine ⟨⟨hrows ▸ hknown, ?_⟩, hrows ▸ (hcall s r outcome g'.2.1 hinv hknown hredis).2⟩
    rw [hown]
    exact hg.own.trans Set.subset_union_left

/-- **A command**, whose reply says something of the rows. -/
theorem keeps_redisCommand (hstable : Stable known) {args : List Bytes}
    (replied : RedisReply → MySql → Prop)
    (hexec : ∀ s, Backed keyPrefix s → known s.2 →
      Backed keyPrefix ((RedisServer.exec args s.1).2, s.2) ∧
        replied (RedisServer.exec args s.1).1 s.2)
    (ctx : Option RedisContext) (hg : Knows known own g) :
    (cmdProgram args ctx).Keeps (redisBook keyPrefix) (fun g a => Knows known own g ∧
      ∀ r, a.1 = .ok (some r) → replied r g.2.2) g := by
  refine keeps_cmdProgram (fun c hc g hg => ?_) (fun ctx g hg => ?_) ctx hg
  · obtain ⟨hright, hnext⟩ := keeps_redisCall (c := c) hstable (fun _ _ => True)
      (fun s r outcome db hs _ hperform => ⟨by rwa [perform_other hc hperform], trivial⟩) hg
    refine ⟨hright, ?_⟩
    rintro r g' ⟨r', -, hnext'⟩
    exact (hnext r' g' hnext').1
  · have hcall : ∀ s r outcome db, Backed keyPrefix s → known s.2 →
        (RedisCall.command ctx args).perform s.1 outcome = some (r, db) →
        Backed keyPrefix (db, s.2) ∧ ∀ r', r = some r' → replied r' s.2 := by
      intro s r outcome db hs hknown hperform
      obtain ⟨hdb, hreply⟩ := perform_command hperform
      obtain ⟨hbacked, hreplied⟩ := hexec s hs hknown
      refine ⟨?_, fun r' hr => hreply r' hr ▸ hreplied⟩
      rcases hdb with rfl | rfl
      · exact hs
      · exact hbacked
    obtain ⟨hright, hnext⟩ := keeps_redisCall (c := .command ctx args) hstable
      (fun r db => ∀ r', r = some r' → replied r' db) hcall hg
    refine ⟨hright, ?_⟩
    rintro r g' ⟨r', rfl, hnext'⟩
    exact hnext r' g' hnext'

variable {key value : Bytes}

/-- **`RedisStore::get`** finds what is in a row. -/
theorem keeps_get (key : Bytes) (ctx : Option RedisContext) (g : Set Bytes × CacheAsideData) :
    (onRedis ((redisProgram keyPrefix).get key ctx)).Keeps (rowBook keyPrefix)
      (fun g a => ∀ v, a.1 = .ok (some v) → 0 ∉ key → HasRow g.2.2 key v) g := by
  have hexec : ∀ s, Backed keyPrefix s → True →
      Backed keyPrefix ((RedisServer.exec (getArgs keyPrefix key) s.1).2, s.2) ∧
        ∀ v, (RedisServer.exec (getArgs keyPrefix key) s.1).1 = .string v → 0 ∉ key →
          HasRow s.2 key v := by
    intro s hs _
    rw [exec_getArgs]
    refine ⟨hs, fun v hv hkey => ?_⟩
    cases hget : s.1.get (wireKey keyPrefix key) with
    | none =>
      rw [hget] at hv
      cases hv
    | some v' =>
      rw [hget] at hv
      cases hv
      obtain ⟨expires, hentry, -⟩ := TtlMap.get_eq_some_iff.1 hget
      exact hs.entry key v expires hkey hentry
  refine Keeps.embed ((keeps_redisCommand stable_true
    (fun r db => ∀ v, r = .string v → 0 ∉ key → HasRow db key v) hexec ctx
    ⟨trivial, Set.empty_subset g.1⟩).bind ?_)
  rintro g ⟨x | r, ctx⟩ ⟨-, hr⟩ v hv
  · cases hv
  · exact hr _ (congrArg Except.ok (found_eq_some (Except.ok.inj hv))) v rfl

/-- **`RedisStore::set`** of the URL of a row. -/
theorem keeps_set (hpre : 0 ∉ keyPrefix) (ttlSec : ℤ) (ctx : Option RedisContext)
    (hg : Knows (HasRow · key value) own g) :
    (onRedis (setProgram keyPrefix key value ttlSec ctx)).Keeps (rowBook keyPrefix)
      (fun g _ => Knows (HasRow · key value) own g) g := by
  have hexec : ∀ s, Backed keyPrefix s → HasRow s.2 key value →
      Backed keyPrefix ((RedisServer.exec (setArgs keyPrefix key value ttlSec) s.1).2, s.2) ∧
        True := by
    intro s hs hrow
    rw [exec_setArgs]
    exact ⟨hs.setData hpre hrow, trivial⟩
  exact Keeps.embed ((keeps_redisCommand (stable_hasRow key value) (fun _ _ => True) hexec ctx
    hg).bind fun g a h => h.1)

/-- **`MySqlStore::get`** returns the URL of a row. -/
theorem keeps_selectProgram (key : Bytes) (g : Set Bytes × CacheAsideData) :
    (selectProgram key).Keeps (rowBook keyPrefix)
      (fun g a => ∀ v, a = .ok (some v) → HasRow g.2.2 key v) g := by
  refine ⟨fun s outcome r s' hinv _ hperform => ?_, ?_⟩
  · obtain rfl := (perform_select hperform).1
    exact ⟨hinv, (rowDiscipline keyPrefix).refl s'⟩
  · rintro r g' ⟨s, outcome, -, -, hperform, -⟩
    obtain ⟨hsame, hfound⟩ := perform_select hperform
    rw [← hsame] at hfound
    rcases r with x | _ | row
    · exact fun v hv => by cases hv
    · exact fun v hv => by cases hv
    · dsimp only
      split
      · refine ⟨fun s outcome r s' hinv _ hperform => ?_, ?_⟩
        · obtain rfl := perform_time hperform
          exact ⟨hinv, (rowDiscipline keyPrefix).refl s'⟩
        · rintro now g'' ⟨s, outcome, -, hrely, hperform, -⟩ v hv
          rw [perform_time hperform]
          split at hv
          · cases hv
          · cases hv
            exact (hfound row rfl).stays hrely
      · intro v hv
        cases hv
        exact hfound row rfl

/-- **`MySqlStore::setNX`** that returns `true` has taken the identifier. -/
theorem keeps_insertProgram (hkey : 0 ∉ key) (ttlSec : ℤ) (g : Set Bytes × CacheAsideData) :
    (insertProgram key value ttlSec).Keeps (rowBook keyPrefix)
      (fun g a => a = true → Knows (HasRow · key value) {key} g) g := by
  refine ⟨fun s outcome r s' hinv _ hperform => ?_, ?_⟩
  · rcases perform_insert hperform with ⟨hnone, rfl⟩ | ⟨rfl, -⟩
    · exact hinv.insert hkey hnone _
    · exact ⟨hinv, (rowDiscipline keyPrefix).refl s'⟩
  · rintro r g' ⟨s, outcome, -, -, hperform, hown⟩
    rcases r with x | _
    · intro h
      cases h
    · rcases perform_insert hperform with ⟨hnone, heq⟩ | ⟨-, hne⟩
      · have hrow : g'.2.2.rows key = some (s.2.row value ttlSec) := by
          rw [heq, MySql.rows_put, if_pos rfl]
        refine fun _ => ⟨⟨_, hrow, rfl⟩, Set.singleton_subset_iff.2 ?_⟩
        rw [hown]
        refine .inr ⟨hnone, fun hfresh => ?_⟩
        rw [show g'.2.2.rows key = none from hfresh] at hrow
        cases hrow
      · exact absurd rfl hne

/-- An identifier has been taken, for a row with the URL. -/
def StoredIn (id url : Bytes) (_ : ℤ) (g : Set Bytes × CacheAsideData) : Prop :=
  0 ∉ id ∧ id ∈ g.1 ∧ HasRow g.2.2 id url

/-- A row of the identifier has the URL. -/
def FoundIn (id url : Bytes) (g : Set Bytes × CacheAsideData) : Prop :=
  0 ∉ id → HasRow g.2.2 id url

theorem IsShortId.plain {id : Bytes} (h : IsShortId id) : 0 ∉ id := fun h0 => by
  have hnull : (0 : Byte) ∉ ShortId.charset := by decide
  exact hnull (h.2 0 h0)

/-- **What the programs of the handlers keep to**, and what their answers come from. -/
theorem keeps_cacheTask (hpre : 0 ∉ keyPrefix) (backfillTtlSec : ℤ)
    (task : HandlerTask (Option RedisContext)) (g : Set Bytes × CacheAsideData) :
    (task.program (cacheProgram keyPrefix backfillTtlSec)).Keeps (rowBook keyPrefix)
      (task.ComesFrom StoredIn FoundIn) g := by
  refine keeps_program (fun id url ttl ctx g hid => ?_) task (fun req _ _ _ ctx g => ?_) g
  · refine (keeps_insertProgram hid.plain ttl g).bind ?_
    rintro g (_ | _) hinserted
    · intro h
      cases h
    · refine (keeps_set hpre ttl ctx (hinserted rfl)).bind ?_
      rintro g ⟨x | _, ctx⟩ hg htrue
      · cases htrue
      · exact ⟨hid.plain, Set.singleton_subset_iff.1 hg.own, hg.known⟩
  · generalize req.getPathParameters (bytes "param1") = key
    refine (keeps_get key ctx g).bind ?_
    rintro g ⟨x | _ | v, ctx⟩ hfound
    · intro v hv
      cases hv
    · refine (keeps_selectProgram key g).bind ?_
      rintro g (x | _ | v) hrow
      · intro v hv
        cases hv
      · intro v hv
        cases hv
      · -- rows stay, so when Redis stores the URL it is still the one of the row
        refine (keeps_set hpre backfillTtlSec ctx ⟨hrow v rfl, Set.empty_subset g.1⟩).bind ?_
        rintro g ⟨x | _, ctx⟩ hg v' hv
        · cases hv
        · cases hv
          exact fun _ => hg.known
    · exact hfound

end Programs

/-! ## All runs -/

section Runs

variable {κ : Type*}

/-- The identifiers that are handed out: the bodies of the answers 200 to requests to shorten. -/
def handedOut : HandlerTask κ → Answer × State κ → Set Bytes
  | .shorten _ _ _, a => {id | AnswersId id (true, a.1)}
  | .redirect _ _ _, _ => ∅

/-- A request to shorten was answered 200 with the identifier, for the URL it has read. -/
def HandsFor (q : HandlerTask κ) (a : Answer × State κ) (id url : Bytes) : Prop :=
  id ∈ handedOut q a ∧ ∃ req resp st ttl, q = .shorten req resp st ∧
    parseJson req.getBody = some (url, ttl)

/-- A request for the identifier was redirected to the URL. -/
def LeadsFrom (q : HandlerTask κ) (a : Answer × State κ) (id url : Bytes) : Prop :=
  ∃ req resp st, q = .redirect req resp st ∧ req.getPathParameters (bytes "param1") = id ∧
    AnswersUrl url (true, a.1)

/-- What the threads and their stores are in. -/
abbrev CacheAsideProcesses (T : Type*) :=
  Sharing CacheAsideCall CacheAsideCall.Returned (Answer × State (Option RedisContext))
    CacheAsideData T (HandlerTask (Option RedisContext))

/-- The runs of the threads, on a table of rows and a Redis that has nothing else. -/
def cacheAsideSystem (keyPrefix : Bytes) (backfillTtlSec : ℤ) (T : Type*) [DecidableEq T] :
    System (CacheAsideProcesses T)
      (SharingEvent CacheAsideData CacheAsideOutcome T (HandlerTask (Option RedisContext))) :=
  Sharing.system (HandlerTask.program (cacheProgram keyPrefix backfillTtlSec))
    CacheAsideCall.perform (Backed keyPrefix) (CacheElsewhere keyPrefix) T

variable {keyPrefix : Bytes} {backfillTtlSec : ℤ} {T : Type*} [DecidableEq T]
  {s : CacheAsideProcesses T}

/-- What a task hands out, it has taken. -/
theorem handedOut_subset {q : HandlerTask κ} {a : Answer × State κ}
    {g : Set Bytes × CacheAsideData} (h : q.ComesFrom StoredIn FoundIn g a) :
    handedOut q a ⊆ g.1 := by
  cases q with
  | shorten req resp st =>
    intro id hid
    obtain ⟨url, ttl, -, -, hmem, -⟩ := h id hid
    exact hmem
  | redirect req resp st => exact Set.empty_subset g.1

theorem hasRow_of_handsFor {q : HandlerTask κ} {a : Answer × State κ} {id url : Bytes}
    {g : Set Bytes × CacheAsideData} (h : q.ComesFrom StoredIn FoundIn g a)
    (hands : HandsFor q a id url) : 0 ∉ id ∧ HasRow g.2.2 id url := by
  obtain ⟨hid, req, resp, st, ttl, rfl, hparsed⟩ := hands
  obtain ⟨url', ttl', hparsed', hplain, -, hrow⟩ := h id hid
  rw [hparsed, Option.some.injEq, Prod.mk.injEq] at hparsed'
  exact ⟨hplain, hparsed'.1 ▸ hrow⟩

theorem hasRow_of_leadsFrom {q : HandlerTask κ} {a : Answer × State κ} {id url : Bytes}
    {g : Set Bytes × CacheAsideData} (h : q.ComesFrom StoredIn FoundIn g a)
    (hleads : LeadsFrom q a id url) (hid : 0 ∉ id) : HasRow g.2.2 id url := by
  obtain ⟨req, resp, st, rfl, rfl, hurl⟩ := hleads
  exact h url hurl hid

/-- **Identifiers belong to their URLs for ever.** In every run of the threads of any number of
processes, on a Redis and a MySQL whose calls may fail at any point: an identifier that has been
handed out has its row, with its URL; no identifier is ever handed out twice; and every redirect
for it, at any time, leads to its URL. -/
theorem rows_of_reaches (hpre : 0 ∉ keyPrefix)
    (h : Reaches (cacheAsideSystem keyPrefix backfillTtlSec T) Always s) :
    (∀ x ∈ s.ended, ∀ id url, HandsFor x.1 x.2.1 id url → HasRow s.env.2 id url) ∧
      (s.ended.Pairwise fun later earlier =>
        Disjoint (handedOut later.1 later.2.1) (handedOut earlier.1 earlier.2.1)) ∧
      ∀ x ∈ s.ended, ∀ y ∈ s.ended, ∀ id url url', HandsFor x.1 x.2.1 id url →
        LeadsFrom y.1 y.2.1 id url' → url' = url := by
  obtain ⟨hended, hapart⟩ := Discipline.holds_of_reaches (d := rowDiscipline keyPrefix)
    (fun q => q.ComesFrom StoredIn FoundIn) handedOut h (fun _ hs => hs)
    (fun _ _ _ hpost => handedOut_subset hpost)
    (fun _ _ task _ env _ => keeps_cacheTask hpre backfillTtlSec task (∅, env))
    fun env env' henv hout => hout.keeps henv
  have hrow : ∀ x ∈ s.ended, ∀ id url, HandsFor x.1 x.2.1 id url →
      0 ∉ id ∧ HasRow s.env.2 id url := by
    intro x hx id url hands
    obtain ⟨⟨own, hpost⟩, hstay⟩ := hended x hx
    obtain ⟨hplain, hrow⟩ := hasRow_of_handsFor hpost hands
    exact ⟨hplain, hrow.stays hstay⟩
  refine ⟨fun x hx id url hands => (hrow x hx id url hands).2, hapart, ?_⟩
  intro x hx y hy id url url' hands hleads
  obtain ⟨hplain, hhas⟩ := hrow x hx id url hands
  obtain ⟨⟨own, hpost⟩, hstay⟩ := hended y hy
  exact hhas.unique ((hasRow_of_leadsFrom hpost hleads hplain).stays hstay)

end Runs

/-- The first `INSERT` throws, though it has been executed, so a second identifier is drawn. Before
the link is in Redis another thread asks for it, and its value from MySQL arrives there last. -/
def throwsAndFills : List (SharingEvent CacheAsideData CacheAsideOutcome Bool
    (HandlerTask (Option RedisContext))) :=
  [.start false shortenOnRedis, .call false (.threw (bytes "Lost connection") true),
    .call false .returned, .start true redirectOnRedis, .call true (.redis (.fared .answered)),
    .call true .returned, .call true (.read 0), .call false (.redis (.opened (some ⟨0, []⟩))),
    .call false (.redis (.fared .answered)), .call true (.redis (.fared .answered))]

theorem rows_of_reaches_throwsAndFills :
    0 ∉ bytes "short:" ∧ ∃ s : CacheAsideProcesses Bool,
      Reaches (cacheAsideSystem (bytes "short:") 60 Bool) Always s ∧
        s.ended.map (fun x => (x.2.1.1.response.statusCode,
            x.2.1.1.response.getHeader (bytes "Location"))) =
          [(301, bytes "http://a"), (200, [])] ∧
        (∀ x ∈ s.ended, ∀ id url, HandsFor x.1 x.2.1 id url → HasRow s.env.2 id url) ∧
        (s.ended.Pairwise fun later earlier =>
          Disjoint (handedOut later.1 later.2.1) (handedOut earlier.1 earlier.2.1)) ∧
        ∀ x ∈ s.ended, ∀ y ∈ s.ended, ∀ id url url', HandsFor x.1 x.2.1 id url →
          LeadsFrom y.1 y.2.1 id url' → url' = url := by
  have hplain : 0 ∉ bytes "short:" := by decide
  have hrun : (throwsAndFills.foldlM
      (Sharing.next (HandlerTask.program (cacheProgram (bytes "short:") 60))
        CacheAsideCall.perform)
      (⟨(.empty 0, .empty 0), fun _ => none, []⟩ : CacheAsideProcesses Bool)).map (fun s =>
        s.ended.map fun x => (x.2.1.1.response.statusCode,
          x.2.1.1.response.getHeader (bytes "Location"))) =
      some [(301, bytes "http://a"), (200, [])] := by decide +kernel
  obtain ⟨s, hs, hended⟩ := Option.map_eq_some_iff.1 hrun
  have hbacked : Backed (bytes "short:") (.empty 0, .empty 0) := by
    refine ⟨?_, fun key v expires _ hv => by cases hv⟩
    rintro key url ⟨row, hrow, -⟩
    cases hrow
  have hreach : Reaches (cacheAsideSystem (bytes "short:") 60 Bool) Always s :=
    Sharing.reaches_of_foldlM (.init ⟨hbacked, rfl, rfl⟩) (by simp [throwsAndFills]) hs
  exact ⟨hplain, s, hreach, hended, rows_of_reaches hplain hreach⟩

end KamaHttp
