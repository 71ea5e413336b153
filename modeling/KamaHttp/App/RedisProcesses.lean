import KamaHttp.App.RedisPrograms

/-!
# Processes that share a Redis

Any number of threads, in any number of processes, shorten and redirect on one Redis, behind
connections that may break at any point of a command. Between the commands of a thread others run,
time passes, and other clients do what they like with keys of their own.

* `perform_spec`: what a command that the programs send does to the data.
* `Led.step`: what is kept by a step of the processes.
* `links_of_reaches`: an identifier that is handed out leads to its URL until it expires, and is not
  handed out again before.
-/

namespace KamaHttp

open RedisStore RedisServer

/-- How a call of the library turns out. -/
inductive RedisOutcome
  | opened (ctx : Option RedisContext)
  | fared (fate : Fate)
  | freed

namespace RedisCall

/-- What a call returns and makes of the data. -/
def perform : (x : RedisCall) → RedisData → RedisOutcome → Option (x.Returned × RedisData)
  | .connect, db, .opened ctx => some (ctx, db)
  | .command _ args, db, .fared fate =>
    some (if fate = .answered then some (RedisServer.exec args db).1 else none,
      if fate.executes then (RedisServer.exec args db).2 else db)
  | .free _, db, .freed => some ((), db)
  | _, _, _ => none

end RedisCall

/-- Time passes, and other clients change other keys. -/
def Elsewhere (keyPrefix : Bytes) (db db' : RedisData) : Prop :=
  db.now ≤ db'.now ∧
    ∀ key, db'.entry (wireKey keyPrefix key) = db.entry (wireKey keyPrefix key)

/-- What the threads and their Redis are in. -/
abbrev RedisProcesses (T : Type*) :=
  Sharing RedisCall RedisCall.Returned (Answer × State (Option RedisContext)) RedisData T RedisTask

/-- The runs of the threads, on a Redis with any data. -/
def redisSystem (keyPrefix : Bytes) (T : Type*) [DecidableEq T] :
    System (RedisProcesses T) (SharingEvent RedisData RedisOutcome T RedisTask) :=
  Sharing.system (HandlerTask.program (redisProgram keyPrefix)) RedisCall.perform (fun _ => True)
    (Elsewhere keyPrefix) T

/-! ## What the commands do -/

section Commands

variable {keyPrefix key value : Bytes} {ttlSec : ℤ} {db db' : RedisData}

theorem exec_getArgs : RedisServer.exec (getArgs keyPrefix key) db =
    (match db.get (wireKey keyPrefix key) with
      | some v => .string v
      | none => .nil, db) := by
  have hargs : getArgs keyPrefix key = [bytes "GET", wireKey keyPrefix key] := rfl
  rw [hargs, RedisServer.exec]
  exact if_pos rfl

/-- `SET` with `NX` stores the value if the key is free, and changes nothing otherwise. -/
theorem exec_setNXArgs_cases (keyPrefix key value : Bytes) (ttlSec : ℤ) (db : RedisData) :
    RedisServer.exec (setNXArgs keyPrefix key value ttlSec) db =
        (.status (bytes "OK"), db.set (wireKey keyPrefix key) value ttlSec) ∧
      Free keyPrefix key ttlSec db ∨
    (RedisServer.exec (setNXArgs keyPrefix key value ttlSec) db).2 = db ∧
      (RedisServer.exec (setNXArgs keyPrefix key value ttlSec) db).1 ≠ .status (bytes "OK") := by
  have hargs : setNXArgs keyPrefix key value ttlSec = bytes "SET" :: wireKey keyPrefix key ::
    value :: bytes "NX" :: (expiryOption ttlSec).map (·.arg) := rfl
  rw [hargs, exec_set, setOptions_nx, Free]
  by_cases hpos : 0 < ttlSec
  · rw [setOptions_expiry hpos]
    cases hget : db.get (wireKey keyPrefix key) with
    | none => exact .inl (by simp [TtlMap.setNX, hget, hpos])
    | some v => exact .inr (by simp [TtlMap.setNX, hget])
  · rw [setOptions_no_expiry hpos]
    exact .inr (by simp)

/-- The clock does not go back, and what is there under the prefix stays, for as long as it is
there. -/
structure Carries (keyPrefix : Bytes) (db db' : RedisData) : Prop where
  now : db.now ≤ db'.now
  entry : ∀ key, (db.get (wireKey keyPrefix key)).isSome →
    db'.entry (wireKey keyPrefix key) = db.entry (wireKey keyPrefix key)

theorem Elsewhere.carries (h : Elsewhere keyPrefix db db') : Carries keyPrefix db db' :=
  ⟨h.1, fun key _ => h.2 key⟩

theorem Carries.refl (keyPrefix : Bytes) (db : RedisData) : Carries keyPrefix db db :=
  ⟨le_rfl, fun _ _ => rfl⟩

theorem carries_setNX (value : Bytes) (ttlSec : ℤ)
    (h : db.get (wireKey keyPrefix key) = none) :
    Carries keyPrefix db (db.set (wireKey keyPrefix key) value ttlSec) := by
  refine ⟨le_rfl, fun key' hsome => ?_⟩
  have hne : wireKey keyPrefix key' ≠ wireKey keyPrefix key := by
    intro heq
    rw [heq, h] at hsome
    cases hsome
  rw [TtlMap.entry_set, if_neg hne]

/-- The commands that the programs send carry the data over. -/
theorem carries_exec {ctx : RedisContext} {args : List Bytes}
    (hc : Sends keyPrefix (.command ctx args)) :
    Carries keyPrefix db (RedisServer.exec args db).2 ∧
      (RedisServer.exec args db).2.now = db.now := by
  rcases hc with ⟨key, rfl⟩ | ⟨key, value, ttlSec, rfl⟩
  · rw [exec_getArgs]
    exact ⟨.refl keyPrefix db, rfl⟩
  · rcases exec_setNXArgs_cases keyPrefix key value ttlSec db with ⟨heq, hfree⟩ | ⟨heq, -⟩
    · rw [heq]
      exact ⟨carries_setNX value ttlSec hfree.2, rfl⟩
    · rw [heq]
      exact ⟨.refl keyPrefix db, rfl⟩

/-- **What a command that the programs send does to the data**, and what its reply says. -/
theorem perform_spec {c : RedisCall} {r : c.Returned} {outcome : RedisOutcome}
    (hc : Sends keyPrefix c) (h : c.perform db outcome = some (r, db')) :
    db'.now = db.now ∧ Carries keyPrefix db db' ∧
      (∀ ctx key value ttlSec, (⟨c, r⟩ : Interaction.Answered RedisCall RedisCall.Returned) =
          ⟨.command ctx (setNXArgs keyPrefix key value ttlSec), some (.status (bytes "OK"))⟩ →
        Free keyPrefix key ttlSec db ∧ db' = db.set (wireKey keyPrefix key) value ttlSec) ∧
      ∀ ctx key v, (⟨c, r⟩ : Interaction.Answered RedisCall RedisCall.Returned) =
          ⟨.command ctx (getArgs keyPrefix key), some (.string v)⟩ →
        db.get (wireKey keyPrefix key) = some v := by
  cases c with
  | connect =>
    cases outcome <;> cases h
    exact ⟨rfl, .refl keyPrefix db, nofun, nofun⟩
  | free ctx =>
    cases outcome <;> cases h
    exact ⟨rfl, .refl keyPrefix db, nofun, nofun⟩
  | command ctx args =>
    cases outcome with
    | opened x => cases h
    | freed => cases h
    | fared fate =>
      cases h
      have hcarries : Carries keyPrefix db (RedisServer.exec args db).2 ∧
          (RedisServer.exec args db).2.now = db.now := carries_exec hc
      refine ⟨?_, ?_, ?_, ?_⟩
      · split
        · exact hcarries.2
        · rfl
      · split
        · exact hcarries.1
        · exact .refl keyPrefix db
      · intro ctx' key value ttlSec heq
        obtain ⟨hcall, hreply⟩ := Sigma.mk.inj heq
        cases hcall
        obtain ⟨rfl, hok⟩ := Option.ite_none_right_eq_some.1 (eq_of_heq hreply)
        rcases exec_setNXArgs_cases keyPrefix key value ttlSec db with ⟨hexec, hfree⟩ | ⟨-, hne⟩
        · exact ⟨hfree, by rw [hexec]; rfl⟩
        · exact absurd (Option.some.inj hok) hne
      · intro ctx' key v heq
        obtain ⟨hcall, hreply⟩ := Sigma.mk.inj heq
        cases hcall
        obtain ⟨rfl, hok⟩ := Option.ite_none_right_eq_some.1 (eq_of_heq hreply)
        rw [exec_getArgs, Option.some.injEq] at hok
        cases hget : db.get (wireKey keyPrefix key) <;> rw [hget] at hok <;> cases hok
        rfl

end Commands

/-! ## What is handed out, and where redirects lead -/

/-- A request that has ended: its task, the answer, and the data at that time. -/
abbrev EndedTask := RedisTask × (Answer × State (Option RedisContext)) × RedisData

/-- A request to shorten was answered 200 with the identifier, whose URL and time to live it has
read. -/
def Hands (x : EndedTask) (id url : Bytes) (expires : ℕ) : Prop :=
  ∃ req resp st ttl, x.1 = .shorten req resp st ∧ AnswersId id (true, x.2.1.1) ∧
    parseJson req.getBody = some (url, ttl) ∧ expires = x.2.2.now + ttl.toNat

/-- A request for the identifier was redirected to the URL. -/
def Follows (x : EndedTask) (id url : Bytes) : Prop :=
  ∃ req resp st, x.1 = .redirect req resp st ∧ req.getPathParameters (bytes "param1") = id ∧
    AnswersUrl url (true, x.2.1.1)

/-- What holds of the data and the requests that have ended, the last first. -/
structure Led (keyPrefix : Bytes) (db : RedisData) (ended : List EndedTask) : Prop where
  clock : ∀ x ∈ ended, x.2.2.now ≤ db.now
  /-- An identifier that has not expired is under its key, with its URL. -/
  handed : ∀ x ∈ ended, ∀ id url expires, Hands x id url expires → db.now < expires →
    db.entry (wireKey keyPrefix id) = some (url, some expires)
  /-- Where a redirect has led just now, there is the URL. -/
  followed : ∀ y ∈ ended, ∀ id url, Follows y id url → y.2.2.now = db.now →
    db.get (wireKey keyPrefix id) = some url
  /-- No identifier is handed out again before it expires. -/
  apart : ended.Pairwise fun later earlier => ∀ id url expires url' expires',
    Hands later id url expires → Hands earlier id url' expires' → expires' ≤ later.2.2.now
  /-- Until an identifier expires, redirects lead to its URL. -/
  led : ∀ x ∈ ended, ∀ y ∈ ended, ∀ id url expires url', Hands x id url expires →
    Follows y id url' → x.2.2.now ≤ y.2.2.now → y.2.2.now < expires → url' = url

section Led

variable {keyPrefix : Bytes} {db db' : RedisData} {ended : List EndedTask}

theorem get_of_entry {key url : Bytes} {expires : ℕ} (h : db.entry key = some (url, some expires))
    (hnow : db.now < expires) : db.get key = some url :=
  TtlMap.get_eq_some_iff.2 ⟨some expires, h, TtlMap.pending_some.2 hnow⟩

theorem Led.get_of_hands (h : Led keyPrefix db ended) {x : EndedTask} (hx : x ∈ ended)
    {id url : Bytes} {expires : ℕ} (hands : Hands x id url expires) (hnow : db.now < expires) :
    db.get (wireKey keyPrefix id) = some url :=
  get_of_entry (h.handed x hx id url expires hands hnow) hnow

theorem Led.nil (keyPrefix : Bytes) (db : RedisData) : Led keyPrefix db [] where
  clock _ hx := absurd hx List.not_mem_nil
  handed _ hx := absurd hx List.not_mem_nil
  followed _ hy := absurd hy List.not_mem_nil
  apart := .nil
  led _ hx := absurd hx List.not_mem_nil

/-- The data may change, as long as it is carried over. -/
theorem Led.carry (h : Led keyPrefix db ended) (hc : Carries keyPrefix db db') :
    Led keyPrefix db' ended where
  clock x hx := (h.clock x hx).trans hc.now
  handed x hx id url expires hands hnow := by
    have hnow' : db.now < expires := hc.now.trans_lt hnow
    rw [hc.entry id (by rw [h.get_of_hands hx hands hnow']; rfl)]
    exact h.handed x hx id url expires hands hnow'
  followed y hy id url hfollows hnow := by
    -- the clock has not moved, so the value has not expired
    have heq : db.now = db'.now := le_antisymm hc.now (hnow ▸ h.clock y hy)
    have hget := h.followed y hy id url hfollows (hnow.trans heq.symm)
    have hentry := hc.entry id (by rw [hget]; rfl)
    rw [TtlMap.get_eq_some_iff] at hget ⊢
    rwa [hentry, ← heq]
  apart := h.apart
  led := h.led

/-- What is said of a request that ends: an identifier it hands out was free, and is under its key
with its URL; where it leads, there was the URL. -/
structure Accounts (keyPrefix : Bytes) (db db' : RedisData) (x : EndedTask) : Prop where
  env : x.2.2 = db'
  hands : ∀ id url expires, Hands x id url expires → db.get (wireKey keyPrefix id) = none ∧
    db'.entry (wireKey keyPrefix id) = some (url, some expires)
  follows : ∀ id url, Follows x id url → db.get (wireKey keyPrefix id) = some url

theorem Led.cons (h : Led keyPrefix db ended) (hc : Carries keyPrefix db db')
    (hnow : db'.now = db.now) {x : EndedTask} (hx : Accounts keyPrefix db db' x) :
    Led keyPrefix db' (x :: ended) := by
  have hold := h.carry hc
  have hxnow : x.2.2.now = db.now := by rw [hx.env, hnow]
  refine ⟨?_, ?_, ?_, ?_, ?_⟩
  · exact List.forall_mem_cons.2 ⟨by rw [hx.env], hold.clock⟩
  · exact List.forall_mem_cons.2
      ⟨fun id url expires hands _ => (hx.hands id url expires hands).2, hold.handed⟩
  · refine List.forall_mem_cons.2 ⟨fun id url hfollows _ => ?_, hold.followed⟩
    have hget := hx.follows id url hfollows
    have hentry := hc.entry id (by rw [hget]; rfl)
    rw [TtlMap.get_eq_some_iff] at hget ⊢
    rwa [hentry, hnow]
  · refine List.pairwise_cons.2 ⟨?_, hold.apart⟩
    intro y hy id url expires url' expires' hands hands'
    by_contra hlt
    rw [hxnow, Nat.not_le] at hlt
    have hsome := h.get_of_hands hy hands' hlt
    rw [(hx.hands id url expires hands).1] at hsome
    cases hsome
  · refine List.forall_mem_cons.2 ⟨?_, fun y hy => List.forall_mem_cons.2 ⟨?_, h.led y hy⟩⟩
    · refine List.forall_mem_cons.2 ⟨?_, fun y hy id url expires url' hands hfollows hle _ => ?_⟩
      · rintro id url expires url' ⟨req, resp, st, ttl, htask, -⟩ ⟨req', resp', st', htask', -⟩
        rw [htask] at htask'
        cases htask'
      · -- the redirect came first, at the same second, and found the key taken
        have heq : y.2.2.now = db.now := le_antisymm (h.clock y hy) (hxnow ▸ hle)
        have hget := h.followed y hy id url' hfollows heq
        rw [(hx.hands id url expires hands).1] at hget
        cases hget
    · intro id url expires url' hands hfollows _ hlt
      have hget := h.get_of_hands hy hands (hxnow ▸ hlt)
      rw [hx.follows id url' hfollows] at hget
      exact Option.some.inj hget

end Led

/-! ## All runs -/

section Runs

variable {keyPrefix : Bytes} {T : Type*} [DecidableEq T] {s s' : RedisProcesses T}

/-- What holds in every state of a run. -/
structure RedisInv (keyPrefix : Bytes) (s : RedisProcesses T) : Prop where
  kept : s.Kept (Sends keyPrefix)
    (HandlerTask.ComesFrom (StoredBy keyPrefix) (FoundBy keyPrefix))
  led : Led keyPrefix s.env s.ended

/-- A request that ends accounts for what it answers, if its answer comes from a command. -/
theorem accounts_of_comesFrom {db db' : RedisData} {q : RedisTask}
    {a : Answer × State (Option RedisContext)}
    {last : Option (Interaction.Answered RedisCall RedisCall.Returned)}
    (h : q.ComesFrom (StoredBy keyPrefix) (FoundBy keyPrefix) last a)
    (hset : ∀ ctx key value ttlSec, last =
        some ⟨.command ctx (setNXArgs keyPrefix key value ttlSec), some (.status (bytes "OK"))⟩ →
      Free keyPrefix key ttlSec db ∧ db' = db.set (wireKey keyPrefix key) value ttlSec)
    (hget : ∀ ctx key v, last =
        some ⟨.command ctx (getArgs keyPrefix key), some (.string v)⟩ →
      db.get (wireKey keyPrefix key) = some v) :
    Accounts keyPrefix db db' (q, a, db') := by
  refine ⟨rfl, ?_, ?_⟩
  · rintro id url expires ⟨req, resp, st, ttl, rfl, hid, hparsed, rfl⟩
    obtain ⟨url', ttl', hparsed', ctx, hlast⟩ := h id hid
    rw [hparsed, Option.some.injEq, Prod.mk.injEq] at hparsed'
    obtain ⟨rfl, rfl⟩ := hparsed'
    obtain ⟨⟨hpos, hfree⟩, rfl⟩ := hset ctx id url ttl hlast
    refine ⟨hfree, ?_⟩
    rw [TtlMap.entry_set, if_pos rfl, TtlMap.expiry, if_pos hpos]
    rfl
  · rintro id url ⟨req, resp, st, rfl, rfl, hurl⟩
    obtain ⟨ctx, hlast⟩ := h url hurl
    exact hget ctx _ url hlast

/-- **What is kept by a step of the processes.** -/
theorem RedisInv.step {e : SharingEvent RedisData RedisOutcome T RedisTask}
    (h : RedisInv keyPrefix s) (hstep : (redisSystem keyPrefix T).step s e s') :
    RedisInv keyPrefix s' := by
  obtain ⟨hkept, ⟨henv, hends⟩ | ⟨c, r, outcome, hc, hperform, hends⟩ | ⟨hout, hended⟩⟩ :=
    Sharing.step_cases keeps_redisTask h.kept hstep
  · refine ⟨hkept, ?_⟩
    rcases hends with hended | ⟨q, a, hended, hq⟩
    · rw [hended, henv]
      exact h.led
    · rw [hended]
      refine h.led.cons (henv ▸ .refl keyPrefix _) (by rw [henv]) ?_
      exact accounts_of_comesFrom hq (fun _ _ _ _ hlast => by cases hlast)
        fun _ _ _ hlast => by cases hlast
  · obtain ⟨hnow, hcarries, hset, hget⟩ := perform_spec hc hperform
    refine ⟨hkept, ?_⟩
    rcases hends with hended | ⟨q, a, hended, hq⟩
    · rw [hended]
      exact h.led.carry hcarries
    · rw [hended]
      refine h.led.cons hcarries hnow ?_
      exact accounts_of_comesFrom hq
        (fun ctx key value ttlSec hlast => hset ctx key value ttlSec (Option.some.inj hlast))
        fun ctx key v hlast => hget ctx key v (Option.some.inj hlast)
  · refine ⟨hkept, ?_⟩
    rw [hended]
    exact h.led.carry hout.carries

theorem redisInv_of_reaches {G : RedisProcesses T → _ → Prop}
    (h : Reaches (redisSystem keyPrefix T) G s) : RedisInv keyPrefix s := by
  refine h.invariant ?_ fun s e s' hs _ hstep => hs.step hstep
  rintro s ⟨-, hthread, hended⟩
  refine ⟨fun t q p ht => ?_, ?_⟩
  · rw [hthread] at ht
    cases ht
  · rw [hended]
    exact .nil keyPrefix s.env

/-- **Identifiers lead to their URLs until they expire.** In every run of the threads of any number
of processes, on a Redis behind connections that break: an identifier that has been handed out and
has not expired is in Redis with its URL; it is not handed out again before it expires; and no
redirect between these times leads to any other URL. -/
theorem links_of_reaches (h : Reaches (redisSystem keyPrefix T) Always s) :
    (∀ x ∈ s.ended, ∀ id url expires, Hands x id url expires → s.env.now < expires →
        s.env.get (wireKey keyPrefix id) = some url) ∧
      (s.ended.Pairwise fun later earlier => ∀ id url expires url' expires',
        Hands later id url expires → Hands earlier id url' expires' →
          expires' ≤ later.2.2.now) ∧
      ∀ x ∈ s.ended, ∀ y ∈ s.ended, ∀ id url expires url', Hands x id url expires →
        Follows y id url' → x.2.2.now ≤ y.2.2.now → y.2.2.now < expires → url' = url := by
  have hled := (redisInv_of_reaches h).led
  refine ⟨fun x hx id url expires hands hnow => ?_, hled.apart, hled.led⟩
  exact hled.get_of_hands hx hands hnow

end Runs

/-- A request to shorten with no connection yet, that draws `0000000` and then `1111111`. -/
def shortenOnRedis : RedisTask :=
  .shorten { HttpRequest.new with
      method := .kPost
      content := bytes "\x7b\"url\":\"http://a\",\"ttl\":60\x7d" }
    (.new false)
    ⟨none, none, none, fun n => if n < 7 then ⟨0, by decide⟩ else ⟨1, by decide⟩⟩

/-- A request for `1111111`, with a connection. -/
def redirectOnRedis : RedisTask :=
  .redirect (HttpRequest.new.setPathParameters (bytes "param1") (bytes "1111111")) (.new false)
    ⟨some ⟨0, []⟩, none, none, fun _ => ⟨0, by decide⟩⟩

/-- The reply to the first `SET` is lost. It is sent again and finds the key taken, so a second
identifier is drawn; behind it another thread redirects. -/
def lostAndRetried : List (SharingEvent RedisData RedisOutcome Bool RedisTask) :=
  [.start false shortenOnRedis, .call false (.opened (some ⟨0, []⟩)),
    .call false (.fared .unanswered), .call false .freed, .call false (.opened (some ⟨0, []⟩)),
    .call false (.fared .answered), .start true redirectOnRedis, .call false (.fared .answered),
    .call true (.fared .answered)]

theorem links_of_reaches_lostAndRetried :
    ∃ s : RedisProcesses Bool, Reaches (redisSystem (bytes "short:") Bool) Always s ∧
        s.ended.map (fun x => (x.2.1.1.response.statusCode,
            x.2.1.1.response.getHeader (bytes "Location"))) =
          [(301, bytes "http://a"), (200, [])] ∧
        (∀ x ∈ s.ended, ∀ id url expires, Hands x id url expires → s.env.now < expires →
          s.env.get (wireKey (bytes "short:") id) = some url) ∧
        (s.ended.Pairwise fun later earlier => ∀ id url expires url' expires',
          Hands later id url expires → Hands earlier id url' expires' →
            expires' ≤ later.2.2.now) ∧
        ∀ x ∈ s.ended, ∀ y ∈ s.ended, ∀ id url expires url', Hands x id url expires →
          Follows y id url' → x.2.2.now ≤ y.2.2.now → y.2.2.now < expires → url' = url := by
  have hrun : (lostAndRetried.foldlM
      (Sharing.next (HandlerTask.program (redisProgram (bytes "short:"))) RedisCall.perform)
      (⟨.empty 0, fun _ => none, []⟩ : RedisProcesses Bool)).map (fun s =>
        s.ended.map fun x => (x.2.1.1.response.statusCode,
          x.2.1.1.response.getHeader (bytes "Location"))) =
      some [(301, bytes "http://a"), (200, [])] := by decide +kernel
  obtain ⟨s, hs, hended⟩ := Option.map_eq_some_iff.1 hrun
  have hreach : Reaches (redisSystem (bytes "short:") Bool) Always s :=
    Sharing.reaches_of_foldlM (.init ⟨trivial, rfl, rfl⟩) (by simp [lostAndRetried]) hs
  exact ⟨s, hreach, hended, links_of_reaches hreach⟩

end KamaHttp
