import KamaHttp.App.Guards
import KamaHttp.App.RedisClient
import KamaHttp.Foundations.Counter
import KamaHttp.Foundations.System

/-!
# Limits that are counted in Redis

`mw_RateLimitRedis.h`: the requests of a client are counted under a key that has the second in it,
and the counter is given a time to live of one second more than the window. Any number of servers
and threads share the counters; each request makes its steps among those of others, and the clock
may go on between them. What is known of Redis is what `INCR` and `EXPIRE` do.

* `alone_eq`: a request that is not interrupted does what `before` does.
* `counts_of_reaches`: the replies on a key are those of a counter that may be lost.
* `passed_le_iff`: in which windows no more requests are let through than the limit.
-/

namespace KamaHttp

open RedisClient

/-- `RateLimitRedis`: its limit, its window, and whether there are counters of its own. -/
structure RateLimitRedis where
  rps : ℤ
  windowSec : ℤ
  metrics : Bool

namespace RateLimitRedis

/-- The response to a request above the limit. -/
def limited : HttpResponse :=
  (((HttpResponse.new false).setStatusCode 403).addHeader (bytes "Retry-After") (bytes "1")).setBody
    (bytes "rate limited")

/-- The client a request counts for. -/
def clientOf (request : HttpRequest) : Bytes :=
  let key := request.getHeader (bytes "X-Client-Id")
  if key = [] then bytes "global" else key

/-- The key of a client and a second. -/
def rkey (client : Bytes) (sec : ℕ) : Bytes := bytes "rl:" ++ (client ++ (bytes ":" ++ decimal sec))

/-- The command `"INCR %s"`. -/
def incrCommand (client : Bytes) (sec : ℕ) : List Piece :=
  [.literal "INCR", .s (rkey client sec)]

/-- The command `"EXPIRE %s %d"`. -/
def expireCommand (m : RateLimitRedis) (client : Bytes) (sec : ℕ) : List Piece :=
  [.literal "EXPIRE", .s (rkey client sec), .d (toInt32 (m.windowSec + 1))]

/-- The value of the counter in a reply. -/
def value : Option RedisReply → ℤ
  | some (.integer n) => n
  | _ => 1

def countDrop (m : RateLimitRedis) (metrics : Metrics) : Metrics :=
  if m.metrics then { metrics with ratelimitDrops := metrics.ratelimitDrops + 1 } else metrics

/-- `before`, at a second of the clock, on a function that performs commands. -/
def before {κ : Type*} (m : RateLimitRedis)
    (cmd : List Bytes → κ → Except StdException (Option RedisReply) × κ) (sec : ℕ)
    (request : HttpRequest) (w : Metrics × κ) : Except Thrown HttpRequest × (Metrics × κ) :=
  let client := clientOf request
  match cmd ((incrCommand client sec).map (·.arg)) w.2 with
  | (.error e, s) => (.error (.exception e), (w.1, s))
  | (.ok r, s) =>
    match cmd ((m.expireCommand client sec).map (·.arg)) s with
    | (.error e, s) => (.error (.exception e), (w.1, s))
    | (.ok _, s) =>
      if m.rps < value r then (.error (.response limited), (m.countDrop w.1, s))
      else (.ok request, (w.1, s))

end RateLimitRedis

/-! ## The counters -/

/-- The counters of the server. -/
abbrev Counters := TtlMap Bytes ℤ

namespace Counters

/-- One command. -/
def exec (args : List Bytes) (db : Counters) : RedisReply × Counters :=
  match args with
  | [cmd, key] =>
    if cmd = bytes "INCR" then
      let n := (db.get key).getD 0 + 1
      (.integer n, db.put key n)
    else (.error (bytes "ERR unknown command or wrong number of arguments"), db)
  | [cmd, key, seconds] =>
    if cmd = bytes "EXPIRE" then
      match strtol seconds with
      | some n => (.integer (if (db.get key).isSome then 1 else 0), db.expire key n)
      | none => (.error (bytes "ERR value is not an integer or out of range"), db)
    else (.error (bytes "ERR unknown command or wrong number of arguments"), db)
  | _ => (.error (bytes "ERR unknown command or wrong number of arguments"), db)

/-- Commands to a server that can be reached. -/
def cmd (args : List Bytes) (db : Counters) : Except StdException (Option RedisReply) × Counters :=
  (.ok (some (exec args db).1), (exec args db).2)

theorem exec_incr (key : Bytes) (db : Counters) :
    exec [bytes "INCR", key] db =
      (.integer ((db.get key).getD 0 + 1), db.put key ((db.get key).getD 0 + 1)) := by
  rw [exec, if_pos rfl]

/-- `EXPIRE` leaves the counters as they are, or takes one away. -/
theorem get_exec_expire (key seconds : Bytes) (db : Counters) (k : Bytes) :
    (exec [bytes "EXPIRE", key, seconds] db).2.get k = db.get k ∨
      (exec [bytes "EXPIRE", key, seconds] db).2.get k = none := by
  rw [exec, if_pos rfl]
  cases strtol seconds with
  | none => exact .inl rfl
  | some n => exact TtlMap.get_expire db key n k

end Counters

/-! ## Requests in any order -/

/-- Where a request is: it has read the clock, it has been counted, it has been let through, or it
has been turned down. -/
inductive Stage
  | sampled
  | counted (val : ℤ)
  | passed (val : ℤ)
  | dropped (val : ℤ)
  deriving DecidableEq

/-- The value that the counter had for the request. -/
def Stage.val? : Stage → Option ℤ
  | .sampled => none
  | .counted val => some val
  | .passed val => some val
  | .dropped val => some val

/-- A request: its client, the second it has read, where it is, and whether it found no counter when
it was counted. -/
structure LimitedRequest where
  client : Bytes
  sec : ℕ
  stage : Stage
  fresh : Bool
  deriving DecidableEq

/-- The counters, and the requests in the order in which they came. -/
structure LimitState where
  db : Counters
  requests : List LimitedRequest

/-- A request comes, one of them makes a step, or the clock goes on. -/
inductive LimitEvent
  | arrive (request : HttpRequest)
  | step (i : ℕ)
  | tick (seconds : ℕ)

namespace RateLimitRedis

/-- The key as the server gets it. -/
def wireKey (r : LimitedRequest) : Bytes := cStr (rkey r.client r.sec)

variable (m : RateLimitRedis)

/-- One step of a request: `INCR`, or `EXPIRE` and the decision. -/
def step (r : LimitedRequest) (db : Counters) : LimitedRequest × Counters :=
  match r.stage with
  | .sampled =>
    let x := Counters.exec ((incrCommand r.client r.sec).map (·.arg)) db
    ({ r with stage := .counted (value (some x.1)), fresh := (db.get (wireKey r)).isNone }, x.2)
  | .counted val =>
    let x := Counters.exec ((m.expireCommand r.client r.sec).map (·.arg)) db
    ({ r with stage := if m.rps < val then .dropped val else .passed val }, x.2)
  | _ => (r, db)

def next (s : LimitState) : LimitEvent → LimitState
  | .arrive request =>
    { s with requests := s.requests ++ [⟨clientOf request, s.db.now, .sampled, false⟩] }
  | .step i =>
    match s.requests[i]? with
    | some r => ⟨(m.step r s.db).2, s.requests.set i (m.step r s.db).1⟩
    | none => s
  | .tick seconds => { s with db := s.db.tick seconds }

/-- The runs of the requests, in any order; there are no counters in the beginning. -/
def system : System LimitState LimitEvent where
  init s := ∃ now, s = ⟨TtlMap.empty now, []⟩
  step s e s' := s' = m.next s e

variable {m}

/-- What `INCR` makes of a request: it is given the next value of its counter. -/
theorem step_sampled {r : LimitedRequest} (h : r.stage = .sampled) (db : Counters) :
    m.step r db =
      ({ r with
          stage := .counted ((db.get (wireKey r)).getD 0 + 1)
          fresh := (db.get (wireKey r)).isNone },
        db.put (wireKey r) ((db.get (wireKey r)).getD 0 + 1)) := by
  have hargs : (incrCommand r.client r.sec).map (·.arg) = [bytes "INCR", wireKey r] := rfl
  simp only [step, h, hargs, Counters.exec_incr, value]

/-- What the decision makes of it. The counters are left, or one of them is taken away. -/
theorem step_counted {r : LimitedRequest} {val : ℤ} (h : r.stage = .counted val) (db : Counters) :
    (m.step r db).1 = { r with stage := if m.rps < val then .dropped val else .passed val } ∧
      ∀ k, (m.step r db).2.get k = db.get k ∨ (m.step r db).2.get k = none := by
  have hstep : m.step r db =
      ({ r with stage := if m.rps < val then .dropped val else .passed val },
        (Counters.exec ((m.expireCommand r.client r.sec).map (·.arg)) db).2) := by
    simp only [step, h]
  rw [hstep]
  exact ⟨rfl, fun k => Counters.get_exec_expire _ _ db k⟩

theorem next_step_last {s : LimitState} {l : List LimitedRequest} {r : LimitedRequest}
    (h : s.requests = l ++ [r]) :
    m.next s (.step l.length) = ⟨(m.step r s.db).2, l ++ [(m.step r s.db).1]⟩ := by
  simp [next, h]

/-- **A request that is not interrupted** does what `before` does. -/
theorem alone_eq (m : RateLimitRedis) (request : HttpRequest) (s : LimitState) (metrics : Metrics) :
    let result := m.before Counters.cmd s.db.now request (metrics, s.db)
    let s' := m.next (m.next (m.next s (.arrive request)) (.step s.requests.length))
      (.step s.requests.length)
    s'.db = result.2.2 ∧ ∃ val fresh,
      s'.requests = s.requests ++ [⟨clientOf request, s.db.now,
        if m.rps < val then .dropped val else .passed val, fresh⟩] ∧
      (result.1 = .ok request ↔ ¬ m.rps < val) := by
  intro result s'
  let r : LimitedRequest := ⟨clientOf request, s.db.now, .sampled, false⟩
  let n := (s.db.get (wireKey r)).getD 0 + 1
  have hcount := step_sampled (m := m) (r := r) rfl s.db
  have hs' : s' = ⟨(m.step (m.step r s.db).1 (m.step r s.db).2).2,
      s.requests ++ [(m.step (m.step r s.db).1 (m.step r s.db).2).1]⟩ := by
    have hlast := next_step_last (m := m) (s := { s with requests := s.requests ++ [r] }) rfl
    change m.next (m.next { s with requests := s.requests ++ [r] } _) _ = _
    rw [hlast, next_step_last rfl]
  have hresult : result =
      if m.rps < n then (.error (.response limited), (m.countDrop metrics,
        (m.step (m.step r s.db).1 (m.step r s.db).2).2))
      else (.ok request, (metrics, (m.step (m.step r s.db).1 (m.step r s.db).2).2)) := by
    rw [hcount]
    rfl
  rw [hs', hresult]
  refine ⟨?_, n, (s.db.get (wireKey r)).isNone, ?_, ?_⟩
  · split <;> rfl
  · rw [hcount]
    rfl
  · split
    · rename_i h
      simp [h]
    · rename_i h
      simp [h]

/-! ## What a step does -/

/-- The cases of a step: a request comes, time goes by, a request is counted or decided on, or
nothing is done. -/
inductive Next (m : RateLimitRedis) (s : LimitState) : LimitState → Prop
  | arrive (client : Bytes) (sec : ℕ) :
      Next m s { s with requests := s.requests ++ [⟨client, sec, .sampled, false⟩] }
  | tick (seconds : ℕ) : Next m s { s with db := s.db.tick seconds }
  | count {front r back} (h : s.requests = front ++ r :: back) (hr : r.stage = .sampled) :
      Next m s ⟨s.db.put (wireKey r) ((s.db.get (wireKey r)).getD 0 + 1),
        front ++ { r with
          stage := .counted ((s.db.get (wireKey r)).getD 0 + 1)
          fresh := (s.db.get (wireKey r)).isNone } :: back⟩
  | decide {front r back val db} (h : s.requests = front ++ r :: back)
      (hr : r.stage = .counted val) (hdb : ∀ k, db.get k = s.db.get k ∨ db.get k = none) :
      Next m s ⟨db, front ++
        { r with stage := if m.rps < val then .dropped val else .passed val } :: back⟩
  | idle : Next m s s

theorem next_cases (m : RateLimitRedis) (s : LimitState) (e : LimitEvent) :
    Next m s (m.next s e) := by
  cases e with
  | arrive request => exact .arrive _ _
  | tick seconds => exact .tick seconds
  | step i =>
    rw [next]
    cases hi : s.requests[i]? with
    | none => exact .idle
    | some r =>
      obtain ⟨hlt, hr⟩ := List.getElem?_eq_some_iff.1 hi
      have hrequests : s.requests = s.requests.take i ++ r :: s.requests.drop (i + 1) := by
        rw [← hr, List.getElem_cons_drop, List.take_append_drop]
      have hset : ∀ r', s.requests.set i r' = s.requests.take i ++ r' :: s.requests.drop (i + 1) :=
        fun r' => by rw [List.set_eq_take_append_cons_drop, if_pos hlt]
      dsimp only
      rw [hset]
      cases hstage : r.stage with
      | sampled =>
        rw [step_sampled hstage]
        exact .count hrequests hstage
      | counted val =>
        obtain ⟨hr', hdb⟩ := step_counted (m := m) hstage s.db
        rw [hr']
        exact .decide hrequests hstage hdb
      | passed val | dropped val =>
        have hstep : m.step r s.db = (r, s.db) := by simp only [step, hstage]
        rw [hstep, ← hrequests]
        exact .idle

/-! ## The values on a key -/

/-- The value that the counter of the key had for the request. -/
def valueOn (k : Bytes) (r : LimitedRequest) : Option ℤ :=
  if wireKey r = k then r.stage.val? else none

/-- The values that the counter of the key has had. -/
def values (k : Bytes) (requests : List LimitedRequest) : Multiset ℤ :=
  (requests.filterMap (valueOn k) : Multiset ℤ)

theorem values_append_cons (k : Bytes) (front back : List LimitedRequest) (r : LimitedRequest) :
    values k (front ++ r :: back) = (valueOn k r).toList + values k (front ++ back) := by
  cases h : valueOn k r with
  | none => simp [values, h]
  | some v => simp [values, h]

/-- What is known of the requests: the values on a key are those of a counter that may be lost, a
request is new to its counter exactly if it was given the first value, and it was decided on by its
value. -/
structure Counts (m : RateLimitRedis) (s : LimitState) : Prop where
  issued : ∀ k, Issued (s.db.get k) (values k s.requests)
  fresh : ∀ r ∈ s.requests, r.fresh = true ↔ r.stage.val? = some 1
  passed : ∀ r ∈ s.requests, ∀ v, r.stage = .passed v → v ≤ m.rps
  dropped : ∀ r ∈ s.requests, ∀ v, r.stage = .dropped v → m.rps < v

theorem forall_mem_replace {P : LimitedRequest → Prop} {front back : List LimitedRequest}
    {r r' : LimitedRequest} (h : ∀ x ∈ front ++ r :: back, P x) (hr : P r') :
    ∀ x ∈ front ++ r' :: back, P x := by
  intro x hx
  rcases List.mem_append.1 hx with hx | hx
  · exact h x (List.mem_append_left _ hx)
  rcases List.mem_cons.1 hx with rfl | hx
  · exact hr
  · exact h x (List.mem_append_right _ (List.mem_cons_of_mem r hx))

theorem issued_of_get {o : Option ℤ} {l : Multiset ℤ} {o' : Option ℤ} (h : Issued o l)
    (ho : o' = o ∨ o' = none) : Issued o' l := by
  rcases ho with rfl | rfl
  · exact h
  · exact h.lost

/-- A request takes the place of another one, with what is known of it. -/
theorem Counts.replace {s : LimitState} {db : Counters} {front back : List LimitedRequest}
    {r r' : LimitedRequest} (h : Counts m s) (hrequests : s.requests = front ++ r :: back)
    (hissued : ∀ k, Issued (db.get k) (values k (front ++ r' :: back)))
    (hfresh : r'.fresh = true ↔ r'.stage.val? = some 1)
    (hpassed : ∀ v, r'.stage = .passed v → v ≤ m.rps)
    (hdropped : ∀ v, r'.stage = .dropped v → m.rps < v) :
    Counts m ⟨db, front ++ r' :: back⟩ where
  issued := hissued
  fresh := forall_mem_replace (hrequests ▸ h.fresh) hfresh
  passed := forall_mem_replace (hrequests ▸ h.passed) hpassed
  dropped := forall_mem_replace (hrequests ▸ h.dropped) hdropped

/-- A request that comes has been given no value yet. -/
theorem Counts.arrive {s : LimitState} (h : Counts m s) (client : Bytes) (sec : ℕ) :
    Counts m { s with requests := s.requests ++ [⟨client, sec, .sampled, false⟩] } := by
  have hmem : ∀ {P : LimitedRequest → Prop}, (∀ r ∈ s.requests, P r) →
      P ⟨client, sec, .sampled, false⟩ → ∀ r ∈ s.requests ++ [⟨client, sec, .sampled, false⟩],
        P r := fun hP hnew r hr => by
    rcases List.mem_append.1 hr with hr | hr
    · exact hP r hr
    · exact List.mem_singleton.1 hr ▸ hnew
  refine ⟨fun k => ?_, hmem h.fresh (by simp [Stage.val?]), hmem h.passed (by simp),
    hmem h.dropped (by simp)⟩
  have hnone : valueOn k ⟨client, sec, .sampled, false⟩ = none := by
    unfold valueOn
    split <;> rfl
  rw [values_append_cons, hnone, List.append_nil]
  simpa using h.issued k

/-- A request that is counted is given the next value of its counter. -/
theorem Counts.count {s : LimitState} (h : Counts m s) {front back : List LimitedRequest}
    {r : LimitedRequest} (hrequests : s.requests = front ++ r :: back)
    (hstage : r.stage = .sampled) :
    Counts m ⟨s.db.put (wireKey r) ((s.db.get (wireKey r)).getD 0 + 1),
      front ++ { r with
        stage := .counted ((s.db.get (wireKey r)).getD 0 + 1)
        fresh := (s.db.get (wireKey r)).isNone } :: back⟩ := by
  refine h.replace hrequests (fun k => ?_) ?_ (by simp) (by simp)
  · have hissued := h.issued k
    have hnone : valueOn k r = none := by
      simp [valueOn, hstage, Stage.val?]
    have hvalue : valueOn k { r with
        stage := .counted ((s.db.get (wireKey r)).getD 0 + 1)
        fresh := (s.db.get (wireKey r)).isNone } =
        if wireKey r = k then some ((s.db.get (wireKey r)).getD 0 + 1) else none := rfl
    rw [hrequests, values_append_cons, hnone, Option.toList_none, Multiset.coe_nil,
      zero_add] at hissued
    rw [values_append_cons, TtlMap.get_put, hvalue]
    by_cases hk : k = wireKey r
    · subst hk
      rw [if_pos rfl, if_pos rfl]
      cases hget : s.db.get (wireKey r) with
      | none => exact (hget ▸ hissued).first
      | some v => exact (hget ▸ hissued).next
    · rw [if_neg hk, if_neg fun h => hk h.symm]
      simpa using hissued
  · cases hget : s.db.get (wireKey r) with
    | none => simp [Stage.val?]
    | some v =>
      have hone := (h.issued (wireKey r)).one_le.2 v hget
      simp only [Option.isNone_some, Bool.false_eq_true, Option.getD_some, Stage.val?,
        Option.some.injEq, false_iff]
      omega

/-- A request that is decided on keeps its value; its counter may be gone. -/
theorem Counts.decide {s : LimitState} (h : Counts m s) {front back : List LimitedRequest}
    {r : LimitedRequest} {val : ℤ} {db : Counters} (hrequests : s.requests = front ++ r :: back)
    (hstage : r.stage = .counted val) (hdb : ∀ k, db.get k = s.db.get k ∨ db.get k = none) :
    Counts m ⟨db, front ++
      { r with stage := if m.rps < val then .dropped val else .passed val } :: back⟩ := by
  have hval : ((if m.rps < val then Stage.dropped val else .passed val) : Stage).val? =
      r.stage.val? := by
    rw [hstage]
    split <;> rfl
  refine h.replace hrequests (fun k => ?_) ?_ (fun v hv => ?_) fun v hv => ?_
  · have hsame : valueOn k { r with
        stage := if m.rps < val then .dropped val else .passed val } = valueOn k r := by
      simp only [valueOn, hval]
      rfl
    have hissued := h.issued k
    rw [hrequests, values_append_cons] at hissued
    rw [values_append_cons, hsame]
    exact issued_of_get hissued (hdb k)
  · rw [hval]
    exact h.fresh r (by simp [hrequests])
  · dsimp only at hv
    split at hv <;> grind
  · dsimp only at hv
    split at hv <;> grind

theorem Counts.next {s s' : LimitState} (h : Counts m s) (hn : Next m s s') : Counts m s' := by
  cases hn with
  | idle => exact h
  | tick seconds =>
    refine ⟨fun k => issued_of_get (h.issued k) ?_, h.fresh, h.passed, h.dropped⟩
    cases hk : (s.db.tick seconds).get k with
    | none => exact .inr rfl
    | some v => exact .inl (TtlMap.get_tick hk).symm
  | arrive client sec => exact h.arrive client sec
  | count hrequests hstage => exact h.count hrequests hstage
  | decide hrequests hstage hdb => exact h.decide hrequests hstage hdb

theorem counts_of_reaches {G : LimitState → LimitEvent → Prop} {s : LimitState}
    (h : Reaches m.system G s) : Counts m s := by
  refine h.invariant ?_ ?_
  · rintro _ ⟨now, rfl⟩
    refine ⟨fun k => .start, ?_, ?_, ?_⟩ <;> exact fun r hr => absurd hr List.not_mem_nil
  · rintro s e _ hs - rfl
    exact hs.next (next_cases m s e)

/-! ## How many are let through -/

/-- The request is let through. -/
def Passes (r : LimitedRequest) : Prop := ∃ v, r.stage = .passed v

/-- The request has been counted. -/
def IsCounted (r : LimitedRequest) : Prop := r.stage ≠ .sampled

instance : DecidablePred Passes := fun r => by
  unfold Passes
  cases r.stage with
  | passed v => exact .isTrue ⟨v, rfl⟩
  | sampled | counted | dropped => exact .isFalse fun ⟨_, h⟩ => by cases h

instance : DecidablePred IsCounted := fun r => inferInstanceAs (Decidable (r.stage ≠ .sampled))

variable (m) in
/-- The request is one of the client's, and its second lies in the window: the windows are as long
as the limit says, and begin at the multiples of their length. -/
def InWindow (client : Bytes) (window : ℤ) (r : LimitedRequest) : Prop :=
  r.client = client ∧ (r.sec : ℤ) / m.windowSec = window

instance (client : Bytes) (window : ℤ) : DecidablePred (m.InWindow client window) := fun r =>
  inferInstanceAs (Decidable (r.client = client ∧ (r.sec : ℤ) / m.windowSec = window))

variable (m) in
/-- The requests of a client in a window that have been counted. -/
def counted (client : Bytes) (window : ℤ) (s : LimitState) : ℕ :=
  s.requests.countP fun r => m.InWindow client window r ∧ IsCounted r

variable (m) in
/-- The requests of a client in a window that have been let through. -/
def passed (client : Bytes) (window : ℤ) (s : LimitState) : ℕ :=
  s.requests.countP fun r => m.InWindow client window r ∧ Passes r

variable (m) in
/-- The requests of a client in a window were counted under one key, and at most one request found
no counter under it. -/
def OneCounter (client : Bytes) (window : ℤ) (s : LimitState) : Prop :=
  ∃ k, (∀ r ∈ s.requests, m.InWindow client window r → IsCounted r → wireKey r = k) ∧
    s.requests.countP (fun r => wireKey r = k ∧ r.fresh = true) ≤ 1

variable (m) in
/-- The limit is not negative, and it is zero, or no more requests than the limit have been counted
in the window, or all of them by one counter. -/
def WithinCounter (client : Bytes) (window : ℤ) (s : LimitState) : Prop :=
  0 ≤ m.rps ∧ (m.rps = 0 ∨ (m.counted client window s : ℤ) ≤ m.rps ∨ m.OneCounter client window s)

theorem countP_values (k : Bytes) (n : ℤ) (requests : List LimitedRequest) :
    (values k requests).countP (· ≤ n) =
      requests.countP fun r => wireKey r = k ∧ ∃ v, r.stage.val? = some v ∧ v ≤ n := by
  rw [values, Multiset.coe_countP, List.countP_filterMap]
  refine List.countP_congr fun r _ => ?_
  by_cases hk : wireKey r = k
  · cases hv : r.stage.val? <;> simp [valueOn, hk, hv]
  · simp [valueOn, hk]

theorem count_one_values {s : LimitState} (h : Counts m s) (k : Bytes) :
    (values k s.requests).count 1 =
      s.requests.countP fun r => wireKey r = k ∧ r.fresh = true := by
  rw [values, Multiset.coe_count, List.count, List.countP_filterMap]
  refine List.countP_congr fun r hr => ?_
  have hfresh := h.fresh r hr
  by_cases hk : wireKey r = k
  · cases hv : r.stage.val? with
    | none => simp [valueOn, hk, hv, hfresh]
    | some v => simp [valueOn, hk, hv, hfresh]
  · simp [valueOn, hk]

/-- A request that has been counted has been given a value. -/
theorem exists_val_of_isCounted {r : LimitedRequest} (h : IsCounted r) :
    ∃ v, r.stage.val? = some v := by
  cases hstage : r.stage with
  | sampled => exact absurd hstage h
  | counted v | passed v | dropped v => exact ⟨v, rfl⟩

theorem mem_values {s : LimitState} {r : LimitedRequest} {v : ℤ} (hr : r ∈ s.requests)
    (hv : r.stage.val? = some v) : v ∈ values (wireKey r) s.requests :=
  List.mem_filterMap.2 ⟨r, hr, by simp [valueOn, hv]⟩

/-- A request that is let through has been counted, and given a value that is not above the
limit. -/
theorem Counts.of_passes {s : LimitState} (h : Counts m s) {r : LimitedRequest}
    (hr : r ∈ s.requests) (hp : Passes r) :
    IsCounted r ∧ ∃ v, r.stage.val? = some v ∧ 1 ≤ v ∧ v ≤ m.rps := by
  obtain ⟨v, hv⟩ := hp
  have hval : r.stage.val? = some v := by rw [hv]; rfl
  refine ⟨by simp [IsCounted, hv], v, hval, ?_, h.passed r hr v hv⟩
  exact (h.issued _).one_le.1 v (mem_values hr hval)

/-- **No more requests are let through than the limit** in a window that is within one counter. -/
theorem passed_le {s : LimitState} (h : Counts m s) {client : Bytes} {window : ℤ}
    (hw : m.WithinCounter client window s) : (m.passed client window s : ℤ) ≤ m.rps := by
  obtain ⟨hrps, hzero | hfew | ⟨k, hkey, honce⟩⟩ := hw
  · have hnone : m.passed client window s = 0 := by
      rw [passed, List.countP_eq_zero]
      intro r hr hp
      obtain ⟨-, v, -, hone, hle⟩ := h.of_passes hr (of_decide_eq_true hp).2
      omega
    omega
  · have hle : m.passed client window s ≤ m.counted client window s := by
      refine List.countP_mono_left fun r hr hp => ?_
      obtain ⟨hin, hp⟩ := of_decide_eq_true hp
      exact decide_eq_true ⟨hin, (h.of_passes hr hp).1⟩
    omega
  · have hle : m.passed client window s ≤ (values k s.requests).countP (· ≤ m.rps) := by
      rw [countP_values]
      refine List.countP_mono_left fun r hr hp => ?_
      obtain ⟨hin, hp⟩ := of_decide_eq_true hp
      obtain ⟨hcounted, v, hv, -, hle⟩ := h.of_passes hr hp
      exact decide_eq_true ⟨hkey r hr hin hcounted, v, hv, hle⟩
    rw [← count_one_values h] at honce
    have hbound := (h.issued k).countP_le honce hrps
    omega

/-! ## Where more are let through -/

/-- **The key tells the client and the second**, if clients are named without null bytes. -/
theorem wireKey_inj {r r' : LimitedRequest} (hr : 0 ∉ r.client) (hr' : 0 ∉ r'.client)
    (h : wireKey r = wireKey r') : r.client = r'.client ∧ r.sec = r'.sec := by
  have hplain : ∀ r : LimitedRequest, 0 ∉ r.client → 0 ∉ rkey r.client r.sec := by
    intro r hr
    have hprefix : 0 ∉ bytes "rl:" := by decide
    have hcolon : 0 ∉ bytes ":" := by decide
    have hsec := not_mem_decimal (b := 0) (by decide) r.sec
    simp [rkey, hprefix, hcolon, hr, hsec]
  rw [wireKey, wireKey, cStr_of_no_null (hplain r hr), cStr_of_no_null (hplain r' hr'), rkey,
    rkey] at h
  -- the last colon is the one behind the client
  have hcut : ∀ r : LimitedRequest,
      Search.breakOn [58] (r.client ++ (bytes ":" ++ decimal r.sec)).reverse =
        some ((decimal r.sec).reverse, r.client.reverse) := by
    intro r
    have hsec := not_mem_decimal (b := 58) (by decide) r.sec
    have hcolon : bytes ":" = [58] := by decide
    rw [hcolon]
    simpa using Search.breakOn_singleton (fun h => hsec (List.mem_reverse.1 h)) r.client.reverse
  have hrest := congrArg List.reverse (List.append_cancel_left h)
  have heq := (hcut r).symm.trans (hrest ▸ hcut r')
  simp only [Option.some.injEq, Prod.mk.injEq, List.reverse_inj] at heq
  refine ⟨heq.2, ?_⟩
  rw [← (digitsVal_decimal r.sec).1, heq.1, (digitsVal_decimal r'.sec).1]

section Decided

variable {s : LimitState} {client : Bytes} {window : ℤ} (h : Counts m s)
  (hplain : ∀ r ∈ s.requests, 0 ∉ r.client)
  (hdecided : ∀ r ∈ s.requests, m.InWindow client window r → ∀ v, r.stage ≠ .counted v)

include h hdecided

/-- A request with a value is let through exactly if that is not above the limit, once all have
been decided on. -/
theorem passes_iff_val_le {r : LimitedRequest} (hr : r ∈ s.requests)
    (hin : m.InWindow client window r) {v : ℤ} (hv : r.stage.val? = some v) :
    Passes r ↔ v ≤ m.rps := by
  cases hstage : r.stage with
  | sampled => rw [hstage] at hv; cases hv
  | counted v' => exact absurd hstage (hdecided r hr hin v')
  | passed v' =>
    rw [hstage] at hv
    obtain rfl := Option.some.inj hv
    exact iff_of_true ⟨v', hstage⟩ (h.passed r hr v' hstage)
  | dropped v' =>
    rw [hstage] at hv
    obtain rfl := Option.some.inj hv
    refine iff_of_false ?_ (not_le.2 (h.dropped r hr v' hstage))
    rintro ⟨v, hv⟩
    rw [hstage] at hv
    cases hv

include hplain

/-- A request under the key of a request in the window is in the window, too, and is let through
if its value is not above the limit. -/
theorem passes_of_wireKey_eq {r r' : LimitedRequest} (hr : r ∈ s.requests)
    (hin : m.InWindow client window r) (hr' : r' ∈ s.requests) (hkey : wireKey r' = wireKey r)
    {v : ℤ} (hv : r'.stage.val? = some v) (hle : v ≤ m.rps) :
    m.InWindow client window r' ∧ Passes r' := by
  obtain ⟨hclient, hsec⟩ := wireKey_inj (hplain r' hr') (hplain r hr) hkey
  have hin' : m.InWindow client window r' := ⟨hclient.trans hin.1, by rw [hsec]; exact hin.2⟩
  exact ⟨hin', (passes_iff_val_le h hdecided hr' hin' hv).2 hle⟩

/-- As many requests under the key of a request in the window are let through as values on it are
not above the limit. -/
theorem countP_values_le {r : LimitedRequest} (hr : r ∈ s.requests)
    (hin : m.InWindow client window r) :
    (values (wireKey r) s.requests).countP (· ≤ m.rps) ≤
      (s.requests.filter fun r' => wireKey r' = wireKey r).countP fun r' =>
        m.InWindow client window r' ∧ Passes r' := by
  rw [countP_values, List.countP_filter]
  refine List.countP_mono_left fun r' hr' hp => ?_
  obtain ⟨hkey, v, hv, hle⟩ := of_decide_eq_true hp
  simp [hkey, passes_of_wireKey_eq h hplain hdecided hr hin hr' hkey hv hle]

/-- A request in the window that is counted under another key comes with one under that key that is
let through: the first one. -/
theorem countP_other_key_pos (hrps : 1 ≤ m.rps) (k : Bytes) {r : LimitedRequest}
    (hr : r ∈ s.requests) (hin : m.InWindow client window r) (hcounted : IsCounted r)
    (hkey : wireKey r ≠ k) :
    0 < (s.requests.filter fun r' => !decide (wireKey r' = k)).countP fun r' =>
      m.InWindow client window r' ∧ Passes r' := by
  obtain ⟨v, hv⟩ := exists_val_of_isCounted hcounted
  have hfirst := (h.issued (wireKey r)).one_mem (mem_values hr hv)
  obtain ⟨r₁, hr₁, hvalue⟩ := List.mem_filterMap.1 hfirst
  obtain ⟨hkey₁, hone⟩ := Option.ite_none_right_eq_some.1 hvalue
  have hpasses := passes_of_wireKey_eq h hplain hdecided hr hin hr₁ hkey₁ hone hrps
  refine List.countP_pos_iff.2 ⟨r₁, List.mem_filter.2 ⟨hr₁, ?_⟩, decide_eq_true hpasses⟩
  simp [hkey₁, hkey]

/-- **More are let through** in a window that is not within one counter, when all its requests have
been decided on. -/
theorem withinCounter_of_passed_le (hle : (m.passed client window s : ℤ) ≤ m.rps) :
    m.WithinCounter client window s := by
  refine ⟨by omega, ?_⟩
  by_cases hzero : m.rps = 0
  · exact .inl hzero
  refine .inr ?_
  by_cases hall : ∀ r ∈ s.requests, m.InWindow client window r → IsCounted r → Passes r
  · have hcounted : m.counted client window s ≤ m.passed client window s := by
      refine List.countP_mono_left fun r hr hp => ?_
      obtain ⟨hin, hp⟩ := of_decide_eq_true hp
      exact decide_eq_true ⟨hin, hall r hr hin hp⟩
    exact .inl (by omega)
  refine .inr ?_
  push Not at hall
  obtain ⟨r, hr, hin, hcounted, hnot⟩ := hall
  obtain ⟨v, hv⟩ := exists_val_of_isCounted hcounted
  have hlt : m.rps < v := not_le.1 fun hle => hnot ((passes_iff_val_le h hdecided hr hin hv).2 hle)
  have hmem := mem_values hr hv
  have hissued := h.issued (wireKey r)
  -- the counter of a request that is turned down has let through as many as the limit
  have hfull := hissued.le_countP hmem (by omega : 1 ≤ m.rps) hlt.le
  have hunder := countP_values_le h hplain hdecided hr hin
  have hbegun := Multiset.one_le_count_iff_mem.2 (hissued.one_mem hmem)
  have hsplit := List.countP_eq_countP_filter_add s.requests
    (fun r' => m.InWindow client window r' ∧ Passes r') fun r' => wireKey r' = wireKey r
  rw [← passed.eq_def] at hsplit
  refine ⟨wireKey r, fun r' hr' hin' hcounted' => ?_, ?_⟩
  · by_contra hkey
    have hother := countP_other_key_pos h hplain hdecided (by omega) (wireKey r) hr' hin'
      hcounted' hkey
    omega
  · rw [← count_one_values h]
    omega

end Decided

/-- **In which windows no more requests are let through than the limit**: in those that are within
one counter; and if clients are named without null bytes, in no others once all requests have been
decided on. -/
theorem passed_le_iff {s : LimitState} (h : Reaches m.system Always s) (client : Bytes)
    (window : ℤ) :
    (m.WithinCounter client window s → (m.passed client window s : ℤ) ≤ m.rps) ∧
      ((∀ r ∈ s.requests, 0 ∉ r.client) →
        (∀ r ∈ s.requests, m.InWindow client window r → ∀ v, r.stage ≠ .counted v) →
        ((m.passed client window s : ℤ) ≤ m.rps ↔ m.WithinCounter client window s)) := by
  have hcounts := counts_of_reaches h
  exact ⟨passed_le hcounts, fun hplain hdecided =>
    ⟨withinCounter_of_passed_le hcounts hplain hdecided, passed_le hcounts⟩⟩

/-- One request in a window of two seconds may pass. -/
def onePerTwo : RateLimitRedis := ⟨1, 2, true⟩

/-- Two requests of one client, in the two seconds of a window. -/
def twoSeconds : List LimitEvent :=
  [.arrive HttpRequest.new, .step 0, .step 0, .tick 1, .arrive HttpRequest.new, .step 1, .step 1]

theorem reaches_foldl {s : LimitState} (h : Reaches m.system Always s) (es : List LimitEvent) :
    Reaches m.system Always (es.foldl m.next s) := by
  induction es generalizing s with
  | nil => exact h
  | cons e es ih => exact ih (.step h trivial rfl)

/-- Three requests of one client in one second, the steps of one among those of the others. -/
def oneSecond : List LimitEvent :=
  [.arrive HttpRequest.new, .arrive HttpRequest.new, .step 0, .step 1, .step 1,
    .arrive HttpRequest.new, .step 0, .step 2, .step 2]

theorem passed_le_iff_oneSecond :
    let s := oneSecond.foldl onePerTwo.next ⟨TtlMap.empty 0, []⟩
    onePerTwo.counted (bytes "global") 0 s = 3 ∧ onePerTwo.OneCounter (bytes "global") 0 s ∧
      (onePerTwo.passed (bytes "global") 0 s : ℤ) ≤ 1 ∧
      ((onePerTwo.passed (bytes "global") 0 s : ℤ) ≤ 1 ↔
        onePerTwo.WithinCounter (bytes "global") 0 s) := by
  intro s
  have hrequests : s.requests = [⟨bytes "global", 0, .passed 1, true⟩,
      ⟨bytes "global", 0, .dropped 2, false⟩, ⟨bytes "global", 0, .dropped 3, false⟩] := by
    decide +kernel
  have hone : onePerTwo.OneCounter (bytes "global") 0 s := by
    refine ⟨rkey (bytes "global") 0, fun r hr _ _ => ?_, by decide +kernel⟩
    exact (by decide +kernel : ∀ r ∈ s.requests, wireKey r = rkey (bytes "global") 0) r hr
  obtain ⟨hle, hiff⟩ := passed_le_iff (reaches_foldl (.init ⟨0, rfl⟩) oneSecond) (bytes "global") 0
  exact ⟨by decide +kernel, hone, hle ⟨by decide, .inr (.inr hone)⟩,
    hiff (by decide +kernel) (by simp [s, hrequests])⟩

/-- **The two requests are both let through**, as each second has a counter of its own. -/
theorem twoSeconds_passed :
    ∃ s, Reaches onePerTwo.system Always s ∧ onePerTwo.passed (bytes "global") 0 s = 2 ∧
      ¬ (onePerTwo.passed (bytes "global") 0 s : ℤ) ≤ onePerTwo.rps := by
  refine ⟨twoSeconds.foldl onePerTwo.next ⟨TtlMap.empty 0, []⟩, reaches_foldl (.init ⟨0, rfl⟩) _,
    by decide +kernel, by decide +kernel⟩

end RateLimitRedis

end KamaHttp
