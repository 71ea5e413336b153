import KamaHttp.App.RedisServer

/-!
# Redis behind connections that break

The client on a network on which a connection may break at any point of a command: before the
command is sent, after it is sent, or after the server executed it and before the reply arrives. The
client sends a command once more when it has no reply. The server keeps an account of the commands
it executes for the client.

* `performed_cmd`: what the server executes for a command are the attempts whose reply is lost, and
  the one whose reply the client returns.
* `cmd_reported_iff`: a command is executed at most once, and its outcome reported, exactly if no
  reply is lost.
* `setNX_unambiguous_iff`: when the answer of `setNX` says whether it wrote.
-/

namespace KamaHttp

/-- How an attempt to perform a command on a connection ends. -/
inductive Fate
  /-- The connection breaks before the command is sent. -/
  | unsent
  /-- The connection breaks when it is sent, and the server does not execute it. -/
  | unexecuted
  /-- The server executes it, and the connection breaks before the reply arrives. -/
  | unanswered
  /-- The server executes it, and the reply arrives. -/
  | answered
  deriving DecidableEq

/-- The server executes the command. -/
def Fate.executes : Fate → Bool
  | .unanswered => true
  | .answered => true
  | _ => false

/-- A server behind connections that break, with all that will happen on them. -/
structure RedisNetwork where
  data : RedisData
  /-- What the next attempts to open a connection return. -/
  opens : ℕ → Option RedisContext
  /-- How the next commands fare. -/
  fates : ℕ → Fate
  /-- What other clients and the time make of the data before each of the next commands. -/
  outside : ℕ → RedisData → RedisData
  /-- The connection is gone, and was not opened again. -/
  broken : Bool
  /-- The commands of this client that were executed, with the replies of the server. -/
  executed : List (List Bytes × RedisReply)

namespace RedisNetwork

def connect (n : RedisNetwork) : RedisNetwork :=
  { n with opens := fun i => n.opens (i + 1), broken := false }

/-- How the next command fares on a connection; on one that is gone, or was never there, it is not
sent. -/
def fate (n : RedisNetwork) (ctx : RedisContext) : Fate :=
  if ctx.err ≠ 0 ∨ n.broken then .unsent else n.fates 0

/-- The data that the next command finds. -/
def found (n : RedisNetwork) : RedisData := n.outside 0 n.data

/-- The network behind a command. -/
def behind (n : RedisNetwork) (args : List Bytes) (f : Fate) : RedisNetwork :=
  { n with
    data := if f.executes then (RedisServer.exec args n.found).2 else n.found
    fates := fun i => n.fates (i + 1)
    outside := fun i => n.outside (i + 1)
    broken := f ≠ .answered
    executed :=
      if f.executes then n.executed ++ [(args, (RedisServer.exec args n.found).1)] else n.executed }

end RedisNetwork

/-- The library on the network. -/
def lossy : Hiredis RedisNetwork where
  connectWithTimeout _ _ _ _ n := (n.opens 0, n.connect)
  command ctx args n :=
    (if n.fate ctx = .answered then some (RedisServer.exec args n.found).1 else none,
      n.behind args (n.fate ctx))
  free _ n := n

/-! ## Attempts -/

/-- An attempt to perform a command: no connection can be opened, or it fares in some way and would
find some data. -/
inductive Attempt
  | unopened
  | made (fate : Fate) (found : RedisData)

namespace RedisNetwork

/-- The attempt on a new connection. -/
def second (n : RedisNetwork) : List Attempt :=
  match n.opens 0 with
  | none => [.unopened]
  | some ctx =>
    if ctx.err ≠ 0 then [.unopened] else [.made (n.connect.fate ctx) n.connect.found]

/-- The attempt on a connection, and the one behind it if there is no reply. -/
def first (n : RedisNetwork) (args : List Bytes) (ctx : RedisContext) : List Attempt :=
  .made (n.fate ctx) n.found ::
    if n.fate ctx = .answered then [] else (n.behind args (n.fate ctx)).second

end RedisNetwork

/-- The attempts that are made for a command. -/
def attempts (args : List Bytes) (s : RedisConn RedisNetwork) : List Attempt :=
  match s.ctx with
  | some ctx => s.env.first args ctx
  | none =>
    match s.env.opens 0 with
    | none => [.unopened]
    | some ctx => if ctx.err ≠ 0 then [.unopened] else s.env.connect.first args ctx

/-- What the server executes at an attempt whose reply is lost. -/
def Attempt.lost (args : List Bytes) : Attempt → Option (List Bytes × RedisReply)
  | .made .unanswered found => some (args, (RedisServer.exec args found).1)
  | _ => none

/-- The execution that the outcome of a command speaks of. -/
def reported (args : List Bytes) :
    Except StdException (Option RedisReply) → List (List Bytes × RedisReply)
  | .ok (some r) => [(args, r)]
  | _ => []

/-- What a command that was sent comes to, given the attempts for it: what the server executed
besides what it had, the exception if no connection could be opened, and the reply if one
arrived. -/
structure Performed (args : List Bytes) (before : List (List Bytes × RedisReply))
    (as : List Attempt) (x : Except StdException (Option RedisReply) × RedisConn RedisNetwork) :
    Prop where
  executed : x.2.env.executed = before ++ as.filterMap (Attempt.lost args) ++ reported args x.1
  raises_iff : Raises x.1 ↔ .unopened ∈ as
  reply_iff : ∀ r, x.1 = .ok (some r) ↔
    ∃ found, .made .answered found ∈ as ∧ (RedisServer.exec args found).1 = r

/-- An attempt without a reply before the others. -/
theorem Performed.cons {args : List Bytes} {before : List (List Bytes × RedisReply)}
    {as : List Attempt} {x : Except StdException (Option RedisReply) × RedisConn RedisNetwork}
    {f : Fate} {found : RedisData} (hf : f ≠ .answered)
    (h : Performed args (before ++ ((Attempt.made f found).lost args).toList) as x) :
    Performed args before (.made f found :: as) x where
  executed := by
    rw [h.executed]
    cases f <;> simp [Attempt.lost, List.filterMap_cons]
  raises_iff := by simp [h.raises_iff]
  reply_iff r := by
    rw [h.reply_iff]
    simp [Ne.symm hf]

/-- What is executed of a command whose reply does not arrive. -/
theorem RedisNetwork.executed_behind (n : RedisNetwork) (args : List Bytes) {f : Fate}
    (hf : f ≠ .answered) :
    (n.behind args f).executed = n.executed ++ ((Attempt.made f n.found).lost args).toList := by
  cases f <;> simp_all [RedisNetwork.behind, Fate.executes, Attempt.lost]

namespace RedisClient

variable {c : RedisClient} {args : List Bytes} {before : List (List Bytes × RedisReply)}

/-- The attempt on a connection of which the reply is returned, whatever it is. -/
theorem performed_command (ctx : RedisContext) (n : RedisNetwork) (ctx' : Option RedisContext) :
    Performed args n.executed [.made (n.fate ctx) n.found]
      (.ok (lossy.command ctx args n).1, ⟨ctx', (lossy.command ctx args n).2⟩) := by
  cases hf : n.fate ctx <;>
    constructor <;>
    simp [lossy, hf, RedisNetwork.behind, Fate.executes, Attempt.lost, reported, not_raises_ok]

/-- The attempt on a new connection. -/
theorem performed_second (c : RedisClient) (args : List Bytes) (n : RedisNetwork) :
    Performed args n.executed n.second
      (match get lossy c ⟨none, n⟩ with
        | (.error e, s) => (.error e, s)
        | (.ok ctx, s) =>
          (.ok (lossy.command ctx args s.env).1,
            { s with env := (lossy.command ctx args s.env).2 })) := by
  have hconnect : lossy.connectWithTimeout c.host c.port c.sec c.usec n = (n.opens 0, n.connect) :=
    rfl
  simp only [get, hconnect, RedisNetwork.second]
  rcases n.opens 0 with _ | ctx
  · constructor <;> simp [RedisNetwork.connect, Attempt.lost, reported, raises_error]
  · by_cases herr : ctx.err = 0
    · simp only [herr, ne_eq, not_true_eq_false, if_false]
      exact performed_command ctx n.connect (some ctx)
    · constructor <;> simp [herr, RedisNetwork.connect, Attempt.lost, reported, raises_error]

/-- The attempts on a connection, with the one behind. -/
theorem performed_first {n : RedisNetwork} {ctx : RedisContext}
    (hn : before = n.executed) :
    Performed args before (n.first args ctx) (cmd lossy c args ⟨some ctx, n⟩) := by
  have hsecond := performed_second c args (n.behind args (n.fate ctx))
  have hcommand : lossy.command ctx args n =
    (if n.fate ctx = .answered then some (RedisServer.exec args n.found).1 else none,
      n.behind args (n.fate ctx)) := rfl
  have hget : get lossy c ⟨some ctx, n⟩ = (.ok ctx, ⟨some ctx, n⟩) := rfl
  subst hn
  simp only [cmd, hget, hcommand, RedisNetwork.first]
  by_cases hf : n.fate ctx = .answered
  · simp only [hf, if_true]
    constructor <;> simp [Attempt.lost, reported, RedisNetwork.behind, Fate.executes, not_raises_ok]
  · rw [RedisNetwork.executed_behind n args hf] at hsecond
    have hfree : lossy.free ctx (n.behind args (n.fate ctx)) = n.behind args (n.fate ctx) := rfl
    simp only [if_neg hf, hfree]
    rcases hg : get lossy c ⟨none, n.behind args (n.fate ctx)⟩ with ⟨e | ctx', s⟩
    · simp only [hg] at hsecond
      exact hsecond.cons hf
    · simp only [hg] at hsecond
      exact hsecond.cons hf

/-- **What a command comes to**, given the attempts that are made for it. -/
theorem performed_cmd (c : RedisClient) (args : List Bytes) (s : RedisConn RedisNetwork) :
    Performed args s.env.executed (attempts args s) (cmd lossy c args s) := by
  obtain ⟨_ | ctx, n⟩ := s
  · have hconnect : lossy.connectWithTimeout c.host c.port c.sec c.usec n =
      (n.opens 0, n.connect) := rfl
    rcases hopen : n.opens 0 with _ | ctx
    · simp only [attempts, hopen, cmd, get, hconnect]
      constructor <;> simp [RedisNetwork.connect, Attempt.lost, reported, raises_error]
    · by_cases herr : ctx.err = 0
      · have hget : cmd lossy c args ⟨none, n⟩ = cmd lossy c args ⟨some ctx, n.connect⟩ := by
          simp [cmd, get, hconnect, hopen, herr]
        simp only [attempts, hopen, herr, ne_eq, not_true_eq_false, if_false, hget]
        exact performed_first rfl
      · simp only [attempts, hopen, herr, cmd, get, hconnect, ne_eq, not_false_eq_true, if_true]
        constructor <;> simp [RedisNetwork.connect, Attempt.lost, reported, raises_error]
  · exact performed_first rfl

variable (c args)

/-- The server executes the command at most once, and the outcome is that of the execution: its
reply if there was one, and no reply or an exception if there was none. -/
def Reports (s : RedisConn RedisNetwork) : Prop :=
  (cmd lossy c args s).2.env.executed = s.env.executed ++ reported args (cmd lossy c args s).1

variable {c args}

/-- **A command is executed at most once, and its outcome reported, exactly if no reply is
lost.** -/
theorem cmd_reported_iff {s : RedisConn RedisNetwork} :
    Reports c args s ↔ ∀ found, .made .unanswered found ∉ attempts args s := by
  have hlost : (attempts args s).filterMap (Attempt.lost args) = [] ↔
      ∀ found, .made .unanswered found ∉ attempts args s := by
    rw [List.filterMap_eq_nil_iff]
    constructor
    · intro h found hmem
      cases h _ hmem
    · rintro h (_ | ⟨_ | _ | _ | _, found⟩) hmem
      · rfl
      · rfl
      · rfl
      · exact absurd hmem (h found)
      · rfl
  rw [Reports, (performed_cmd c args s).executed, ← hlost]
  simp

end RedisClient

/-! ## What `setNX` answers -/

namespace RedisStore

open RedisClient RedisServer

variable (c : RedisClient) (keyPrefix key value : Bytes) (ttlSec : ℤ)

/-- The arguments of the command of `setNX`. -/
abbrev setNXArgs : List Bytes := (setNXCommand keyPrefix key value ttlSec).map (·.arg)

/-- An execution of the command stores the value. -/
def Free (found : RedisData) : Prop := 0 < ttlSec ∧ found.get (wireKey keyPrefix key) = none

/-- Among the commands behind others there is one by which the server stored the value. -/
def Wrote (before after : List (List Bytes × RedisReply)) : Prop :=
  ∃ log, after = before ++ log ∧ ∃ e ∈ log, stored (some e.2)

/-- `setNX` says whether it wrote: where it returns false, no execution of its command stored the
value, and where it returns true, one did. -/
def Unambiguous (s : RedisConn RedisNetwork) : Prop :=
  let r := (redisStore keyPrefix (c.cmd lossy)).setNX key value ttlSec s
  (r.1 = .ok false → ¬ Wrote s.env.executed r.2.env.executed) ∧
    (r.1 = .ok true → Wrote s.env.executed r.2.env.executed)

/-- If the reply to an attempt that stores the value is lost, then the call throws, as no connection
can be opened for the next attempt, or the next attempt stores the value again and is answered. -/
def Recovers (s : RedisConn RedisNetwork) : Prop :=
  (∃ found, .made .unanswered found ∈ attempts (setNXArgs keyPrefix key value ttlSec) s ∧
      Free keyPrefix key ttlSec found) →
    .unopened ∈ attempts (setNXArgs keyPrefix key value ttlSec) s ∨
      ∃ found, .made .answered found ∈ attempts (setNXArgs keyPrefix key value ttlSec) s ∧
        Free keyPrefix key ttlSec found

variable {c keyPrefix key value ttlSec} {s : RedisConn RedisNetwork}

/-- The server says `OK` exactly where it stores the value. -/
theorem stored_exec_iff (found : RedisData) :
    stored (some (RedisServer.exec (setNXArgs keyPrefix key value ttlSec) found).1) ↔
      Free keyPrefix key ttlSec found := by
  have hargs : setNXArgs keyPrefix key value ttlSec = bytes "SET" :: wireKey keyPrefix key ::
    value :: bytes "NX" :: (expiryOption ttlSec).map (·.arg) := rfl
  rw [hargs, exec_set, setOptions_nx, Free]
  by_cases hpos : 0 < ttlSec
  · rw [setOptions_expiry hpos]
    cases hget : found.get (wireKey keyPrefix key) <;>
      simp [TtlMap.setNX, hget, stored, hpos]
  · rw [setOptions_no_expiry hpos]
    simp [stored, hpos]

theorem setNX_fst :
    ((redisStore keyPrefix (c.cmd lossy)).setNX key value ttlSec s).1 =
      (cmd lossy c (setNXArgs keyPrefix key value ttlSec) s).1.map stored := rfl

/-- `setNX` returns true exactly if an attempt stores the value and is answered. -/
theorem setNX_true_iff :
    ((redisStore keyPrefix (c.cmd lossy)).setNX key value ttlSec s).1 = .ok true ↔
      ∃ found, .made .answered found ∈ attempts (setNXArgs keyPrefix key value ttlSec) s ∧
        Free keyPrefix key ttlSec found := by
  have h := (performed_cmd c (setNXArgs keyPrefix key value ttlSec) s).reply_iff
  rw [setNX_fst]
  constructor
  · intro htrue
    rcases hcmd : (cmd lossy c (setNXArgs keyPrefix key value ttlSec) s).1 with e | _ | r
    · simp [hcmd, Except.map] at htrue
    · simp [hcmd, Except.map, stored] at htrue
    · obtain ⟨found, hmem, rfl⟩ := (h r).1 hcmd
      rw [hcmd] at htrue
      exact ⟨found, hmem, (stored_exec_iff found).1 (Except.ok.inj htrue)⟩
  · rintro ⟨found, hmem, hfree⟩
    rw [(h _).2 ⟨found, hmem, rfl⟩]
    exact congrArg Except.ok ((stored_exec_iff found).2 hfree)

theorem wrote_append {before log : List (List Bytes × RedisReply)} :
    Wrote before (before ++ log) ↔ ∃ e ∈ log, stored (some e.2) := by
  constructor
  · rintro ⟨log', heq, h⟩
    rwa [List.append_cancel_left heq]
  · exact fun h => ⟨log, rfl, h⟩

/-- An attempt that stored the value and whose reply was lost. -/
theorem exists_lost_iff {as : List Attempt} :
    (∃ e ∈ as.filterMap (Attempt.lost (setNXArgs keyPrefix key value ttlSec)),
        stored (some e.2)) ↔
      ∃ found, .made .unanswered found ∈ as ∧ Free keyPrefix key ttlSec found := by
  constructor
  · rintro ⟨e, he, hstored⟩
    obtain ⟨a, ha, hlost⟩ := List.mem_filterMap.1 he
    rcases a with _ | ⟨_ | _ | _ | _, found⟩ <;> cases hlost
    exact ⟨found, ha, (stored_exec_iff found).1 hstored⟩
  · rintro ⟨found, hmem, hfree⟩
    exact ⟨_, List.mem_filterMap.2 ⟨_, hmem, rfl⟩, (stored_exec_iff found).2 hfree⟩

/-- What `setNX` wrote: an attempt stored the value, and its reply was lost or arrived. -/
theorem wrote_iff :
    Wrote s.env.executed
        ((redisStore keyPrefix (c.cmd lossy)).setNX key value ttlSec s).2.env.executed ↔
      (∃ found, .made .unanswered found ∈ attempts (setNXArgs keyPrefix key value ttlSec) s ∧
        Free keyPrefix key ttlSec found) ∨
      ((redisStore keyPrefix (c.cmd lossy)).setNX key value ttlSec s).1 = .ok true := by
  have hexecuted := (performed_cmd c (setNXArgs keyPrefix key value ttlSec) s).executed
  rw [List.append_assoc] at hexecuted
  change Wrote s.env.executed
    (cmd lossy c (setNXArgs keyPrefix key value ttlSec) s).2.env.executed ↔ _
  rw [hexecuted, wrote_append, setNX_fst, ← exists_lost_iff]
  simp only [List.mem_append, or_and_right, exists_or]
  refine or_congr Iff.rfl ?_
  rcases (cmd lossy c (setNXArgs keyPrefix key value ttlSec) s).1 with e | _ | r
  · simp [reported, Except.map]
  · simp [reported, Except.map, stored]
  · simp [reported, Except.map]

/-- `setNX` returns false exactly if it neither throws nor returns true. -/
theorem setNX_false_iff :
    ((redisStore keyPrefix (c.cmd lossy)).setNX key value ttlSec s).1 = .ok false ↔
      .unopened ∉ attempts (setNXArgs keyPrefix key value ttlSec) s ∧
      ((redisStore keyPrefix (c.cmd lossy)).setNX key value ttlSec s).1 ≠ .ok true := by
  have h := (performed_cmd c (setNXArgs keyPrefix key value ttlSec) s).raises_iff
  rw [setNX_fst, ← h]
  rcases (cmd lossy c (setNXArgs keyPrefix key value ttlSec) s).1 with e | r
  · simp [Except.map, raises_error]
  · cases hr : stored r <;> simp [Except.map, not_raises_ok, hr]

/-- **The answer of `setNX` says whether it wrote exactly if no attempt that stores the value loses
its reply**, or the call recovers from that. -/
theorem setNX_unambiguous_iff :
    Unambiguous c keyPrefix key value ttlSec s ↔ Recovers keyPrefix key value ttlSec s := by
  rw [Unambiguous, Recovers, wrote_iff, setNX_false_iff, ← setNX_true_iff (c := c)]
  constructor
  · rintro ⟨hfalse, -⟩ hlost
    by_contra hnot
    exact hfalse (not_or.1 hnot) (.inl hlost)
  · intro h
    refine ⟨fun ⟨hopen, hne⟩ hwrote => ?_, .inr⟩
    exact hwrote.elim (fun hlost => (h hlost).elim hopen hne) hne

/-! ## Runs -/

variable (c keyPrefix)

/-- The runs of the store on the network. -/
def lossyExec : Machine StoreOp (RedisConn RedisNetwork) (Except StdException StoreReply) :=
  (redisStore keyPrefix (c.cmd lossy)).exec fun seconds s =>
    { s with env.data := s.env.data.tick seconds }

/-- The arguments of the command of an operation. -/
def commandOf : StoreOp → Option (List Bytes)
  | .get key => some ((getCommand keyPrefix key).map (·.arg))
  | .setNX key value ttlSec => some (setNXArgs keyPrefix key value ttlSec)
  | .set key value ttlSec => some ((setCommand keyPrefix key value ttlSec).map (·.arg))
  | .del key => some ((delCommand keyPrefix key).map (·.arg))
  | .tick _ => none

/-- **When nothing is ambiguous.** In every run of the store, on every network: every `setNX` says
whether it wrote, exactly if every `setNX` whose reply is lost where it stores the value recovers
from that; and every command is executed at most once, with its outcome reported, exactly if no
reply to a command that was executed is lost. -/
theorem unambiguous_iff (calls : List StoreOp) (s : RedisConn RedisNetwork) :
    (Along (fun before op => ∀ key value ttlSec, op = .setNX key value ttlSec →
          Unambiguous c keyPrefix key value ttlSec ((lossyExec c keyPrefix).run before s)) calls ↔
        Along (fun before op => ∀ key value ttlSec, op = .setNX key value ttlSec →
          Recovers keyPrefix key value ttlSec ((lossyExec c keyPrefix).run before s)) calls) ∧
      (Along (fun before op => ∀ args ∈ commandOf keyPrefix op,
          Reports c args ((lossyExec c keyPrefix).run before s)) calls ↔
        Along (fun before op => ∀ args ∈ commandOf keyPrefix op,
          ∀ found, .made .unanswered found ∉
            attempts args ((lossyExec c keyPrefix).run before s)) calls) := by
  simp only [setNX_unambiguous_iff, cmd_reported_iff, and_self]

/-- A network on which the reply to the first command is lost, and that to the second arrives. -/
def forgetful : RedisNetwork where
  data := .empty 0
  opens _ := some ⟨0, []⟩
  fates n := if n = 0 then .unanswered else .answered
  outside _ db := db
  broken := false
  executed := []

/-- The first command is executed and its reply lost. It is sent again, finds what it has written
itself, and `setNX` returns false. -/
theorem written_and_refused :
    let c := RedisClient.new (bytes "127.0.0.1") 6379 200
    let store := redisStore (bytes "short:") (c.cmd lossy)
    let r := store.setNX (bytes "a") (bytes "u") 10 ⟨none, forgetful⟩
    r.1 = .ok false ∧ Wrote forgetful.executed r.2.env.executed ∧
      forgetful.data.get (bytes "short:a") = none ∧
      r.2.env.data.get (bytes "short:a") = some (bytes "u") ∧
      r.2.env.executed.map Prod.snd = [.status (bytes "OK"), .nil] := by
  intro c store r
  refine ⟨by decide +kernel, ⟨r.2.env.executed, rfl, ?_⟩, by decide +kernel, by decide +kernel,
    by decide +kernel⟩
  exact ⟨(setNXArgs (bytes "short:") (bytes "a") (bytes "u") 10, .status (bytes "OK")),
    by decide +kernel, by decide +kernel⟩

end RedisStore

end KamaHttp
