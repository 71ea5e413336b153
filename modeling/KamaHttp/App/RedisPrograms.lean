import KamaHttp.App.RedisLoss
import KamaHttp.App.StorePrograms

/-!
# Redis, call by call

What `RedisClient::cmd` and the operations of `RedisStore` do, as programs that call the library.
Run alone, on any library, they do what the functions do; so do the handlers on them.

* `run_cmdProgram`, `run_program`: the programs, run alone.
* `keeps_cmdProgram`: what a command keeps to, and what its reply comes from.
* `keeps_redisTask`: what commands the handlers send, and what their answers come from.
-/

namespace KamaHttp

open RedisClient RedisStore

/-- The calls of the library. -/
inductive RedisCall
  | connect
  | command (ctx : RedisContext) (args : List Bytes)
  | free (ctx : RedisContext)

/-- What a call returns. -/
def RedisCall.Returned : RedisCall → Type
  | .connect => Option RedisContext
  | .command _ _ => Option RedisReply
  | .free _ => Unit

/-- What a library makes of a call of the client. -/
def Hiredis.answer {ρ : Type*} (H : Hiredis ρ) (c : RedisClient) :
    (x : RedisCall) → ρ → x.Returned × ρ
  | .connect, env => H.connectWithTimeout c.host c.port c.sec c.usec env
  | .command ctx args, env => H.command ctx args env
  | .free ctx, env => ((), H.free ctx env)

/-- A program that calls the library. -/
abbrev RedisProgram (α : Type*) := Interaction RedisCall RedisCall.Returned α

/-! ## The client -/

/-- `get`, with the connection of the thread. -/
def getProgram : Option RedisContext →
    RedisProgram (Except StdException RedisContext × Option RedisContext)
  | some ctx => .done (.ok ctx, some ctx)
  | none => .call .connect fun
    | none => .done (.error (.runtimeError (bytes "redis connect failed: no ctx")), none)
    | some ctx =>
      if ctx.err ≠ 0 then
        .done (.error (.runtimeError (bytes "redis connect failed: " ++ ctx.errstr)), some ctx)
      else .done (.ok ctx, some ctx)

/-- `cmd`, behind the second `get`. -/
def againProgram (args : List Bytes) :
    Except StdException RedisContext × Option RedisContext →
    RedisProgram (Except StdException (Option RedisReply) × Option RedisContext)
  | (.error e, ctx) => .done (.error e, ctx)
  | (.ok x, ctx) => .call (.command x args) fun r => .done (.ok r, ctx)

/-- `cmd`, behind the first `get`. -/
def onceProgram (args : List Bytes) :
    Except StdException RedisContext × Option RedisContext →
    RedisProgram (Except StdException (Option RedisReply) × Option RedisContext)
  | (.error e, ctx) => .done (.error e, ctx)
  | (.ok x, ctx) => .call (.command x args) fun
    | some r => .done (.ok (some r), ctx)
    | none => .call (.free x) fun _ => (getProgram none).bind (againProgram args)

def cmdProgram (args : List Bytes) (ctx : Option RedisContext) :
    RedisProgram (Except StdException (Option RedisReply) × Option RedisContext) :=
  (getProgram ctx).bind (onceProgram args)

section Client

variable {ρ : Type*} (H : Hiredis ρ) (c : RedisClient)

/-- The connection of the thread, and what is outside. -/
def connEquiv (ρ : Type*) : Option RedisContext × ρ ≃ RedisConn ρ where
  toFun s := ⟨s.1, s.2⟩
  invFun s := (s.ctx, s.env)
  left_inv _ := rfl
  right_inv _ := rfl

theorem run_getProgram (s : RedisConn ρ) :
    (getProgram s.ctx).run (H.answer c) s.env = alone (connEquiv ρ) (RedisClient.get H c s) := by
  obtain ⟨_ | ctx, env⟩ := s
  · rcases hc : H.connectWithTimeout c.host c.port c.sec c.usec env with ⟨_ | ctx, env'⟩
    · simp [getProgram, Interaction.run, Hiredis.answer, RedisClient.get, hc, alone, connEquiv]
    · by_cases herr : ctx.err = 0
      · simp [getProgram, Interaction.run, Hiredis.answer, RedisClient.get, hc, alone, connEquiv,
          herr]
      · simp [getProgram, Interaction.run, Hiredis.answer, RedisClient.get, hc, alone, connEquiv,
          herr]
  · rfl

/-- **`cmd`, run alone.** -/
theorem run_cmdProgram (args : List Bytes) (s : RedisConn ρ) :
    (cmdProgram args s.ctx).run (H.answer c) s.env = alone (connEquiv ρ) (cmd H c args s) := by
  rw [cmdProgram, Interaction.run_bind, run_getProgram, cmd]
  rcases hget : RedisClient.get H c s with ⟨e | ctx, s₁⟩
  · rfl
  · rcases hcmd : H.command ctx args s₁.env with ⟨_ | r, env⟩
    · have hagain := run_getProgram H c ⟨none, H.free ctx env⟩
      simp only [alone, connEquiv, Equiv.coe_fn_symm_mk, onceProgram, Interaction.run,
        Hiredis.answer, hcmd, Interaction.run_bind]
      dsimp only at hagain
      rw [hagain]
      rcases RedisClient.get H c ⟨none, H.free ctx env⟩ with ⟨e | ctx₂, s₂⟩
      · rfl
      · rfl
    · simp only [alone, connEquiv, Equiv.coe_fn_symm_mk, onceProgram, Interaction.run,
        Hiredis.answer, hcmd]

end Client

/-! ## The store -/

section Store

variable (keyPrefix : Bytes)

/-- The arguments of the command of `get`. -/
abbrev RedisStore.getArgs (key : Bytes) : List Bytes := (getCommand keyPrefix key).map (·.arg)

/-- `RedisStore`. -/
def redisProgram : StoreProgram RedisCall RedisCall.Returned (Option RedisContext) where
  get key ctx := (cmdProgram (getArgs keyPrefix key) ctx).bind fun r => .done (r.1.map found, r.2)
  setNX key value ttlSec ctx :=
    (cmdProgram (setNXArgs keyPrefix key value ttlSec) ctx).bind fun r =>
      .done (r.1.map stored, r.2)

/-- A request that reaches a handler, with the connection of the thread. -/
abbrev RedisTask := HandlerTask (Option RedisContext)

variable {ρ : Type*} (H : Hiredis ρ) (c : RedisClient)

theorem implements_redisProgram :
    Implements (redisProgram keyPrefix) (H.answer c) (redisStore keyPrefix (c.cmd H))
      (connEquiv ρ) where
  get key ctx env := by
    have hcmd := run_cmdProgram H c (getArgs keyPrefix key) ⟨ctx, env⟩
    rw [redisProgram, Interaction.run_bind]
    dsimp only at hcmd
    rw [hcmd]
    rfl
  setNX key value ttlSec ctx env := by
    have hcmd := run_cmdProgram H c (setNXArgs keyPrefix key value ttlSec) ⟨ctx, env⟩
    rw [redisProgram, Interaction.run_bind]
    dsimp only at hcmd
    rw [hcmd]
    rfl

/-- **The program of a task, run alone**, on any library: what the handler does on the store. -/
theorem run_program (task : RedisTask) (env : ρ) :
    (task.program (redisProgram keyPrefix)).run (H.answer c) env =
      handlerAlone (connEquiv ρ) (task.handle (redisStore keyPrefix (c.cmd H)) (connEquiv ρ) env) :=
  (implements_redisProgram keyPrefix H c).run_handlerTask task env

end Store

/-! ## What the programs keep to -/

section Keeps

open Interaction

variable {τ : Type*} {book : Book RedisCall RedisCall.Returned τ} {keyPrefix : Bytes}

/-- **What a command keeps to**: if the calls of the client are right, a reply that arrives is one
to the command, behind it. -/
theorem keeps_cmdProgram {args : List Bytes} {replied : RedisReply → τ → Prop} {Pre : τ → Prop}
    (hother : ∀ c, (∀ ctx args, c ≠ .command ctx args) → ∀ g, Pre g → book.right c g ∧
      ∀ r g', book.next c r g g' → Pre g')
    (hcommand : ∀ ctx g, Pre g → book.right (.command ctx args) g ∧
      ∀ r g', book.next (.command ctx args) r g g' → Pre g' ∧ ∀ r', r = some r' → replied r' g')
    (ctx : Option RedisContext) {g : τ} (hg : Pre g) :
    (cmdProgram args ctx).Keeps book
      (fun g a => Pre g ∧ ∀ r, a.1 = .ok (some r) → replied r g) g := by
  have hget : ∀ ctx g, Pre g → (getProgram ctx).Keeps book (fun g _ => Pre g) g := by
    rintro (_ | ctx) g hg
    · obtain ⟨hright, hnext⟩ := hother .connect nofun g hg
      refine ⟨hright, fun r g' hg' => ?_⟩
      rcases r with _ | ctx
      · exact hnext _ g' hg'
      · dsimp only
        split <;> exact hnext _ g' hg'
    · exact hg
  have hagain : ∀ g a, Pre g → (againProgram args a).Keeps book
      (fun g a => Pre g ∧ ∀ r, a.1 = .ok (some r) → replied r g) g := by
    rintro g ⟨x | x, ctx⟩ hg
    · exact ⟨hg, fun r h => by cases h⟩
    · obtain ⟨hright, hnext⟩ := hcommand x g hg
      refine ⟨hright, fun r g' hg' => ⟨(hnext r g' hg').1, fun r' h => ?_⟩⟩
      exact (hnext r g' hg').2 r' (Except.ok.inj h)
  refine (hget ctx g hg).bind ?_
  rintro g ⟨x | x, ctx⟩ hg
  · exact ⟨hg, fun r h => by cases h⟩
  · obtain ⟨hright, hnext⟩ := hcommand x g hg
    refine ⟨hright, fun r g' hg' => ?_⟩
    obtain ⟨hpre, hreplied⟩ := hnext r g' hg'
    rcases r with _ | r
    · obtain ⟨hright', hnext'⟩ := hother (.free x) nofun g' hpre
      exact ⟨hright', fun r g'' hg'' => (hget none g'' (hnext' r g'' hg'')).bind hagain⟩
    · exact ⟨hpre, fun r' h => hreplied r' (Except.ok.inj h)⟩

theorem found_eq_some {r : Option RedisReply} {v : Bytes} (h : found r = some v) :
    r = some (.string v) := by
  unfold found at h
  split at h <;> cases h
  rfl

variable (keyPrefix)

/-- The commands that the programs send: `GET`, and `SET` with the option `NX`. -/
def Sends : RedisCall → Prop
  | .command _ args => (∃ key, args = getArgs keyPrefix key) ∨
    ∃ key value ttlSec, args = setNXArgs keyPrefix key value ttlSec
  | _ => True

/-- The last call was the `SET` that has stored the value. -/
def StoredBy (key value : Bytes) (ttlSec : ℤ)
    (last : Option (Answered RedisCall RedisCall.Returned)) : Prop :=
  ∃ ctx, last =
    some ⟨.command ctx (setNXArgs keyPrefix key value ttlSec), some (.status (bytes "OK"))⟩

/-- The last call was the `GET` that has found the value. -/
def FoundBy (key value : Bytes) (last : Option (Answered RedisCall RedisCall.Returned)) : Prop :=
  ∃ ctx, last = some ⟨.command ctx (getArgs keyPrefix key), some (.string value)⟩

variable {keyPrefix}

/-- A reply is the answer to the last call. -/
theorem keeps_cmdProgram_lastCall {args : List Bytes}
    (hargs : ∀ ctx, Sends keyPrefix (.command ctx args)) (ctx : Option RedisContext)
    (last : Option (Answered RedisCall RedisCall.Returned)) :
    (cmdProgram args ctx).Keeps (.lastCall (Sends keyPrefix)) (fun last a =>
      True ∧ ∀ r, a.1 = .ok (some r) → ∃ ctx, last = some ⟨.command ctx args, some r⟩) last := by
  refine keeps_cmdProgram (fun c hc g _ => ⟨?_, fun _ _ _ => trivial⟩)
    (fun ctx g _ => ⟨hargs ctx, ?_⟩) ctx trivial
  · cases c with
    | command ctx args => exact absurd rfl (hc ctx args)
    | connect | free => trivial
  · rintro r g' rfl
    refine ⟨trivial, ?_⟩
    rintro r' rfl
    exact ⟨ctx, rfl⟩

/-- **What the programs keep to**: the commands they send, and the reply their answer comes from. -/
theorem keeps_redisTask (task : RedisTask) :
    (task.program (redisProgram keyPrefix)).Keeps (.lastCall (Sends keyPrefix))
      (task.ComesFrom (StoredBy keyPrefix) (FoundBy keyPrefix)) none := by
  refine keeps_program (fun id url ttl ctx last _ => ?_) task (fun req _ _ _ ctx last => ?_) none
  · refine (keeps_cmdProgram_lastCall (fun _ => .inr ⟨id, url, ttl, rfl⟩) ctx last).bind ?_
    rintro last ⟨x | r, store⟩ ⟨-, hr⟩ htrue
    · cases htrue
    · have hstored : stored r = true := by simpa [Except.map] using htrue
      exact hr _ (congrArg Except.ok (by simpa [stored] using hstored))
  · refine (keeps_cmdProgram_lastCall (fun _ => .inl ⟨_, rfl⟩) ctx last).bind ?_
    rintro last ⟨x | r, store⟩ ⟨-, hr⟩ v hv
    · cases hv
    · exact hr _ (congrArg Except.ok (found_eq_some (Except.ok.inj hv)))

end Keeps

end KamaHttp
