import KamaHttp.App.RouterSetup
import KamaHttp.Foundations.Machine
import KamaHttp.Foundations.TtlMap

/-!
# The contract of a store

What a store with the operations of `IStore` is for, as a reference: a map whose entries have a time
to live. A store is compared with it by what its operations answer in a run; between the operations
time passes.
-/

namespace KamaHttp

/-- An operation on a store, or some seconds that pass. -/
inductive StoreOp
  | get (key : Bytes)
  | setNX (key value : Bytes) (ttlSec : ℤ)
  | set (key value : Bytes) (ttlSec : ℤ)
  | del (key : Bytes)
  | tick (seconds : ℕ)

/-- What an operation returns. -/
inductive StoreReply
  | value (v : Option Bytes)
  | inserted (b : Bool)
  | done
  deriving DecidableEq

/-- The operations of a store, with what the passing of time makes of it. -/
def IStore.exec {κ : Type*} (S : IStore κ) (tick : ℕ → κ → κ) :
    Machine StoreOp κ (Except StdException StoreReply)
  | .get key, s => ((S.get key s).1.map .value, (S.get key s).2)
  | .setNX key value ttlSec, s =>
    ((S.setNX key value ttlSec s).1.map .inserted, (S.setNX key value ttlSec s).2)
  | .set key value ttlSec, s =>
    ((S.set key value ttlSec s).1.map fun _ => .done, (S.set key value ttlSec s).2)
  | .del key, s => ((S.del key s).1.map fun _ => .done, (S.del key s).2)
  | .tick seconds, s => (.ok .done, tick seconds s)

/-- The reference: a map whose entries have a time to live, in which zero means no end. -/
def ttlStore : IStore (TtlMap Bytes Bytes) where
  get key m := (.ok (m.get key), m)
  setNX key value ttlSec m := (.ok (m.setNX key value ttlSec).1, (m.setNX key value ttlSec).2)
  set key value ttlSec m := (.ok (), m.set key value ttlSec)
  del key m := (.ok (), m.del key)

/-- The runs of the reference. -/
def ttlExec : Machine StoreOp (TtlMap Bytes Bytes) (Except StdException StoreReply) :=
  ttlStore.exec fun seconds m => m.tick seconds

section Reference

variable {m : TtlMap Bytes Bytes} {key : Bytes}

theorem ttlExec_setNX_of_taken (value : Bytes) (ttlSec : ℤ) (h : (m.get key).isSome) :
    ttlExec (.setNX key value ttlSec) m = (.ok (.inserted false), m) := by
  simp [ttlExec, IStore.exec, ttlStore, TtlMap.setNX, h, Except.map]

theorem ttlExec_setNX_of_free (value : Bytes) (ttlSec : ℤ) (h : m.get key = none) :
    ttlExec (.setNX key value ttlSec) m = (.ok (.inserted true), m.set key value ttlSec) := by
  simp [ttlExec, IStore.exec, ttlStore, TtlMap.setNX, h, Except.map]

end Reference

namespace StoreOp

/-- The operation is `set` or `setNX`, with the key. -/
def Writes (key : Bytes) : StoreOp → Prop
  | .setNX key' _ _ => key' = key
  | .set key' _ _ => key' = key
  | _ => False

/-- The operation is `get` or `setNX`, with the key: what it answers depends on what is stored. -/
def Reads (key : Bytes) : StoreOp → Prop
  | .get key' => key' = key
  | .setNX key' _ _ => key' = key
  | _ => False

end StoreOp

end KamaHttp
