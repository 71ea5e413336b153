import Mathlib.Data.PNat.Notation
import Mathlib.Data.PNat.Defs
import KamaHttp.App.StoreContract

/-!
# The store in memory

`KVStore.h` and `MemoryStore.h`: strings in a fixed number of shards, each of them a map. The shard
of a key is found by its first byte; the first byte of an empty string is the null behind it.

* `find_set`: what is found behind a `set`.
* `answers_eq_iff_unlapsed`: the store answers as the reference exactly in the runs that ask for no
  key whose last entry was deleted or has expired.
-/

namespace KamaHttp

/-- The shards, each with its map. -/
structure KVStore (shards : ℕ) where
  maps : Vector StringMap shards

namespace KVStore

def new (shards : ℕ) : KVStore shards := ⟨.replicate shards ∅⟩

variable {shards : ℕ}

def get (kv : KVStore shards) (shard : Fin shards) (k : Bytes) : Option Bytes :=
  kv.maps[shard][k]?

def set (kv : KVStore shards) (shard : Fin shards) (k v : Bytes) : KVStore shards :=
  ⟨kv.maps.set shard (kv.maps[shard].insert k v)⟩

@[simp] theorem get_new (shard : Fin shards) (k : Bytes) : (new shards).get shard k = none := by
  simp [new, get]

theorem get_set (kv : KVStore shards) (shard shard' : Fin shards) (k v k' : Bytes) :
    (kv.set shard k v).get shard' k' =
      if shard' = shard ∧ k' = k then some v else kv.get shard' k' := by
  by_cases hs : shard' = shard
  · subst hs
    by_cases hk : k' = k
    · simp [get, set, hk]
    · simp [get, set, Std.ExtTreeMap.getElem?_insert, hk, Ne.symm hk]
  · have hne : (shard : ℕ) ≠ shard' := fun h => hs (Fin.ext h.symm)
    simp [get, set, hs, hne]

end KVStore

namespace MemoryStore

/-- The shard of a key, `(unsigned char)key[0] % shards_`. -/
def shard (shards : ℕ+) (key : Bytes) : Fin shards :=
  ⟨(key.headD 0).toNat % shards, Nat.mod_lt _ shards.pos⟩

end MemoryStore

/-- `MemoryStore`, over a `KVStore` with as many shards. It has no use for a time to live, and `del`
does nothing. -/
def memoryStore (shards : ℕ+) : IStore (KVStore shards) where
  get key kv := (.ok (kv.get (MemoryStore.shard shards key) key), kv)
  setNX key value _ kv :=
    let shard := MemoryStore.shard shards key
    if (kv.get shard key).isSome then (.ok false, kv) else (.ok true, kv.set shard key value)
  set key value _ kv := (.ok (), kv.set (MemoryStore.shard shards key) key value)
  del _ kv := (.ok (), kv)

namespace MemoryStore

variable {shards : ℕ+}

/-- What the store has under a key. -/
def find (kv : KVStore shards) (key : Bytes) : Option Bytes := kv.get (shard shards key) key

@[simp] theorem find_new (key : Bytes) : find (KVStore.new shards) key = none := KVStore.get_new _ _

@[simp] theorem find_set (kv : KVStore shards) (key value key' : Bytes) :
    find (kv.set (shard shards key) key value) key' =
      if key' = key then some value else find kv key' := by
  rw [find, KVStore.get_set]
  by_cases h : key' = key
  · subst h
    simp
  · simp [h, find]

theorem setNX_eq (key value : Bytes) (ttlSec : ℤ) (kv : KVStore shards) :
    (memoryStore shards).setNX key value ttlSec kv =
      if (find kv key).isSome then (.ok false, kv)
      else (.ok true, kv.set (shard shards key) key value) := rfl

/-! ## The store and the reference -/

/-- The runs of the store. Time changes nothing in it. -/
def exec (shards : ℕ+) : Machine StoreOp (KVStore shards) (Except StdException StoreReply) :=
  (memoryStore shards).exec fun _ kv => kv

/-- If the operation asks for a key that was written before, the reference still has an entry
under it: the last one was not deleted, and has not expired. -/
def Unlapsed (now : ℕ) (before : List StoreOp) (op : StoreOp) : Prop :=
  ∀ key, op.Reads key → (∃ op' ∈ before, op'.Writes key) →
    ((ttlExec.run before (.empty now)).get key).isSome

/-- The store has an entry under the keys that were written, and it is the one of the reference if
that has one. -/
structure Retains (now : ℕ) (calls : List StoreOp) (kv : KVStore shards)
    (m : TtlMap Bytes Bytes) : Prop where
  run : m = ttlExec.run calls (.empty now)
  held : ∀ key, (find kv key).isSome ↔ ∃ op ∈ calls, op.Writes key
  agree : ∀ key v, m.get key = some v → find kv key = some v

theorem Retains.new (now : ℕ) : Retains now [] (KVStore.new shards) (.empty now) where
  run := rfl
  held := by simp
  agree := by simp

variable {now : ℕ} {calls : List StoreOp} {kv : KVStore shards} {m : TtlMap Bytes Bytes}

theorem Retains.unlapsed_iff (h : Retains now calls kv m) {op : StoreOp} {key : Bytes}
    (hr : ∀ key', op.Reads key' ↔ key = key') :
    Unlapsed now calls op ↔ find kv key = m.get key := by
  rw [Unlapsed]
  simp only [hr, forall_eq', ← h.held, ← h.run]
  constructor
  · intro hlive
    cases hm : m.get key with
    | none =>
      rw [hm] at hlive
      by_contra hne
      exact absurd (hlive (Option.isSome_iff_ne_none.2 hne)) (by simp)
    | some v => exact h.agree key v hm
  · intro heq hsome
    rwa [← heq]

/-- An operation that writes no key but such as are held, and behind which the reference has no more
than before. -/
theorem Retains.concat (h : Retains now calls kv m) {op : StoreOp}
    (hw : ∀ key, op.Writes key → (find kv key).isSome)
    (hm : ∀ key v, (ttlExec op m).2.get key = some v → m.get key = some v) :
    Retains now (calls ++ [op]) kv (ttlExec op m).2 where
  run := by rw [Machine.run_concat, ← h.run]
  held key := by
    simp only [h.held, List.mem_append, List.mem_singleton, or_and_right, exists_or, exists_eq_left]
    exact ⟨.inl, fun hor => hor.elim id fun hop => (h.held key).1 (hw key hop)⟩
  agree key v hv := h.agree key v (hm key v hv)

/-- An operation that writes an entry. -/
theorem Retains.write (h : Retains now calls kv m) {op : StoreOp} {key value : Bytes} {ttlSec : ℤ}
    (hw : ∀ key', op.Writes key' ↔ key = key') (hm : (ttlExec op m).2 = m.set key value ttlSec) :
    Retains now (calls ++ [op]) (kv.set (shard shards key) key value) (ttlExec op m).2 where
  run := by rw [Machine.run_concat, ← h.run]
  held key' := by
    rw [find_set]
    by_cases hk : key' = key
    · simp [hk, hw]
    · simp [hk, Ne.symm hk, h.held, hw]
  agree key' v hv := by
    rw [hm, TtlMap.get_set] at hv
    rw [find_set]
    split
    · rename_i hk
      simpa [hk] using hv
    · rename_i hk
      exact h.agree key' v (by simpa [hk] using hv)

theorem exec_setNX_of_free {key : Bytes} (value : Bytes) (ttlSec : ℤ) (h : find kv key = none) :
    exec shards (.setNX key value ttlSec) kv =
      (.ok (.inserted true), kv.set (shard shards key) key value) := by
  simp [exec, IStore.exec, setNX_eq, h, Except.map]

theorem exec_setNX_of_taken {key v : Bytes} (value : Bytes) (ttlSec : ℤ)
    (h : find kv key = some v) :
    exec shards (.setNX key value ttlSec) kv = (.ok (.inserted false), kv) := by
  simp [exec, IStore.exec, setNX_eq, h, Except.map]

/-- `Retains.next`, for `setNX`. -/
theorem Retains.next_setNX (h : Retains now calls kv m) (key value : Bytes) (ttlSec : ℤ) :
    let op : StoreOp := .setNX key value ttlSec
    ((exec shards op kv).1 = (ttlExec op m).1 ↔ Unlapsed now calls op) ∧
      (Unlapsed now calls op → Retains now (calls ++ [op]) (exec shards op kv).2
        (ttlExec op m).2) := by
  intro op
  have hiff : Unlapsed now calls op ↔ find kv key = m.get key := h.unlapsed_iff fun key' => Iff.rfl
  rw [hiff]
  cases hf : find kv key with
  | none =>
    -- nothing was written under the key, and both write
    have hm : m.get key = none := by
      cases hm : m.get key with
      | none => rfl
      | some v => exact absurd (h.agree key v hm) (by simp [hf])
    have href := ttlExec_setNX_of_free value ttlSec hm
    rw [exec_setNX_of_free value ttlSec hf]
    refine ⟨by simp [op, href, hm], fun _ => h.write (fun _ => Iff.rfl) (by rw [href])⟩
  | some v =>
    rw [exec_setNX_of_taken value ttlSec hf]
    cases hm : m.get key with
    | none =>
      -- the entry is there, but has lapsed
      refine ⟨by simp [op, ttlExec_setNX_of_free value ttlSec hm], fun heq => by cases heq⟩
    | some v' =>
      have href := ttlExec_setNX_of_taken value ttlSec (m := m) (by rw [hm]; rfl)
      obtain rfl : v = v' := by simpa [hf] using h.agree key v' hm
      refine ⟨by simp [op, href], fun _ => h.concat ?_ ?_⟩
      · rintro key' rfl
        exact Option.isSome_of_eq_some hf
      · rw [href]
        exact fun _ _ hv => hv

/-- One operation is answered as the reference answers it exactly if it asks for no entry that has
lapsed, and the store then goes on retaining what is written. -/
theorem Retains.next (h : Retains now calls kv m) (op : StoreOp) :
    ((exec shards op kv).1 = (ttlExec op m).1 ↔ Unlapsed now calls op) ∧
      (Unlapsed now calls op → Retains now (calls ++ [op]) (exec shards op kv).2
        (ttlExec op m).2) := by
  have htrivial : (∀ key, ¬ op.Reads key) → Unlapsed now calls op := fun hr key hk =>
    absurd hk (hr key)
  cases op with
  | get key =>
    have hiff : Unlapsed now calls (.get key) ↔ find kv key = m.get key :=
      h.unlapsed_iff fun key' => Iff.rfl
    constructor
    · rw [hiff]
      show Except.ok (StoreReply.value (find kv key)) = .ok (.value (m.get key)) ↔ _
      simp
    · intro _
      exact h.concat (fun _ hw => hw.elim) fun _ _ hv => hv
  | setNX key value ttlSec => exact h.next_setNX key value ttlSec
  | set key value ttlSec =>
    refine ⟨⟨fun _ => htrivial fun _ hr => hr, fun _ => rfl⟩, fun _ => ?_⟩
    exact h.write (fun _ => Iff.rfl) rfl
  | del key =>
    refine ⟨⟨fun _ => htrivial fun _ hr => hr, fun _ => rfl⟩, fun _ => ?_⟩
    refine h.concat (fun _ hw => hw.elim) fun key' v hv => ?_
    have hdel : (m.del key).get key' = some v := hv
    rw [TtlMap.get_del] at hdel
    split at hdel
    · cases hdel
    · exact hdel
  | tick seconds =>
    refine ⟨⟨fun _ => htrivial fun _ hr => hr, fun _ => rfl⟩, fun _ => ?_⟩
    exact h.concat (fun _ hw => hw.elim) fun _ _ hv => TtlMap.get_tick hv

/-- **When the store keeps its contract.** For any number of shards, a run of operations on an empty
store is answered as the reference answers it, exactly if no `get` and no `setNX` asks for a key
whose last entry was deleted or has expired. -/
theorem answers_eq_iff_unlapsed (shards : ℕ+) (now : ℕ) (calls : List StoreOp) :
    (exec shards).answers calls (KVStore.new shards) = ttlExec.answers calls (.empty now) ↔
      Along (Unlapsed now) calls :=
  Machine.answers_eq_iff (R := Retains now) (.new now) fun _ op _ _ h => h.next op

/-- A link is still found when its time to live has elapsed, and when it was deleted. -/
theorem expired_and_deleted_are_found :
    (exec 8).answers [.set (bytes "a") (bytes "u") 1, .tick 1, .get (bytes "a")] (.new 8) =
        [.ok .done, .ok .done, .ok (.value (some (bytes "u")))] ∧
      ttlExec.answers [.set (bytes "a") (bytes "u") 1, .tick 1, .get (bytes "a")] (.empty 0) =
        [.ok .done, .ok .done, .ok (.value none)] ∧
      (exec 8).answers [.set (bytes "a") (bytes "u") 0, .del (bytes "a"), .get (bytes "a")]
        (.new 8) = [.ok .done, .ok .done, .ok (.value (some (bytes "u")))] ∧
      ttlExec.answers [.set (bytes "a") (bytes "u") 0, .del (bytes "a"), .get (bytes "a")]
        (.empty 0) = [.ok .done, .ok .done, .ok (.value none)] := by
  refine ⟨by decide +kernel, by decide +kernel, by decide +kernel, by decide +kernel⟩

end MemoryStore

end KamaHttp
