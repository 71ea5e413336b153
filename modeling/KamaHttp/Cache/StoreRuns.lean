import Mathlib.Logic.Relation
import KamaHttp.Cache.MemoryCacheLRU
import KamaHttp.Foundations.Machine

/-!
# Runs of the LRU store

The store under any sequence of calls, from an empty store of any capacity.

* `representation`: in every state reached the list, the map and the bytes in use agree, the store
  fits its capacity, and no subtraction from the bytes in use goes below zero.
* `refines_recency`: the store behaves as a list of entries in the order of use, of which a `set`
  keeps the longest beginning that fits.
* `never_superseded_iff`: `get` returns the entry that was set last, or nothing, exactly in the runs
  that pass no entry too large for the store under a key that is in it.
-/

namespace KamaHttp

open Recency

/-- A call of the store. -/
inductive StoreCall
  | get (key : CacheKey)
  | set (key : CacheKey) (e : CachedEntry)
  | del (key : CacheKey)
  | purgePrefix (pathPrefix : Bytes)

namespace MemoryCacheLRU

/-- A call of the store, with what `get` returns. -/
def exec : Machine StoreCall MemoryCacheLRU (Option CachedEntry)
  | .get key, c => c.get key
  | .set key e, c => (none, c.set key e)
  | .del key, c => (none, c.del key)
  | .purgePrefix pathPrefix, c => (none, c.purgePrefix pathPrefix)

end MemoryCacheLRU

/-- The specification: a list of entries in the order of use, the most recently used first. -/
def recencyExec (capBytes : ℕ) : Machine StoreCall (List (CacheKey × CachedEntry))
    (Option CachedEntry)
  | .get key, l => (lookup l key, touch l key)
  | .set key e, l =>
    (none, if e.bytes ≤ capBytes then longest CachedEntry.bytes capBytes (put l key e) else l)
  | .del key, l => (none, remove l key)
  | .purgePrefix pathPrefix, l =>
    (none, l.filter fun p => decide ¬ pathPrefix <+: p.1.pathAndQuery)

namespace CacheStore

open MemoryCacheLRU

/-- A call of the store, with its invariant. -/
def exec : Machine StoreCall CacheStore (Option CachedEntry)
  | .get key, s => s.get key
  | .set key e, s => (none, s.set key e)
  | .del key, s => (none, s.del key)
  | .purgePrefix pathPrefix, s => (none, s.purgePrefix pathPrefix)

theorem exec_cache (call : StoreCall) (s : CacheStore) :
    MemoryCacheLRU.exec call s.cache = ((exec call s).1, (exec call s).2.cache) := by
  cases call <;> rfl

/-- The runs of the store are those with its invariant. -/
theorem run_cache (capBytes : ℕ) (calls : List StoreCall) :
    MemoryCacheLRU.exec.run calls (.new capBytes) = (exec.run calls (new capBytes)).cache ∧
      MemoryCacheLRU.exec.answers calls (.new capBytes) = exec.answers calls (new capBytes) :=
  Machine.run_map exec_cache calls (new capBytes)

theorem exec_entries (call : StoreCall) (s : CacheStore) :
    recencyExec s.capBytes call s.cache.entries =
      ((exec call s).1, (exec call s).2.cache.entries) := by
  cases call with
  | get key =>
    obtain ⟨hfst, -, -, hent⟩ := s.wellFormed.get key
    exact Prod.ext hfst.symm hent.symm
  | set key e =>
    refine Prod.ext rfl ?_
    show (if e.bytes ≤ s.cache.capBytes then _ else _) = (s.cache.set key e).entries
    split
    · rename_i h
      rw [(s.wellFormed.set key h).2.2, shed_eq_longest]
      rfl
    · rename_i h
      rw [MemoryCacheLRU.set_of_too_big (Nat.not_le.1 h)]
  | del key => exact Prod.ext rfl (s.wellFormed.del key).2.2.symm
  | purgePrefix pathPrefix => exact Prod.ext rfl (s.wellFormed.purgePrefix pathPrefix).2.2.symm

theorem capBytes_exec (call : StoreCall) (s : CacheStore) :
    (exec call s).2.capBytes = s.capBytes := by
  cases call with
  | get key => exact s.capBytes_get key
  | set key e => exact s.capBytes_set key e
  | del key => exact (s.wellFormed.del key).2.1
  | purgePrefix pathPrefix => exact s.capBytes_purgePrefix pathPrefix

/-- The runs of the store are those of the specification. -/
theorem run_recency (capBytes : ℕ) (calls : List StoreCall) :
    exec.answers calls (new capBytes) = (recencyExec capBytes).answers calls [] ∧
      (exec.run calls (new capBytes)).capBytes = capBytes ∧
      (exec.run calls (new capBytes)).cache.entries = (recencyExec capBytes).run calls [] := by
  refine Machine.answers_eq_of_along (G := fun _ _ => True)
    (R := fun _ (s : CacheStore) l => s.capBytes = capBytes ∧ s.cache.entries = l) ⟨rfl, rfl⟩ ?_
    fun _ _ _ _ => trivial
  rintro - call s _ ⟨rfl, rfl⟩ -
  rw [exec_entries call s]
  exact ⟨rfl, capBytes_exec call s, rfl⟩

/-- What is found behind a call was found before it, or was just set. -/
theorem content_exec {s : CacheStore} {call : StoreCall} {key : CacheKey} {x : CachedEntry}
    (hx : (exec call s).2.content key = some x) :
    call = .set key x ∨
      (s.content key = some x ∧ ∀ e, call = .set key e → s.capBytes < e.bytes) := by
  cases call with
  | get key' => exact .inr ⟨(s.content_get key' key).symm.trans hx, fun e he => by cases he⟩
  | set key' e =>
    by_cases hfits : e.bytes ≤ s.capBytes
    · rcases content_set_of_fits hfits hx with ⟨rfl, rfl⟩ | ⟨hne, hold⟩
      · exact .inl rfl
      · refine .inr ⟨hold, fun e' he' => ?_⟩
        cases he'
        exact absurd rfl hne
    · have hbig := Nat.not_le.1 hfits
      refine .inr ⟨(congrFun (CacheStore.set_of_too_big hbig) key).symm.trans hx, fun e' he' => ?_⟩
      cases he'
      exact hbig
  | del key' =>
    have hold : (s.del key').content key = some x := hx
    rw [content, del, (s.wellFormed.del key').2.2, lookup_remove] at hold
    refine .inr ⟨?_, fun e he => by cases he⟩
    split at hold
    · cases hold
    · exact hold
  | purgePrefix pathPrefix =>
    have hold := (s.content_purgePrefix pathPrefix key).symm.trans hx
    refine .inr ⟨?_, fun e he => by cases he⟩
    split at hold
    · cases hold
    · exact hold

theorem bytes_le_of_content {s : CacheStore} {key : CacheKey} {x : CachedEntry}
    (hx : s.content key = some x) : x.bytes ≤ s.capBytes := by
  rw [content, lookup_entries, Option.map_eq_some_iff] at hx
  obtain ⟨n, hn, rfl⟩ := hx
  exact (s.wellFormed.bytes_le_used (List.mem_of_find?_eq_some hn)).trans s.fits

theorem content_eq_none_iff (s : CacheStore) (key : CacheKey) :
    s.content key = none ↔ s.cache.map key = none := by
  rw [content, lookup_entries, s.wellFormed.map_eq, Option.map_eq_none_iff, Option.map_eq_none_iff]

end CacheStore

namespace MemoryCacheLRU

/-! ## The representation -/

/-- The store as `set` hands it to `evictIfNeeded`. -/
def stored (c : MemoryCacheLRU) (key : CacheKey) (e : CachedEntry) : MemoryCacheLRU :=
  match (c.map key).bind c.deref with
  | some n =>
    { c with usedBytes := c.usedBytes - n.entry.bytes + e.bytes }.splice { n with entry := e }
  | none => c.pushFront key e

theorem set_of_fits {c : MemoryCacheLRU} {key : CacheKey} {e : CachedEntry}
    (h : ¬ c.capBytes < e.bytes) : c.set key e = (c.stored key e).evictIfNeeded := by
  rw [set, if_neg h, stored]
  cases (c.map key).bind c.deref <;> rfl

/-- In the course of a call, `bytes` are subtracted from `usedBytes`: by `set`, of the entry it
replaces and of those it evicts, by `del`, and by `purgePrefix`, of each entry it erases. -/
inductive Subtracts (c : MemoryCacheLRU) : StoreCall → (usedBytes bytes : ℕ) → Prop
  | replace {key e n} (hfits : ¬ c.capBytes < e.bytes) (hn : (c.map key).bind c.deref = some n) :
    Subtracts c (.set key e) c.usedBytes n.entry.bytes
  | evict {key e d d'} (hfits : ¬ c.capBytes < e.bytes)
    (hd : Relation.ReflTransGen (fun d d' => evictIter d = .next d') (c.stored key e) d)
    (hnext : evictIter d = .next d') {n} (hn : d.lru.getLast? = some n) :
    Subtracts c (.set key e) d.usedBytes n.entry.bytes
  | del {key n} (hn : (c.map key).bind c.deref = some n) :
    Subtracts c (.del key) c.usedBytes n.entry.bytes
  | purge {pathPrefix before n after} (hlru : c.lru = before ++ n :: after)
    (hn : pathPrefix <+: n.key.pathAndQuery) :
    Subtracts c (.purgePrefix pathPrefix)
      (before.foldl (fun c n => if pathPrefix <+: n.key.pathAndQuery then c.erase n else c)
        c).usedBytes n.entry.bytes

variable {c d : MemoryCacheLRU} {key : CacheKey} {e : CachedEntry} {n : Node}

theorem WellFormed.bytes_le_of_mem_entries (h : c.WellFormed) (he : (key, e) ∈ c.entries) :
    e.bytes ≤ c.usedBytes := by
  rw [h.used]
  exact List.le_sum_of_mem (List.mem_map.2 ⟨(key, e), he, rfl⟩)

theorem WellFormed.bytes_le_of_deref (h : c.WellFormed) (hn : (c.map key).bind c.deref = some n) :
    n.entry.bytes ≤ c.usedBytes := by
  rw [h.bind_deref] at hn
  exact h.bytes_le_used (List.mem_of_find?_eq_some hn)

theorem WellFormed.stored (h : c.WellFormed) (key : CacheKey) (e : CachedEntry) :
    (c.stored key e).WellFormed := by
  rw [MemoryCacheLRU.stored, h.bind_deref]
  cases hn : c.lru.find? fun n => n.key = key with
  | none => exact h.pushFront hn e
  | some n => exact h.splice (List.mem_of_find?_eq_some hn) e

/-- The loop of `evictIfNeeded` goes through stores that are well formed. -/
theorem WellFormed.evicting (h : c.WellFormed)
    (hd : Relation.ReflTransGen (fun d d' => evictIter d = .next d') c d) : d.WellFormed := by
  induction hd with
  | refl => exact h
  | tail _ hstep ih =>
    rename_i d d' _
    rcases evictIter_cases d with ⟨l, n, hl, -, he⟩ | ⟨-, he⟩
    · cases he.symm.trans hstep
      apply ih.erase
      simp [hl]
    · cases he.symm.trans hstep

/-- **No subtraction goes below zero.** -/
theorem WellFormed.le_of_subtracts (h : c.WellFormed) {call : StoreCall} {usedBytes bytes : ℕ}
    (hs : Subtracts c call usedBytes bytes) : bytes ≤ usedBytes := by
  cases hs with
  | replace _ hn => exact h.bytes_le_of_deref hn
  | evict _ hd _ hn =>
    have hwf := (h.stored _ _).evicting hd
    exact hwf.bytes_le_used (List.mem_of_getLast? hn)
  | del hn => exact h.bytes_le_of_deref hn
  | purge hlru hn =>
    rename_i pathPrefix before n after
    -- the node is not among those before it, so it is still there when the loop comes to it
    have hkeys := h.keys
    have hits := h.its
    rw [hlru, List.map_append] at hkeys hits
    have hbefore : ∀ m ∈ before, m ∈ c.lru := fun m hm => by
      rw [hlru]
      exact List.mem_append_left _ hm
    obtain ⟨d, hd, hwf, -, hent⟩ :=
      h.purge_foldl pathPrefix hbefore (List.nodup_append.1 hits).1
    have hmem : (n.key, n.entry) ∈ d.entries := by
      rw [hent, List.mem_filter]
      constructor
      · rw [entries, hlru]
        simp
      · have hnot : n.key ∉ before.map Node.key := fun hm =>
          (List.nodup_append.1 hkeys).2.2 _ hm _ (by simp) rfl
        simp [purged, hnot]
    rw [hd]
    exact hwf.bytes_le_of_mem_entries hmem

/-- **The representation of the store.** Behind any sequence of calls of an empty store, the list
has each key once, the map has exactly its keys and gives each the iterator of its own node, and the
bytes in use are those of the entries in the list and fit the capacity; the next call subtracts
nothing from them that is more than they are. -/
theorem representation (capBytes : ℕ) (calls : List StoreCall) :
    let c := exec.run calls (new capBytes)
    (c.lru.map Node.key).Nodup ∧ (c.lru.map Node.it).Nodup ∧
      (∀ key it, c.map key = some it ↔ ∃ n ∈ c.lru, n.key = key ∧ n.it = it) ∧
      c.usedBytes = (c.lru.map fun n => n.entry.bytes).sum ∧ c.usedBytes ≤ capBytes ∧
      ∀ call usedBytes bytes, Subtracts c call usedBytes bytes → bytes ≤ usedBytes := by
  intro c
  obtain ⟨s, hs, hcap⟩ : ∃ s : CacheStore, c = s.cache ∧ s.cache.capBytes = capBytes :=
    ⟨_, (CacheStore.run_cache capBytes calls).1, (CacheStore.run_recency capBytes calls).2.1⟩
  rw [hs]
  have hwf := s.wellFormed
  refine ⟨hwf.keys, hwf.its, fun key it => ?_, ?_, ?_, fun _ _ _ => hwf.le_of_subtracts⟩
  · rw [hwf.map_eq, Option.map_eq_some_iff]
    constructor
    · rintro ⟨n, hn, rfl⟩
      exact ⟨n, List.mem_of_find?_eq_some hn, by simpa using List.find?_some hn, rfl⟩
    · rintro ⟨n, hn, rfl, rfl⟩
      exact ⟨n, find_of_nodup Node.key hwf.keys hn, rfl⟩
  · rw [hwf.used, weight, entries, List.map_map]
    rfl
  · exact hcap ▸ s.fits

/-! ## The order of use -/

/-- **The store is a list of entries in the order of use.** Any sequence of calls of an empty store
is answered as the specification answers it, and the entries are those of the specification; an
entry that fits the store and was just set is the first of them. -/
theorem refines_recency (capBytes : ℕ) (calls : List StoreCall) :
    exec.answers calls (new capBytes) = (recencyExec capBytes).answers calls [] ∧
      (exec.run calls (new capBytes)).entries = (recencyExec capBytes).run calls [] ∧
      ∀ key e, e.bytes ≤ capBytes →
        (exec.run (calls ++ [.set key e]) (new capBytes)).entries.head? = some (key, e) := by
  have hrun : ∀ calls, (exec.run calls (new capBytes)).entries =
      (recencyExec capBytes).run calls [] := fun calls => by
    rw [(CacheStore.run_cache capBytes calls).1, (CacheStore.run_recency capBytes calls).2.2]
  refine ⟨?_, hrun calls, fun key e he => ?_⟩
  · rw [(CacheStore.run_cache capBytes calls).2, (CacheStore.run_recency capBytes calls).1]
  · rw [hrun, Machine.run_concat]
    show (if e.bytes ≤ capBytes then _ else _ : List (CacheKey × CachedEntry)).head? = _
    rw [if_pos he, ← shed_eq_longest, put, shed, if_pos he, List.head?_cons]

/-! ## What was set last -/

/-- The entry of the last call of `set` with the key. -/
def lastSet (key : CacheKey) (calls : List StoreCall) : Option CachedEntry :=
  calls.reverse.findSome? fun
    | .set key' e => if key' = key then some e else none
    | _ => none

/-- `get` returns nothing, or the entry that was set last. -/
def NeverSuperseded (capBytes : ℕ) (calls : List StoreCall) : Prop :=
  ∀ key e, ((exec.run calls (new capBytes)).get key).1 = some e → lastSet key calls = some e

/-- Behind the calls before it, a call of `set` with an entry larger than the store finds no entry
under its key. -/
def LeavesNoneBehind (capBytes : ℕ) (before : List StoreCall) : StoreCall → Prop
  | .set key e => capBytes < e.bytes → (exec.run before (new capBytes)).map key = none
  | _ => True

theorem lastSet_concat (key : CacheKey) (calls : List StoreCall) (call : StoreCall) :
    lastSet key (calls ++ [call]) =
      match call with
      | .set key' e => if key' = key then some e else lastSet key calls
      | _ => lastSet key calls := by
  cases call with
  | set key' e =>
    by_cases h : key' = key <;> simp [lastSet, h]
  | get _ => simp [lastSet]
  | del _ => simp [lastSet]
  | purgePrefix _ => simp [lastSet]

theorem get_run (capBytes : ℕ) (calls : List StoreCall) (key : CacheKey) :
    ((exec.run calls (new capBytes)).get key).1 =
      (CacheStore.exec.run calls (.new capBytes)).content key := by
  rw [(CacheStore.run_cache capBytes calls).1]
  exact CacheStore.get_fst _ key

/-- One call keeps the law exactly if it leaves no older entry behind. -/
theorem NeverSuperseded.concat_iff {capBytes : ℕ} {calls : List StoreCall} {call : StoreCall}
    (h : NeverSuperseded capBytes calls) :
    NeverSuperseded capBytes (calls ++ [call]) ↔ LeavesNoneBehind capBytes calls call := by
  have hcap := (CacheStore.run_recency capBytes calls).2.1
  simp only [NeverSuperseded, get_run] at h ⊢
  rw [Machine.run_concat]
  generalize hs : CacheStore.exec.run calls (.new capBytes) = s at h hcap ⊢
  have hnone : ∀ key, (exec.run calls (new capBytes)).map key = none ↔ s.content key = none :=
    fun key => by rw [(CacheStore.run_cache capBytes calls).1, hs, s.content_eq_none_iff]
  constructor
  · intro hnext
    cases call with
    | set key e =>
      intro hbig
      rw [hnone]
      by_contra hx
      obtain ⟨x, hx⟩ := Option.ne_none_iff_exists'.1 hx
      have hkept : (CacheStore.exec (.set key e) s).2.content key = some x :=
        (congrFun (CacheStore.set_of_too_big (hcap ▸ hbig)) key).trans hx
      have hlast := hnext key x hkept
      rw [lastSet_concat] at hlast
      obtain rfl : e = x := by simpa using hlast
      have := CacheStore.bytes_le_of_content hx
      omega
    | _ => trivial
  · intro hcall key x hx
    rw [lastSet_concat]
    rcases CacheStore.content_exec hx with rfl | ⟨hold, hbig⟩
    · simp
    · cases call with
      | set key' e =>
        dsimp only
        split
        · rename_i heq
          obtain rfl := heq
          have := (hnone key').1 (hcall (hcap ▸ hbig e rfl))
          rw [this] at hold
          cases hold
        · exact h key x hold
      | _ => exact h key x hold

/-- **When no superseded entry is returned.** All along a sequence of calls `get` returns nothing or
the entry that was set last, exactly if no call of `set` passes an entry larger than the store under
a key that is in it. -/
theorem never_superseded_iff (capBytes : ℕ) (calls : List StoreCall) :
    (∀ before, before <+: calls → NeverSuperseded capBytes before) ↔
      Along (LeavesNoneBehind capBytes) calls := by
  refine along_iff (fun key e he => ?_) fun calls call h => h.concat_iff
  rw [get_run] at he
  cases he

/-- A store of one byte: the small entry under a key is still returned behind a `set` of the large
one. -/
theorem superseded_entry_returned :
    let key : CacheKey := ⟨bytes "GET", bytes "/", []⟩
    let small : CachedEntry := ⟨[], [], bytes "a", 0, 0⟩
    let large : CachedEntry := ⟨[], [], bytes "bb", 0, 0⟩
    let calls : List StoreCall := [.set key small, .set key large]
    ((exec.run calls (new 1)).get key).1 = some small ∧ lastSet key calls = some large ∧
      ¬ NeverSuperseded 1 calls := by
  intro key small large calls
  have hget : ((exec.run calls (new 1)).get key).1 = some small := by decide +kernel
  have hlast : lastSet key calls = some large := by decide +kernel
  refine ⟨hget, hlast, fun h => ?_⟩
  have hsmall := (h key small hget).symm.trans hlast
  revert hsmall
  decide +kernel

end MemoryCacheLRU

end KamaHttp
