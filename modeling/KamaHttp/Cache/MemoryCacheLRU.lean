import Mathlib.Logic.Function.Basic
import Mathlib.Algebra.Order.BigOperators.Group.List
import KamaHttp.Foundations.Bytes
import KamaHttp.Foundations.Loop
import KamaHttp.Foundations.Recency

/-!
# The LRU store

The store behind the response cache (`MemoryCacheLRU.cpp`): a list of entries, the most recently
used first, a map from keys to iterators into the list, and the bytes in use. An iterator is a
number that names its node; a node keeps its number wherever it is spliced to. The methods run under
a lock, one after the other, and the bytes of the entries, which are all in memory, do not overflow
their count.

* `WellFormed`: the map knows exactly the nodes of the list, and the bytes in use are those of the
  entries.
* `WellFormed.get` and its companions: on well formed stores the operations are those of a
  recency list.
* `CacheStore`: a store that carries the invariant.
-/

namespace KamaHttp

open Loop Recency

structure CacheKey where
  method : Bytes
  pathAndQuery : Bytes
  acceptEncoding : Bytes
  deriving DecidableEq

/-- Points in time are nanoseconds of the steady clock. -/
structure CachedEntry where
  statusLine : Bytes
  headers : List (Bytes × Bytes)
  body : Bytes
  hardExpire : ℤ
  softExpire : ℤ
  deriving DecidableEq

/-- `CachedEntry::bytes`. -/
def CachedEntry.bytes (e : CachedEntry) : ℕ :=
  e.statusLine.length + e.body.length + (e.headers.map fun h => h.1.length + h.2.length).sum

/-- A node of the list, with the number of its iterator. -/
structure Node where
  it : ℕ
  key : CacheKey
  entry : CachedEntry

structure MemoryCacheLRU where
  capBytes : ℕ
  usedBytes : ℕ
  lru : List Node
  map : CacheKey → Option ℕ
  /-- The number of the next node. -/
  fresh : ℕ

namespace MemoryCacheLRU

def new (capBytes : ℕ) : MemoryCacheLRU := ⟨capBytes, 0, [], fun _ => none, 0⟩

/-- The node an iterator denotes. -/
def deref (c : MemoryCacheLRU) (it : ℕ) : Option Node := c.lru.find? fun n => n.it = it

/-- The node is moved to the front, with the entry it has now. -/
def splice (c : MemoryCacheLRU) (n : Node) : MemoryCacheLRU :=
  { c with lru := n :: c.lru.filter fun m => m.it ≠ n.it }

/-- The node is erased from list and map, and its bytes are free. -/
def erase (c : MemoryCacheLRU) (n : Node) : MemoryCacheLRU :=
  { c with
    usedBytes := c.usedBytes - n.entry.bytes
    map := Function.update c.map n.key none
    lru := c.lru.filter fun m => m.it ≠ n.it }

/-- One iteration of the loop of `evictIfNeeded`. -/
def evictIter (c : MemoryCacheLRU) : Step MemoryCacheLRU MemoryCacheLRU :=
  match c.lru.getLast? with
  | none => .stop c
  | some n => if c.capBytes < c.usedBytes then .next (c.erase n) else .stop c

/-- Every iteration erases a node, so the length of the list bounds their number. -/
def evictIfNeeded (c : MemoryCacheLRU) : MemoryCacheLRU :=
  (run evictIter (c.lru.length + 1) c).getD c

/-- `get`. That the iterator in the map denotes a node is part of `WellFormed`. -/
def get (c : MemoryCacheLRU) (key : CacheKey) : Option CachedEntry × MemoryCacheLRU :=
  match (c.map key).bind c.deref with
  | none => (none, c)
  | some n => (some n.entry, c.splice n)

def set (c : MemoryCacheLRU) (key : CacheKey) (e : CachedEntry) : MemoryCacheLRU :=
  if c.capBytes < e.bytes then c
  else
    match (c.map key).bind c.deref with
    | some n =>
      evictIfNeeded ({ c with usedBytes := c.usedBytes - n.entry.bytes + e.bytes }.splice
        { n with entry := e })
    | none =>
      evictIfNeeded
        { c with
          lru := ⟨c.fresh, key, e⟩ :: c.lru
          map := Function.update c.map key (some c.fresh)
          usedBytes := c.usedBytes + e.bytes
          fresh := c.fresh + 1 }

def del (c : MemoryCacheLRU) (key : CacheKey) : MemoryCacheLRU :=
  match (c.map key).bind c.deref with
  | none => c
  | some n => c.erase n

/-- `purgePrefix`: the loop visits the nodes of the list in order and erases those whose path begins
with the prefix. -/
def purgePrefix (c : MemoryCacheLRU) (pathPrefix : Bytes) : MemoryCacheLRU :=
  c.lru.foldl (fun c n => if pathPrefix <+: n.key.pathAndQuery then c.erase n else c) c

/-! ## The entries of the list -/

/-- The store as a recency list. -/
def entries (c : MemoryCacheLRU) : List (CacheKey × CachedEntry) :=
  c.lru.map fun n => (n.key, n.entry)

/-- The map knows the nodes of the list, each key has one node, and the bytes in use are those of
the entries. -/
structure WellFormed (c : MemoryCacheLRU) : Prop where
  used : c.usedBytes = weight CachedEntry.bytes c.entries
  keys : (c.lru.map Node.key).Nodup
  its : (c.lru.map Node.it).Nodup
  map_eq : ∀ k, c.map k = (c.lru.find? fun n => n.key = k).map Node.it
  it_lt : ∀ n ∈ c.lru, n.it < c.fresh

theorem WellFormed.new (capBytes : ℕ) : (new capBytes).WellFormed :=
  ⟨rfl, List.nodup_nil, List.nodup_nil, fun _ => rfl, fun _ h => by cases h⟩

/-- Of distinct labels, each is found where it stands. -/
theorem find_of_nodup {β : Type*} [DecidableEq β] (f : Node → β) {l : List Node}
    (h : (l.map f).Nodup) {n : Node} (hn : n ∈ l) : l.find? (fun m => f m = f n) = some n := by
  induction l with
  | nil => cases hn
  | cons m l ih =>
    obtain ⟨hm, hl⟩ := List.nodup_cons.1 h
    rw [List.find?_cons]
    rcases List.mem_cons.1 hn with rfl | hn
    · simp
    · have hne : f m ≠ f n := fun he => hm (he ▸ List.mem_map_of_mem hn)
      simp [hne, ih hl hn]

theorem lookup_entries (c : MemoryCacheLRU) (k : CacheKey) :
    lookup c.entries k = (c.lru.find? fun n => n.key = k).map Node.entry := by
  unfold entries
  induction c.lru with
  | nil => rfl
  | cons n l ih =>
    rw [List.map_cons, lookup_cons, List.find?_cons, ih]
    by_cases h : n.key = k <;> simp [h]

variable {c : MemoryCacheLRU} {k k' : CacheKey} {n : Node} {e : CachedEntry}

theorem WellFormed.distinct (h : c.WellFormed) : Distinct c.entries := by
  have hkeys := h.keys
  unfold Distinct entries
  rwa [List.map_map]

/-- The iterator in the map denotes the node with the key. -/
theorem WellFormed.bind_deref (h : c.WellFormed) (k : CacheKey) :
    (c.map k).bind c.deref = c.lru.find? fun n => n.key = k := by
  rw [h.map_eq]
  cases hn : c.lru.find? fun n => n.key = k with
  | none => rfl
  | some n => exact find_of_nodup Node.it h.its (List.mem_of_find?_eq_some hn)

/-- In the list, nodes differ in their iterators exactly if they differ in their keys. -/
theorem WellFormed.filter_it (h : c.WellFormed) (hn : n ∈ c.lru) :
    c.lru.filter (fun m => m.it ≠ n.it) = c.lru.filter fun m => m.key ≠ n.key := by
  refine List.filter_congr fun m hm => ?_
  have hit := List.inj_on_of_nodup_map h.its hm hn
  have hkey := List.inj_on_of_nodup_map h.keys hm hn
  grind

theorem entries_filter_key (l : List Node) (k : CacheKey) :
    (l.filter fun m => m.key ≠ k).map (fun n => (n.key, n.entry)) =
      remove (l.map fun n => (n.key, n.entry)) k := by
  rw [remove, List.filter_map]
  rfl

theorem find_filter_key (l : List Node) (k k' : CacheKey) :
    (l.filter fun m => m.key ≠ k).find? (fun n => n.key = k') =
      if k' = k then none else l.find? fun n => n.key = k' := by
  induction l with
  | nil => simp
  | cons n l ih => grind

/-- The node under a key stands for the entry under it. -/
theorem WellFormed.lookup_eq (h : c.WellFormed) (hn : n ∈ c.lru) :
    lookup c.entries n.key = some n.entry := by
  rw [lookup_entries, find_of_nodup Node.key h.keys hn, Option.map_some]

theorem WellFormed.bytes_le_used (h : c.WellFormed) (hn : n ∈ c.lru) :
    n.entry.bytes ≤ c.usedBytes := by
  have := weight_remove (w := CachedEntry.bytes) h.distinct (h.lookup_eq hn)
  rw [h.used]
  omega

/-! ## The operations, on well formed stores -/

theorem WellFormed.entries_erase (h : c.WellFormed) (hn : n ∈ c.lru) :
    (c.erase n).entries = remove c.entries n.key := by
  rw [entries, erase, h.filter_it hn]
  exact entries_filter_key c.lru n.key

theorem WellFormed.erase (h : c.WellFormed) (hn : n ∈ c.lru) : (c.erase n).WellFormed where
  used := by
    have hw := weight_remove (w := CachedEntry.bytes) h.distinct (h.lookup_eq hn)
    have hu := h.used
    rw [h.entries_erase hn]
    show c.usedBytes - n.entry.bytes = _
    omega
  keys := h.keys.sublist (List.filter_sublist.map _)
  its := h.its.sublist (List.filter_sublist.map _)
  map_eq k := by
    show Function.update c.map n.key none k = _
    rw [MemoryCacheLRU.erase, h.filter_it hn, find_filter_key, Function.update_apply, h.map_eq]
    split <;> rfl
  it_lt m hm := h.it_lt m (List.mem_of_mem_filter hm)

/-- A node that is spliced to the front with a new entry, whose bytes are accounted for. -/
theorem WellFormed.entries_splice (h : c.WellFormed) (hn : n ∈ c.lru) (u : ℕ) (e : CachedEntry) :
    ({ c with usedBytes := u }.splice { n with entry := e }).entries = put c.entries n.key e := by
  rw [entries, splice, put]
  simp only [List.map_cons, h.filter_it hn]
  rw [entries_filter_key, entries]

theorem WellFormed.splice (h : c.WellFormed) (hn : n ∈ c.lru) (e : CachedEntry) :
    ({ c with usedBytes := c.usedBytes - n.entry.bytes + e.bytes }.splice
      { n with entry := e }).WellFormed where
  used := by
    have hw := weight_remove (w := CachedEntry.bytes) h.distinct (h.lookup_eq hn)
    have hu := h.used
    rw [h.entries_splice hn, put]
    show c.usedBytes - n.entry.bytes + e.bytes = _
    simp only [weight, List.map_cons, List.sum_cons] at hw hu ⊢
    omega
  keys := by
    have hkeys : n.key ∉ (c.lru.filter fun m => m.key ≠ n.key).map Node.key := by simp
    show ((_ :: c.lru.filter fun m => m.it ≠ n.it).map Node.key).Nodup
    rw [h.filter_it hn]
    exact List.nodup_cons.2 ⟨hkeys, h.keys.sublist (List.filter_sublist.map _)⟩
  its := by
    have hits : n.it ∉ (c.lru.filter fun m => m.it ≠ n.it).map Node.it := by simp
    exact List.nodup_cons.2 ⟨hits, h.its.sublist (List.filter_sublist.map _)⟩
  map_eq k := by
    have hn' := find_of_nodup Node.key h.keys hn
    show c.map k = ((_ :: c.lru.filter fun m => m.it ≠ n.it).find? _).map Node.it
    rw [h.filter_it hn, List.find?_cons, find_filter_key, h.map_eq]
    by_cases hk : n.key = k
    · subst hk
      simp [hn']
    · simp [hk, Ne.symm hk]
  it_lt m hm := by
    rcases List.mem_cons.1 hm with rfl | hm
    · exact h.it_lt n hn
    · exact h.it_lt m (List.mem_of_mem_filter hm)

/-- A new node at the front, under a key that has none. -/
def pushFront (c : MemoryCacheLRU) (key : CacheKey) (e : CachedEntry) : MemoryCacheLRU :=
  { c with
    lru := ⟨c.fresh, key, e⟩ :: c.lru
    map := Function.update c.map key (some c.fresh)
    usedBytes := c.usedBytes + e.bytes
    fresh := c.fresh + 1 }

theorem WellFormed.pushFront (h : c.WellFormed) (hk : c.lru.find? (fun n => n.key = k) = none)
    (e : CachedEntry) : (c.pushFront k e).WellFormed where
  used := by
    have hu := h.used
    show c.usedBytes + e.bytes = _
    simp only [weight, entries, MemoryCacheLRU.pushFront, List.map_cons, List.sum_cons] at hu ⊢
    omega
  keys := by
    refine List.nodup_cons.2 ⟨fun hmem => ?_, h.keys⟩
    obtain ⟨n, hn, hnk⟩ := List.mem_map.1 hmem
    simpa [hnk] using List.find?_eq_none.1 hk n hn
  its := by
    refine List.nodup_cons.2 ⟨fun hmem => ?_, h.its⟩
    obtain ⟨n, hn, hit⟩ := List.mem_map.1 hmem
    exact (h.it_lt n hn).ne hit
  map_eq k' := by
    show Function.update c.map k (some c.fresh) k' = ((_ :: c.lru).find? _).map Node.it
    rw [List.find?_cons, Function.update_apply, h.map_eq]
    by_cases hk' : k' = k
    · simp [hk']
    · simp [hk', Ne.symm hk']
  it_lt m hm := by
    rcases List.mem_cons.1 hm with rfl | hm
    · exact Nat.lt_succ_self _
    · exact (h.it_lt m hm).trans (Nat.lt_succ_self _)

/-- What one iteration of `evictIfNeeded` does. -/
theorem evictIter_cases (c : MemoryCacheLRU) :
    (∃ l n, c.lru = l ++ [n] ∧ c.capBytes < c.usedBytes ∧ evictIter c = .next (c.erase n)) ∨
      ((c.lru = [] ∨ c.usedBytes ≤ c.capBytes) ∧ evictIter c = .stop c) := by
  unfold evictIter
  rcases hl : c.lru.getLast? with _ | n
  · exact .inr ⟨.inl (List.getLast?_eq_none_iff.1 hl), rfl⟩
  · obtain ⟨l, hl⟩ := List.getLast?_eq_some_iff.1 hl
    by_cases hover : c.capBytes < c.usedBytes
    · exact .inl ⟨l, n, hl, hover, if_pos hover⟩
    · exact .inr ⟨.inr (Nat.not_lt.1 hover), if_neg hover⟩

theorem exists_run_evictIter (c : MemoryCacheLRU) :
    ∃ c', run evictIter (c.lru.length + 1) c = some c' := by
  refine exists_run_eq_some (fun _ => True) (fun c => c.lru.length) (fun c c' _ hi => ?_) trivial
    (Nat.lt_succ_self _)
  refine ⟨trivial, ?_⟩
  rcases evictIter_cases c with ⟨l, n, hl, -, he⟩ | ⟨-, he⟩
  · cases he.symm.trans hi
    exact List.length_filter_lt_length_iff_exists.2 ⟨n, by simp [hl], by simp⟩
  · cases he.symm.trans hi

/-- The store is well formed, of the given capacity, and sheds to the given entries. -/
structure ShedsTo (cap : ℕ) (kept : List (CacheKey × CachedEntry)) (c : MemoryCacheLRU) : Prop where
  wellFormed : c.WellFormed
  capBytes : c.capBytes = cap
  shed_eq : shed CachedEntry.bytes cap c.entries = kept

/-- An iteration that evicts gives up the last entry, which does not fit. -/
theorem ShedsTo.erase {cap : ℕ} {kept : List (CacheKey × CachedEntry)} {l : List Node}
    (h : ShedsTo cap kept c) (hl : c.lru = l ++ [n]) (hover : c.capBytes < c.usedBytes) :
    ShedsTo cap kept (c.erase n) := by
  have hmem : n ∈ c.lru := by simp [hl]
  have hent : c.entries = l.map (fun n => (n.key, n.entry)) ++ [(n.key, n.entry)] := by
    simp [entries, hl]
  have hrem : remove c.entries n.key = l.map fun n => (n.key, n.entry) := by
    have hd := h.wellFormed.distinct
    rw [hent] at hd ⊢
    exact remove_concat (p := (n.key, n.entry)) hd
  refine ⟨h.wellFormed.erase hmem, h.capBytes, ?_⟩
  rw [h.wellFormed.entries_erase hmem, hrem, ← h.shed_eq, hent]
  refine (shed_concat ?_).symm
  rw [← hent, ← h.wellFormed.used, ← h.capBytes]
  exact hover

/-- **Eviction sheds the least recently used entries.** -/
theorem WellFormed.evictIfNeeded (h : c.WellFormed) :
    c.evictIfNeeded.WellFormed ∧ c.evictIfNeeded.capBytes = c.capBytes ∧
      c.evictIfNeeded.entries = shed CachedEntry.bytes c.capBytes c.entries := by
  obtain ⟨c', hc'⟩ := exists_run_evictIter c
  rw [MemoryCacheLRU.evictIfNeeded, hc', Option.getD_some]
  have hstart : ShedsTo c.capBytes (shed CachedEntry.bytes c.capBytes c.entries) c := ⟨h, rfl, rfl⟩
  refine Returns.of_invariant (ShedsTo c.capBytes (shed CachedEntry.bytes c.capBytes c.entries))
    (Q := fun d => d.WellFormed ∧ d.capBytes = c.capBytes ∧
      d.entries = shed CachedEntry.bytes c.capBytes c.entries)
    (returns_of_run hc') hstart (fun d d' hd hi => ?_) (fun d d' hd hi => ?_)
  · rcases evictIter_cases d with ⟨l, n, hl, hover, he⟩ | ⟨-, he⟩
    · cases he.symm.trans hi
      exact hd.erase hl hover
    · cases he.symm.trans hi
  · rcases evictIter_cases d with ⟨l, n, hl, hover, he⟩ | ⟨hfits, he⟩
    · cases he.symm.trans hi
    · cases he.symm.trans hi
      refine ⟨hd.wellFormed, hd.capBytes, ?_⟩
      rw [← hd.shed_eq]
      rcases hfits with hnil | hfits
      · rw [entries, hnil]
        rfl
      · rw [shed_of_weight_le]
        rwa [← hd.wellFormed.used, ← hd.capBytes]

theorem put_of_lookup (h : lookup c.entries k = some e) :
    put c.entries k e = touch c.entries k := by
  simp only [touch, h, put]

/-- There is no node with the key, or the node that is found has it. -/
theorem find?_cases (c : MemoryCacheLRU) (k : CacheKey) :
    ((c.lru.find? fun n => n.key = k) = none ∧ lookup c.entries k = none) ∨
      ∃ n ∈ c.lru, n.key = k ∧ (c.lru.find? fun n => n.key = k) = some n := by
  rcases hn : c.lru.find? fun n => n.key = k with _ | n
  · exact .inl ⟨hn, by rw [lookup_entries, hn, Option.map_none]⟩
  · exact .inr ⟨n, List.mem_of_find?_eq_some hn, by simpa using List.find?_some hn, hn⟩

/-- **`get` finds the entry under the key and touches it.** -/
theorem WellFormed.get (h : c.WellFormed) (k : CacheKey) :
    (c.get k).1 = lookup c.entries k ∧ (c.get k).2.WellFormed ∧
      (c.get k).2.capBytes = c.capBytes ∧ (c.get k).2.entries = touch c.entries k := by
  rw [lookup_entries, MemoryCacheLRU.get, h.bind_deref]
  rcases c.find?_cases k with ⟨hn, hl⟩ | ⟨n, hmem, rfl, hn⟩
  · rw [hn]
    refine ⟨rfl, h, rfl, ?_⟩
    rw [touch, hl]
  · rw [hn]
    have hle := h.bytes_le_used hmem
    have hsame : { c with usedBytes := c.usedBytes - n.entry.bytes + n.entry.bytes } = c := by
      rw [Nat.sub_add_cancel hle]
    have hwf := h.splice hmem n.entry
    have hent := h.entries_splice hmem c.usedBytes n.entry
    rw [hsame] at hwf
    exact ⟨rfl, hwf, rfl, hent.trans (put_of_lookup (h.lookup_eq hmem))⟩

/-- **`set` puts an entry that fits the store at the front, and evicts.** -/
theorem WellFormed.set (h : c.WellFormed) (k : CacheKey) (hfits : e.bytes ≤ c.capBytes) :
    (c.set k e).WellFormed ∧ (c.set k e).capBytes = c.capBytes ∧
      (c.set k e).entries = shed CachedEntry.bytes c.capBytes (put c.entries k e) := by
  rw [MemoryCacheLRU.set, if_neg (Nat.not_lt.2 hfits), h.bind_deref]
  rcases c.find?_cases k with ⟨hn, hl⟩ | ⟨n, hmem, rfl, hn⟩
  · have hput : (c.pushFront k e).entries = put c.entries k e := by
      rw [put, remove_of_lookup_none hl]
      rfl
    rw [hn, ← hput]
    exact (h.pushFront hn e).evictIfNeeded
  · rw [hn, ← h.entries_splice hmem]
    exact (h.splice hmem e).evictIfNeeded

theorem set_of_too_big (hbig : c.capBytes < e.bytes) : c.set k e = c := if_pos hbig

theorem WellFormed.del (h : c.WellFormed) (k : CacheKey) :
    (c.del k).WellFormed ∧ (c.del k).capBytes = c.capBytes ∧
      (c.del k).entries = remove c.entries k := by
  rw [MemoryCacheLRU.del, h.bind_deref]
  rcases c.find?_cases k with ⟨hn, hl⟩ | ⟨n, hmem, rfl, hn⟩
  · rw [hn]
    exact ⟨h, rfl, (remove_of_lookup_none hl).symm⟩
  · rw [hn]
    exact ⟨h.erase hmem, rfl, h.entries_erase hmem⟩

/-- Of the keys in `ks`, those with the prefix are gone. -/
def purged (pathPrefix : Bytes) (ks : List CacheKey) (p : CacheKey × CachedEntry) : Bool :=
  decide ¬ (pathPrefix <+: p.1.pathAndQuery ∧ p.1 ∈ ks)

/-- The loop of `purgePrefix` from a node on. -/
theorem WellFormed.purge_foldl (pathPrefix : Bytes) {ns : List Node} (h : c.WellFormed)
    (hns : ∀ n ∈ ns, n ∈ c.lru) (hnodup : (ns.map Node.it).Nodup) :
    ∃ d, ns.foldl (fun c n => if pathPrefix <+: n.key.pathAndQuery then c.erase n else c) c = d ∧
      d.WellFormed ∧ d.capBytes = c.capBytes ∧
      d.entries = c.entries.filter (purged pathPrefix (ns.map Node.key)) := by
  induction ns generalizing c with
  | nil =>
    refine ⟨c, rfl, h, rfl, (List.filter_eq_self.2 fun p _ => ?_).symm⟩
    simp [purged]
  | cons n ns ih =>
    obtain ⟨hn, hnodup⟩ := List.nodup_cons.1 hnodup
    rw [List.foldl_cons]
    by_cases hp : pathPrefix <+: n.key.pathAndQuery
    · have hmem := hns n List.mem_cons_self
      have hrest : ∀ m ∈ ns, m ∈ (c.erase n).lru := by
        intro m hm
        refine List.mem_filter.2 ⟨hns m (List.mem_cons_of_mem n hm), ?_⟩
        simpa using fun he : m.it = n.it => hn (he ▸ List.mem_map_of_mem hm)
      obtain ⟨d, hd, hwf, hcap, hent⟩ := ih (h.erase hmem) hrest hnodup
      refine ⟨d, by rw [if_pos hp, hd], hwf, hcap, ?_⟩
      rw [hent, h.entries_erase hmem, remove, List.filter_filter]
      refine List.filter_congr fun p _ => ?_
      grind [purged]
    · obtain ⟨d, hd, hwf, hcap, hent⟩ :=
        ih h (fun m hm => hns m (List.mem_cons_of_mem n hm)) hnodup
      refine ⟨d, by rw [if_neg hp, hd], hwf, hcap, ?_⟩
      rw [hent]
      refine List.filter_congr fun p _ => ?_
      grind [purged]

/-- **`purgePrefix` keeps the entries whose path does not begin with the prefix.** -/
theorem WellFormed.purgePrefix (h : c.WellFormed) (pathPrefix : Bytes) :
    (c.purgePrefix pathPrefix).WellFormed ∧ (c.purgePrefix pathPrefix).capBytes = c.capBytes ∧
      (c.purgePrefix pathPrefix).entries =
        c.entries.filter fun p => decide ¬ pathPrefix <+: p.1.pathAndQuery := by
  obtain ⟨d, hd, hwf, hcap, hent⟩ := h.purge_foldl pathPrefix (fun _ hn => hn) h.its
  rw [MemoryCacheLRU.purgePrefix, hd]
  refine ⟨hwf, hcap, ?_⟩
  rw [hent]
  refine List.filter_congr fun p hp => ?_
  obtain ⟨n, hn, rfl⟩ := List.mem_map.1 hp
  have hkey : n.key ∈ c.lru.map Node.key := List.mem_map_of_mem hn
  simp only [purged, hkey, and_true]

end MemoryCacheLRU

/-! ## Stores with their invariant -/

/-- A store as its operations build it: well formed, and within its capacity. -/
structure CacheStore where
  cache : MemoryCacheLRU
  wellFormed : cache.WellFormed
  fits : cache.usedBytes ≤ cache.capBytes

namespace CacheStore

open MemoryCacheLRU

variable {s : CacheStore} {k k' : CacheKey} {e x : CachedEntry}

def new (capBytes : ℕ) : CacheStore := ⟨.new capBytes, .new capBytes, Nat.zero_le _⟩

def capBytes (s : CacheStore) : ℕ := s.cache.capBytes

theorem fits_iff {c : MemoryCacheLRU} (h : c.WellFormed) :
    c.usedBytes ≤ c.capBytes ↔ weight CachedEntry.bytes c.entries ≤ c.capBytes := by
  rw [h.used]

theorem weight_touch (s : CacheStore) (k : CacheKey) :
    weight CachedEntry.bytes (touch s.cache.entries k) =
      weight CachedEntry.bytes s.cache.entries := by
  unfold touch
  split
  · rename_i v hv
    have := weight_remove (w := CachedEntry.bytes) s.wellFormed.distinct hv
    simp only [weight, List.map_cons, List.sum_cons] at this ⊢
    omega
  · rfl

def get (s : CacheStore) (k : CacheKey) : Option CachedEntry × CacheStore :=
  ((s.cache.get k).1, {
    cache := (s.cache.get k).2
    wellFormed := (s.wellFormed.get k).2.1
    fits := by
      obtain ⟨-, hwf, hcap, hent⟩ := s.wellFormed.get k
      rw [fits_iff hwf, hent, weight_touch, hcap]
      exact (fits_iff s.wellFormed).1 s.fits })

def set (s : CacheStore) (k : CacheKey) (e : CachedEntry) : CacheStore where
  cache := s.cache.set k e
  wellFormed := by
    by_cases h : e.bytes ≤ s.cache.capBytes
    · exact (s.wellFormed.set k h).1
    · rw [set_of_too_big (Nat.not_le.1 h)]
      exact s.wellFormed
  fits := by
    by_cases h : e.bytes ≤ s.cache.capBytes
    · obtain ⟨hwf, hcap, hent⟩ := s.wellFormed.set k h
      rw [fits_iff hwf, hent, hcap]
      exact weight_shed_le _ _ _
    · rw [set_of_too_big (Nat.not_le.1 h)]
      exact s.fits

/-- Keeping some of the entries keeps the store within its capacity. -/
theorem fits_of_filter (s : CacheStore) {c : MemoryCacheLRU} (h : c.WellFormed)
    (hcap : c.capBytes = s.cache.capBytes) {q : CacheKey × CachedEntry → Bool}
    (hent : c.entries = s.cache.entries.filter q) : c.usedBytes ≤ c.capBytes := by
  have hfits := (fits_iff s.wellFormed).1 s.fits
  rw [fits_iff h, hent, hcap]
  exact (List.Sublist.sum_le_sum (List.filter_sublist.map _) (by simp)).trans hfits

def del (s : CacheStore) (k : CacheKey) : CacheStore where
  cache := s.cache.del k
  wellFormed := (s.wellFormed.del k).1
  fits := s.fits_of_filter (s.wellFormed.del k).1 (s.wellFormed.del k).2.1
    (s.wellFormed.del k).2.2

def purgePrefix (s : CacheStore) (pathPrefix : Bytes) : CacheStore where
  cache := s.cache.purgePrefix pathPrefix
  wellFormed := (s.wellFormed.purgePrefix pathPrefix).1
  fits := s.fits_of_filter (s.wellFormed.purgePrefix pathPrefix).1
    (s.wellFormed.purgePrefix pathPrefix).2.1 (s.wellFormed.purgePrefix pathPrefix).2.2

/-- What the store holds under a key. -/
def content (s : CacheStore) (k : CacheKey) : Option CachedEntry := lookup s.cache.entries k

theorem content_new (capBytes : ℕ) (k : CacheKey) : (new capBytes).content k = none := rfl

theorem get_fst (s : CacheStore) (k : CacheKey) : (s.get k).1 = s.content k :=
  (s.wellFormed.get k).1

theorem content_get (s : CacheStore) (k k' : CacheKey) :
    (s.get k).2.content k' = s.content k' := by
  rw [content, get, (s.wellFormed.get k).2.2.2, lookup_touch, content]

theorem capBytes_get (s : CacheStore) (k : CacheKey) : (s.get k).2.capBytes = s.capBytes :=
  (s.wellFormed.get k).2.2.1

/-- An entry that fits is found where it was set; other entries are kept or evicted. -/
theorem content_set_of_fits (h : e.bytes ≤ s.capBytes) (hx : (s.set k e).content k' = some x) :
    (k' = k ∧ x = e) ∨ (k' ≠ k ∧ s.content k' = some x) := by
  rw [content, set, (s.wellFormed.set k h).2.2] at hx
  have hput := lookup_of_shed hx
  rw [lookup_put] at hput
  by_cases hk : k' = k
  · exact .inl ⟨hk, by simpa [hk] using hput.symm⟩
  · exact .inr ⟨hk, (if_neg hk).symm.trans hput⟩

theorem content_set_self (h : e.bytes ≤ s.capBytes) : (s.set k e).content k = some e := by
  rw [content, set, (s.wellFormed.set k h).2.2]
  exact lookup_shed_put h

theorem set_of_too_big (h : s.capBytes < e.bytes) : (s.set k e).content = s.content := by
  funext k'
  show lookup (s.cache.set k e).entries k' = lookup s.cache.entries k'
  rw [MemoryCacheLRU.set_of_too_big h]

theorem capBytes_set (s : CacheStore) (k : CacheKey) (e : CachedEntry) :
    (s.set k e).capBytes = s.capBytes := by
  by_cases h : e.bytes ≤ s.capBytes
  · exact (s.wellFormed.set k h).2.1
  · show (s.cache.set k e).capBytes = s.cache.capBytes
    rw [MemoryCacheLRU.set_of_too_big (Nat.not_le.1 h)]

theorem content_purgePrefix (s : CacheStore) (pathPrefix : Bytes) (k : CacheKey) :
    (s.purgePrefix pathPrefix).content k =
      if pathPrefix <+: k.pathAndQuery then none else s.content k := by
  have h := lookup_filter (fun k : CacheKey => decide ¬ pathPrefix <+: k.pathAndQuery)
    s.cache.entries k
  rw [content, purgePrefix, (s.wellFormed.purgePrefix pathPrefix).2.2, h]
  by_cases hp : pathPrefix <+: k.pathAndQuery <;> simp [hp, content]

theorem capBytes_purgePrefix (s : CacheStore) (pathPrefix : Bytes) :
    (s.purgePrefix pathPrefix).capBytes = s.capBytes :=
  (s.wellFormed.purgePrefix pathPrefix).2.1

end CacheStore

end KamaHttp
