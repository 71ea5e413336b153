import KamaHttp.Foundations.Bytes
import KamaHttp.Foundations.Ring

/-!
# Consistent hashing

The ring that spreads keys over shards (`HashRing.h`). Each shard has points on the ring, one for
each of its replicas, and where points collide the last shard has them. A key belongs to the shard
that has the next point.

* `getElem?_build_succ`: one shard more lays its points over the ring.
* `pick_build_succ`: a key stays where it is, or it moves to the new shard.
-/

namespace KamaHttp

open KamaHttp.Ring

/-- `HashRing`: the shards by their points, in the order of `std::map`. -/
structure HashRing where
  ring : Std.ExtTreeMap ℕ ℤ compare
  replicas : ℤ

namespace HashRing

def new (replicas : ℤ) : HashRing := ⟨∅, replicas⟩

/-- `h`: FNV-1a, on 64 bits. -/
def h (s : Bytes) : BitVec 64 :=
  s.foldl (fun H c => (H ^^^ c.toBitVec.setWidth 64) * 1099511628211#64) 1469598103934665603#64

/-- The point of a replica of a shard. -/
def point (s r : ℕ) : ℕ := (h (bytes "node" ++ decimal s ++ bytes "#" ++ decimal r)).toNat

/-- The inner loop of `build`: the points of the shard `s`. -/
def addShard (replicas : ℤ) (ring : Std.ExtTreeMap ℕ ℤ compare) (s : ℕ) :
    Std.ExtTreeMap ℕ ℤ compare :=
  (List.range replicas.toNat).foldl (fun ring r => ring.insert (point s r) s) ring

def build (H : HashRing) (shards : ℤ) : HashRing :=
  { H with ring := (List.range shards.toNat).foldl (addShard H.replicas) ∅ }

def pick (H : HashRing) (key : Bytes) : ℤ :=
  if H.ring.isEmpty then 0
  else
    match lowerBound (h key).toNat H.ring.toList with
    | some it => it.2
    | none => (H.ring.toList.head?.map Prod.snd).getD 0

variable (H : HashRing) (n : ℕ) (key : Bytes)

/-- `pick` goes around the ring to the next point. -/
theorem pick_eq : H.pick key = ((next (h key).toNat H.ring.toList).map Prod.snd).getD 0 := by
  rw [pick]
  split
  · rename_i hempty
    rw [Std.ExtTreeMap.isEmpty_iff.1 hempty]
    rfl
  · rw [next]
    cases lowerBound (h key).toNat H.ring.toList <;> rfl

theorem sorted_toList (ring : Std.ExtTreeMap ℕ ℤ compare) : Sorted ring.toList :=
  Std.ExtTreeMap.ordered_keys_toList.imp fun hlt => Nat.compare_eq_lt.1 hlt

/-- The points of a shard are laid over those that are there. -/
theorem getElem?_addShard (replicas : ℤ) (ring : Std.ExtTreeMap ℕ ℤ compare) (s k : ℕ) :
    (addShard replicas ring s)[k]? =
      if ∃ r < replicas.toNat, point s r = k then some (s : ℤ) else ring[k]? := by
  unfold addShard
  generalize replicas.toNat = m
  induction m with
  | zero => simp
  | succ m ih =>
    rw [List.range_succ, List.foldl_append, List.foldl_cons, List.foldl_nil,
      Std.ExtTreeMap.getElem?_insert, ih]
    simp only [Std.LawfulEqCmp.compare_eq_iff_eq, Nat.exists_lt_succ_right]
    by_cases hm : point s m = k
    · simp only [hm, or_true, if_true]
    · simp only [hm, or_false, if_false]

/-- **One shard more** lays its points over the ring. -/
theorem getElem?_build_succ (k : ℕ) :
    (H.build ((n + 1 : ℕ) : ℤ)).ring[k]? =
      if ∃ r < H.replicas.toNat, point n r = k then some (n : ℤ)
      else (H.build n).ring[k]? := by
  simp only [build, Int.toNat_natCast, List.range_succ, List.foldl_append, List.foldl_cons,
    List.foldl_nil]
  exact getElem?_addShard ..

/-- A ring has points of its own shards only. -/
theorem lt_of_getElem?_build {k : ℕ} {s : ℤ} (hk : (H.build n).ring[k]? = some s) :
    0 ≤ s ∧ s < n := by
  induction n with
  | zero => simp [build] at hk
  | succ n ih =>
    rw [getElem?_build_succ] at hk
    split at hk
    · obtain rfl := Option.some.inj hk
      omega
    · have := ih hk
      omega

/-- The shard of a key is one of the ring's, or there are none and it is zero. -/
theorem pick_build_lt (hn : 1 ≤ n) : 0 ≤ (H.build n).pick key ∧ (H.build n).pick key < n := by
  rw [pick_eq]
  rcases hnext : next (h key).toNat (H.build n).ring.toList with _ | p
  · simp only [Option.map_none, Option.getD_none]
    omega
  · have hp := ((next_eq_some_iff (sorted_toList _)).1 hnext).1
    exact lt_of_getElem?_build H n (Std.ExtTreeMap.mem_toList_iff_getElem?_eq_some.1 hp)

/-- With one shard more, a key stays where it is or moves to the new shard. -/
theorem pick_build_succ_eq :
    (H.build ((n + 1 : ℕ) : ℤ)).pick key = n ∨
      (H.build ((n + 1 : ℕ) : ℤ)).pick key = (H.build n).pick key := by
  have hmove := next_of_overlay (sorted_toList (H.build n).ring)
    (sorted_toList (H.build ((n + 1 : ℕ) : ℤ)).ring) (b := (n : ℤ)) ?_ ?_ (h key).toNat
  · simp only [pick_eq]
    refine hmove.imp (fun hnew => ?_) fun hsame => ?_
    · rw [hnew]
      rfl
    · rw [hsame]
  · -- a point that is not new was there before
    rintro ⟨k, s⟩ hq
    rw [Std.ExtTreeMap.mem_toList_iff_getElem?_eq_some, getElem?_build_succ] at hq
    split at hq
    · exact .inl (Option.some.inj hq).symm
    · exact .inr (Std.ExtTreeMap.mem_toList_iff_getElem?_eq_some.2 hq)
  · -- no point is taken away
    rintro ⟨k, s⟩ hq
    rw [Std.ExtTreeMap.mem_toList_iff_getElem?_eq_some] at hq
    have hk := getElem?_build_succ H n k
    rw [hq] at hk
    split at hk <;>
      exact ⟨_, Std.ExtTreeMap.mem_toList_iff_getElem?_eq_some.2 hk, rfl⟩

/-- **Keys move only to the new shard.** Whatever the replicas, the keys and the points that
collide: with one shard more, a key belongs to the new shard or to the one it belonged to. So the
shard of a key is one of those there are, and with one shard less only its keys move. -/
theorem pick_build_succ :
    ((H.build ((n + 1 : ℕ) : ℤ)).pick key = n ∨
        (H.build ((n + 1 : ℕ) : ℤ)).pick key = (H.build n).pick key) ∧
      (1 ≤ n → 0 ≤ (H.build n).pick key ∧ (H.build n).pick key < n) ∧
      ((H.build n).pick key ≠ (H.build ((n + 1 : ℕ) : ℤ)).pick key →
        (H.build ((n + 1 : ℕ) : ℤ)).pick key = n) := by
  have hmove := pick_build_succ_eq H n key
  exact ⟨hmove, pick_build_lt H n key, fun hne => hmove.resolve_right (Ne.symm hne)⟩

example : ((new 3).build 2).pick (bytes "a") = 1 := by decide +kernel

end HashRing

end KamaHttp
