import Mathlib.Data.Rat.Cast.Order
import KamaHttp.Foundations.Bytes
import KamaHttp.Foundations.TokenBucket

/-!
# The rate limiter

`RateLimiter.h`: a token bucket for each key, over rationals where the source has `double`. The
clock is read before the lock is taken, so the samples of the calls, in the order in which they get
the lock, need not be in order. A bucket whose last sample is zero has not been used.

* `log_allow`: the calls on a key are those of a token bucket that is full at the first of them.
* `allow_bounds`: how many calls on a key are admitted, when none is refused, and that calls on
  other keys do not matter.
-/

namespace KamaHttp

open TokenBucket

/-- `Bucket`: tokens, and a sample of the steady clock in nanoseconds. -/
abbrev Bucket := TokenBucket ℚ ℤ

/-- A sample in seconds. -/
def Bucket.seconds (t : ℤ) : ℚ := t / 10 ^ 9

/-- `allow`, on the bucket of its key. -/
def Bucket.allow (rate burst : ℚ) : Machine ℤ Bucket Bool := fun now b =>
  let b : Bucket := if b.last = 0 then ⟨burst, now⟩ else b
  let delta : ℚ := ((now - b.last : ℤ) : ℚ) / 10 ^ 9
  let b : Bucket := ⟨min burst (b.tokens + delta * rate), now⟩
  if 1 ≤ b.tokens then (true, { b with tokens := b.tokens - 1 }) else (false, b)

/-- The buckets by key. One that has not been used is the zero of its type. -/
abbrev Buckets := Bytes → Bucket

namespace Buckets

def new : Buckets := fun _ => ⟨0, 0⟩

/-- `allow`, on a key and a sample of the clock, in the order in which the lock is taken. -/
def allow (rate burst : ℚ) : Machine (Bytes × ℤ) Buckets Bool := (Bucket.allow rate burst).keyed

/-- The samples of the calls on a key, each with what it was answered. -/
def answered (rate burst : ℚ) (key : Bytes) (calls : List (Bytes × ℤ)) : List (ℤ × Bool) :=
  Machine.callsOn key ((allow rate burst).log calls new)

end Buckets

/-- The bounds on calls in the order of the lock. In a stretch from one at `s` to one at `t` that is
admitted, no more are admitted than a full bucket at `s` allows until `t`. If the samples are in
order and no interval has more calls than that, none is refused. -/
structure Limits (rate burst : ℚ) (answered : List (ℤ × Bool)) : Prop where
  admitted : ∀ stretch s t, stretch <:+: answered → (stretch.map Prod.fst).head? = some s →
    stretch.getLast? = some (t, true) →
    (stretch.countP (·.2) : ℚ) ≤ burst + rate * (Bucket.seconds t - Bucket.seconds s)
  unrefused : (answered.map Prod.fst).Pairwise (· ≤ ·) →
    Conforms Bucket.seconds rate burst (answered.map Prod.fst) → ∀ p ∈ answered, p.2 = true

variable {rate burst : ℚ} {calls : List ℤ}

namespace Bucket

theorem allow_eq (now : ℤ) (b : Bucket) :
    Bucket.allow rate burst now b =
      take Bucket.seconds rate burst now (if b.last = 0 then ⟨burst, now⟩ else b) := by
  have hdelta : ∀ b : Bucket,
      ((now - b.last : ℤ) : ℚ) / 10 ^ 9 = Bucket.seconds now - Bucket.seconds b.last := by
    intro b
    rw [Bucket.seconds, Bucket.seconds, ← sub_div, Int.cast_sub]
  simp only [Bucket.allow, hdelta]
  rfl

/-- A bucket that has been used is a token bucket. -/
theorem log_allow_of_used (hcalls : ∀ t ∈ calls, 0 < t) {b : Bucket} (hb : b.last ≠ 0) :
    (Bucket.allow rate burst).log calls b = (take Bucket.seconds rate burst).log calls b := by
  induction calls generalizing b with
  | nil => rfl
  | cons now calls ih =>
    have hstep : Bucket.allow rate burst now b = take Bucket.seconds rate burst now b := by
      rw [allow_eq, if_neg hb]
    have hnow : now ≠ 0 := (hcalls now List.mem_cons_self).ne'
    rw [Machine.log, Machine.log, hstep,
      ih (fun t ht => hcalls t (List.mem_cons_of_mem now ht)) (by rwa [last_take])]

/-- **The calls on a bucket are those of a token bucket**, which is full at the first of them if the
bucket has not been used. -/
theorem log_allow (hcalls : ∀ t ∈ calls, 0 < t) (b : Bucket) :
    (Bucket.allow rate burst).log calls b =
      (take Bucket.seconds rate burst).log calls
        (if b.last = 0 then ⟨burst, calls.headD 0⟩ else b) := by
  cases calls with
  | nil => rfl
  | cons now calls =>
    have hnow : now ≠ 0 := (hcalls now List.mem_cons_self).ne'
    have hrest : ∀ t ∈ calls, 0 < t := fun t ht => hcalls t (List.mem_cons_of_mem now ht)
    rw [Machine.log, Machine.log, allow_eq, List.headD_cons,
      log_allow_of_used hrest (by rwa [last_take])]

end Bucket

/-- **The bounds of the rate limiter** hold for the calls on a key, and calls on other keys do not
matter. -/
theorem allow_bounds (hburst : 1 ≤ burst) {calls : List (Bytes × ℤ)}
    (hpos : ∀ c ∈ calls, 0 < c.2) (key : Bytes) :
    Limits rate burst (Buckets.answered rate burst key calls) ∧
      ∀ calls', calls'.filter (fun c => c.1 = key) = calls.filter (fun c => c.1 = key) →
        Buckets.answered rate burst key calls' = Buckets.answered rate burst key calls := by
  have hanswered : ∀ calls, Buckets.answered rate burst key calls =
      (Bucket.allow rate burst).log ((calls.filter fun c => c.1 = key).map Prod.snd) ⟨0, 0⟩ :=
    fun calls => Machine.callsOn_log_keyed _ key calls Buckets.new
  have hcalls : ∀ t ∈ (calls.filter fun c => c.1 = key).map Prod.snd, 0 < t := by
    intro t ht
    obtain ⟨c, hc, rfl⟩ := List.mem_map.1 ht
    exact hpos c (List.mem_filter.1 hc).1
  refine ⟨⟨fun stretch s t hstretch hfirst hlast => ?_, fun hsorted hconforms => ?_⟩,
    fun calls' h => by rw [hanswered, hanswered, h]⟩
  · rw [hanswered] at hstretch
    obtain ⟨before, hlog, hprefix⟩ := Machine.exists_log_of_infix hstretch
    have hpart : ∀ t ∈ stretch.map Prod.fst, 0 < t := fun t ht =>
      hcalls t ( hprefix.subset (List.mem_append_right before ht))
    rw [Bucket.log_allow hpart] at hlog
    rw [hlog] at hlast ⊢
    exact countP_log_le hfirst hlast
  · rw [hanswered, Machine.map_fst_log] at hsorted hconforms
    rw [hanswered, Bucket.log_allow hcalls, if_pos rfl]
    generalize (calls.filter fun c => c.1 = key).map Prod.snd = samples at hsorted hconforms
    have hmono : ∀ s t : ℤ, s ≤ t → Bucket.seconds s ≤ Bucket.seconds t := fun s t hst =>
      div_le_div_of_nonneg_right (Int.cast_le.2 hst) (by norm_num)
    refine all_admitted hburst rfl ?_ (hsorted.imp fun h => hmono _ _ h) hconforms
    intro t ht
    cases samples with
    | nil => cases ht
    | cons first rest =>
      rcases List.mem_cons.1 ht with rfl | ht
      · exact le_rfl
      · exact hmono _ _ (List.rel_of_pairwise_cons hsorted ht)

/-- The calls of two clients, one of which is out of order. -/
def someCalls : List (Bytes × ℤ) :=
  [(bytes "a", 2000000000), (bytes "a", 1000000000), (bytes "b", 1), (bytes "a", 2500000000)]

theorem allow_bounds_some :
    Limits 1 2 (Buckets.answered 1 2 (bytes "a") someCalls) ∧
      Buckets.answered 1 2 (bytes "a") someCalls =
        [(2000000000, true), (1000000000, false), (2500000000, true)] :=
  ⟨(allow_bounds (by norm_num) (by simp [someCalls]) (bytes "a")).1, by decide +kernel⟩

end KamaHttp
