import Mathlib.Algebra.Order.Field.Basic
import Mathlib.Tactic.Linarith
import KamaHttp.Foundations.Machine

/-!
# Token buckets

A bucket holds at most `burst` tokens and is filled at `rate`. A call takes a token where there is
one. Calls are made at times that need not be in order: a call at an earlier time than the one
before drains the bucket.

* `countP_log_le`: how many calls of a stretch are admitted, up to one that is.
* `all_admitted`: calls in order of which no interval has too many are all admitted.
-/

namespace KamaHttp

/-- A bucket: its tokens, and when they were counted. -/
structure TokenBucket (K T : Type*) where
  tokens : K
  last : T
  deriving DecidableEq

namespace TokenBucket

variable {K T : Type*} [Field K] [LinearOrder K] (time : T → K) (rate burst : K)

/-- The bucket at a time, with the tokens that have come in since the last one. -/
def fill (now : T) (b : TokenBucket K T) : TokenBucket K T :=
  ⟨min burst (b.tokens + (time now - time b.last) * rate), now⟩

/-- A call takes a token, if there is one. -/
def take : Machine T (TokenBucket K T) Bool := fun now b =>
  let b := fill time rate burst now b
  if 1 ≤ b.tokens then (true, ⟨b.tokens - 1, now⟩) else (false, b)

/-- What the bucket would have held at time zero. -/
def level (b : TokenBucket K T) : K := b.tokens - rate * time b.last

@[simp] theorem last_take (now : T) (b : TokenBucket K T) :
    (take time rate burst now b).2.last = now := by
  unfold take
  dsimp only
  split <;> rfl

/-- The tokens behind a call: one less if it was admitted. -/
theorem tokens_take (now : T) (b : TokenBucket K T) :
    (take time rate burst now b).2.tokens + (if (take time rate burst now b).1 then 1 else 0) =
      (fill time rate burst now b).tokens := by
  unfold take
  dsimp only
  split <;> simp

variable [IsStrictOrderedRing K]

theorem level_fill_le (now : T) (b : TokenBucket K T) :
    level time rate (fill time rate burst now b) ≤ level time rate b := by
  have h : (fill time rate burst now b).tokens ≤ b.tokens + (time now - time b.last) * rate :=
    min_le_right _ _
  simp only [level, fill] at h ⊢
  linarith

/-- A call that is admitted finds a token. -/
theorem tokens_nonneg_of_admitted {time : T → K} {rate burst : K} {now : T} {b : TokenBucket K T}
    (h : (take time rate burst now b).1 = true) :
    0 ≤ (take time rate burst now b).2.tokens := by
  unfold take at h ⊢
  dsimp only at h ⊢
  split at h
  · rename_i hone
    rw [if_pos hone]
    exact sub_nonneg.2 hone
  · cases h

/-- A call lowers the level by one if it is admitted, and never raises it. -/
theorem level_take_le (now : T) (b : TokenBucket K T) :
    level time rate (take time rate burst now b).2 +
        (if (take time rate burst now b).1 then 1 else 0) ≤
      level time rate (fill time rate burst now b) := by
  have h := tokens_take time rate burst now b
  simp only [level, last_take]
  change _ ≤ (fill time rate burst now b).tokens - rate * time now
  linarith

/-! ## How many calls are admitted -/

/-- The level goes down with every call that is admitted. -/
theorem level_run_le (calls : List T) (b : TokenBucket K T) :
    level time rate ((take time rate burst).run calls b) +
        (((take time rate burst).log calls b).countP (·.2) : K) ≤ level time rate b := by
  induction calls generalizing b with
  | nil => simp [Machine.run, Machine.log]
  | cons now calls ih =>
    have htake := (level_take_le time rate burst now b).trans (level_fill_le time rate burst now b)
    have hrest := ih (take time rate burst now b).2
    rw [Machine.run, Machine.log, List.countP_cons]
    push_cast
    linarith

variable {time rate burst} {b : TokenBucket K T} {calls : List T}

/-- Behind a call that is admitted the level is not below what time alone has made of it. -/
theorem le_level_run {t : T} (h : ((take time rate burst).log calls b).getLast? = some (t, true)) :
    -(rate * time t) ≤ level time rate ((take time rate burst).run calls b) := by
  rcases List.eq_nil_or_concat calls with rfl | ⟨before, now, rfl⟩
  · cases h
  rw [List.concat_eq_append, Machine.log_append] at h
  simp only [Machine.log, List.getLast?_append, List.getLast?_singleton, Option.some_or,
    Option.some.injEq, Prod.mk.injEq] at h
  obtain ⟨rfl, hadmitted⟩ := h
  rw [List.concat_eq_append, Machine.run_concat, level, last_take]
  have htokens := tokens_nonneg_of_admitted hadmitted
  linarith

/-- **How many calls of a stretch are admitted**, from one at `s` to one at `t` that is. -/
theorem countP_log_le {s t : T} (hfirst : calls.head? = some s)
    (hlast : ((take time rate burst).log calls b).getLast? = some (t, true)) :
    (((take time rate burst).log calls b).countP (·.2) : K) ≤
      burst + rate * (time t - time s) := by
  obtain ⟨rest, rfl⟩ : ∃ rest, calls = s :: rest := by
    cases calls with
    | nil => cases hfirst
    | cons now rest => exact ⟨rest, by rw [Option.some.inj hfirst]⟩
  have hlevel := le_level_run hlast
  have hrest := level_run_le time rate burst rest (take time rate burst s b).2
  have htake := level_take_le time rate burst s b
  -- the bucket at `s` is at most full
  have hfull : level time rate (fill time rate burst s b) ≤ burst - rate * time s :=
    sub_le_sub_right (min_le_left _ _) _
  rw [Machine.run] at hlevel
  rw [Machine.log, List.countP_cons]
  push_cast
  linarith

/-! ## When no call is refused -/

variable (time rate burst) in
/-- No closed interval has more calls than a full bucket at its beginning could admit. -/
def Conforms (calls : List T) : Prop :=
  ∀ s t, time s ≤ time t → ((calls.countP fun x => time s ≤ time x ∧ time x ≤ time t : ℕ) : K) ≤
    burst + rate * (time t - time s)

variable (time rate burst) in
/-- What is left in the bucket behind admitted calls: since it was full at `s`, the last of them
have taken a token each. -/
structure Taken (calls : List T) (s : T) (since : List T) (b : TokenBucket K T) : Prop where
  suffix : since <:+ calls
  le_since : ∀ x ∈ since, time s ≤ time x
  le_last : time s ≤ time b.last
  tokens : b.tokens = burst - since.length + rate * (time b.last - time s)

omit [IsStrictOrderedRing K] in
/-- The calls since `s` and one more lie between `s` and that one. -/
theorem Taken.length_since_lt {s now : T} {since : List T}
    (h : Taken time rate burst calls s since b) (hlast : time b.last ≤ time now)
    (hcalls : ∀ x ∈ calls, time x ≤ time now) :
    since.length < (calls ++ [now]).countP fun x => time s ≤ time x ∧ time x ≤ time now := by
  have hsub : (since ++ [now]).Sublist (calls ++ [now]) := h.suffix.sublist.append_right [now]
  have hall : (since ++ [now]).countP (fun x => time s ≤ time x ∧ time x ≤ time now) =
      (since ++ [now]).length := by
    rw [List.countP_eq_length]
    intro x hx
    rcases List.mem_append.1 hx with hx | hx
    · exact decide_eq_true ⟨h.le_since x hx, hcalls x (h.suffix.subset hx)⟩
    · obtain rfl := List.mem_singleton.1 hx
      exact decide_eq_true ⟨h.le_last.trans hlast, le_rfl⟩
  have hle := hsub.countP_le (p := fun x => time s ≤ time x ∧ time x ≤ time now)
  rw [hall, List.length_append, List.length_singleton] at hle
  exact hle

/-- A call that follows admitted calls and conforms with them is admitted. -/
theorem Taken.take {s now : T} {since : List T} (h : Taken time rate burst calls s since b)
    (hburst : 1 ≤ burst) (hlast : time b.last ≤ time now) (hcalls : ∀ x ∈ calls, time x ≤ time now)
    (hconforms : Conforms time rate burst (calls ++ [now])) :
    (TokenBucket.take time rate burst now b).1 = true ∧
      ∃ s' since', Taken time rate burst (calls ++ [now]) s' since'
        (TokenBucket.take time rate burst now b).2 := by
  have htokens := tokens_take time rate burst now b
  have hadmits : 1 ≤ (fill time rate burst now b).tokens →
      (TokenBucket.take time rate burst now b).1 = true := fun hone => by
    unfold TokenBucket.take
    exact congrArg Prod.fst (if_pos hone)
  rcases min_choice burst (b.tokens + (time now - time b.last) * rate) with hmin | hmin
  · -- the bucket is full again
    have hfill : (fill time rate burst now b).tokens = burst := hmin
    have hadmitted := hadmits (by rw [hfill]; exact hburst)
    rw [hadmitted, if_pos rfl, hfill] at htokens
    refine ⟨hadmitted, now, [now], List.suffix_append _ _, by simp, by simp, ?_⟩
    rw [last_take, List.length_singleton]
    push_cast
    linarith
  · have hfill : (fill time rate burst now b).tokens =
        b.tokens + (time now - time b.last) * rate := hmin
    have hsnow : time s ≤ time now := h.le_last.trans hlast
    have hcount := h.length_since_lt hlast hcalls
    have hbound := hconforms s now hsnow
    have hcast : (since.length + 1 : K) ≤
        ((calls ++ [now]).countP fun x => time s ≤ time x ∧ time x ≤ time now : ℕ) := by
      exact_mod_cast hcount
    have hone : 1 ≤ (fill time rate burst now b).tokens := by
      rw [hfill, h.tokens]
      linarith
    have hadmitted := hadmits hone
    rw [hadmitted, if_pos rfl, hfill, h.tokens] at htokens
    refine ⟨hadmitted, s, since ++ [now], List.suffix_append_self_iff.2 h.suffix, ?_, ?_, ?_⟩
    · intro x hx
      rcases List.mem_append.1 hx with hx | hx
      · exact h.le_since x hx
      · obtain rfl := List.mem_singleton.1 hx
        exact hsnow
    · rw [last_take]
      exact hsnow
    · rw [last_take, List.length_append, List.length_singleton]
      push_cast
      linarith

theorem Conforms.of_prefix {before : List T} (h : Conforms time rate burst calls)
    (hbefore : before <+: calls) : Conforms time rate burst before := fun s t hst => by
  refine le_trans ?_ (h s t hst)
  exact_mod_cast hbefore.sublist.countP_le

/-- **Calls in order are all admitted** if no interval has too many of them. -/
theorem all_admitted (hburst : 1 ≤ burst) (hfull : b.tokens = burst)
    (hstart : ∀ x ∈ calls, time b.last ≤ time x)
    (hsorted : calls.Pairwise fun x y => time x ≤ time y)
    (hconforms : Conforms time rate burst calls) :
    ∀ p ∈ (TokenBucket.take time rate burst).log calls b, p.2 = true := by
  suffices (∀ p ∈ (TokenBucket.take time rate burst).log calls b, p.2 = true) ∧
      ((TokenBucket.take time rate burst).run calls b).last ∈ b.last :: calls ∧ ∃ s since,
        Taken time rate burst calls s since ((TokenBucket.take time rate burst).run calls b) from
    this.1
  induction calls using List.reverseRecOn with
  | nil =>
    refine ⟨by simp [Machine.log], List.mem_cons_self, b.last, [], List.nil_suffix, by simp,
      le_rfl, ?_⟩
    simp [Machine.run, hfull]
  | append_singleton calls now ih =>
    have hsorted' := List.pairwise_append.1 hsorted
    obtain ⟨hall, hlast, s, since, htaken⟩ := ih
      (fun x hx => hstart x (List.mem_append_left _ hx)) hsorted'.1
      (hconforms.of_prefix (List.prefix_append _ _))
    have hcalls : ∀ x ∈ calls, time x ≤ time now := fun x hx => hsorted'.2.2 x hx now (by simp)
    have hnow : time ((TokenBucket.take time rate burst).run calls b).last ≤ time now := by
      rcases List.mem_cons.1 hlast with hb | hx
      · rw [hb]
        exact hstart now (by simp)
      · exact hcalls _ hx
    obtain ⟨hadmitted, s', since', htaken'⟩ := htaken.take hburst hnow hcalls hconforms
    rw [Machine.log_append, Machine.run_concat]
    refine ⟨fun p hp => ?_, by simp, s', since', htaken'⟩
    rcases List.mem_append.1 hp with hp | hp
    · exact hall p hp
    · obtain rfl := List.mem_singleton.1 hp
      exact hadmitted

end TokenBucket

end KamaHttp
