import Mathlib.Data.List.Induction
import Mathlib.Data.List.Infix
import Mathlib.Logic.Function.Basic
import Mathlib.Data.Nat.Notation

/-!
# Machines that answer calls

A machine answers a call and goes to a new state. `run` is the state behind a list of calls,
`answers` are the answers to them and `log` has the calls with their answers. `Along G` says of a
list of calls that each of them meets `G`, given the calls before it.

* `Along.invariant`: what holds before any call and is kept by the calls that meet `G` holds behind
  a list of such calls.
* `along_iff`: a property that a call keeps exactly if it meets `G` holds all along a list exactly
  if the list meets `G`.
* `along_concat_iff`: the next call meets a condition exactly if the call before it met another one.
* `run_map`: a machine that is the image of another answers as it does.
* `answers_eq_of_along`, `answers_eq_iff`: two machines in related states answer alike along the
  calls that meet `G`, and only along these.
* `pairwise_answers`: what an answer establishes, and all calls keep, holds of every later answer.
* `forall_answers_given`: what holds of an answer given those before it.
* `callsOn_log_keyed`: of a machine for each key, the calls on one key are answered as if there were
  no others.
-/

namespace KamaHttp

/-- What a call answers in a state, and the state behind it. -/
abbrev Machine (ι σ ο : Type*) := ι → σ → ο × σ

variable {ι σ τ ο : Type*}

/-- Every call of the list meets `G`, given the calls before it. -/
def Along (G : List ι → ι → Prop) (calls : List ι) : Prop :=
  ∀ before i after, calls = before ++ i :: after → G before i

section Along

variable {G H : List ι → ι → Prop} {I : List ι → Prop} {calls : List ι} {i : ι}

theorem along_nil (G : List ι → ι → Prop) : Along G [] := fun before i after h => by
  cases before <;> cases h

theorem along_cons :
    Along G (i :: calls) ↔ G [] i ∧ Along (fun before => G (i :: before)) calls := by
  constructor
  · intro h
    refine ⟨h [] i calls rfl, ?_⟩
    rintro before j after rfl
    exact h (i :: before) j after rfl
  · rintro ⟨hi, h⟩ (_ | ⟨k, before⟩) j after hc
    · cases hc
      exact hi
    · cases hc
      exact h before j after rfl

theorem along_concat : Along G (calls ++ [i]) ↔ Along G calls ∧ G calls i := by
  constructor
  · intro h
    refine ⟨fun before j after hc => h before j (after ++ [i]) (by simp [hc]), ?_⟩
    exact h calls i [] rfl
  · rintro ⟨h, hi⟩ before j after hc
    rcases List.eq_nil_or_concat after with rfl | ⟨after, k, rfl⟩
    · obtain ⟨rfl, hj⟩ := List.append_inj' hc rfl
      cases hj
      exact hi
    · rw [List.concat_eq_append, ← List.cons_append, ← List.append_assoc] at hc
      exact h before j after (List.append_inj' hc rfl).1

/-- **What every call that meets the condition keeps holds behind a list of them.** -/
theorem Along.invariant (hnil : I []) (hstep : ∀ calls i, I calls → G calls i → I (calls ++ [i]))
    (h : Along G calls) : I calls := by
  induction calls using List.reverseRecOn with
  | nil => exact hnil
  | append_singleton calls i ih =>
    obtain ⟨hcalls, hi⟩ := along_concat.1 h
    exact hstep calls i (ih hcalls) hi

/-- **A property that a call keeps exactly if it meets the condition** holds all along a list
exactly if every call of the list meets it. -/
theorem along_iff (hnil : I []) (hstep : ∀ calls i, I calls → (I (calls ++ [i]) ↔ G calls i)) :
    (∀ before, before <+: calls → I before) ↔ Along G calls := by
  constructor
  · rintro h before i after rfl
    have hbefore : I before := h before (List.prefix_append before _)
    have hnext : before ++ [i] <+: before ++ i :: after := ⟨after, by simp⟩
    exact (hstep before i hbefore).1 (h _ hnext)
  · rintro h before ⟨rest, rfl⟩
    have hbefore : Along G before := fun b i a hc => h b i (a ++ rest) (by simp [hc])
    exact hbefore.invariant hnil fun calls i hI hi => (hstep calls i hI).2 hi

/-- Two conditions agree all along a list, if they agree behind the calls that have met one. -/
theorem along_congr (h : ∀ calls i, Along G calls → (H calls i ↔ G calls i)) :
    Along H calls ↔ Along G calls := by
  induction calls using List.reverseRecOn with
  | nil => exact iff_of_true (along_nil H) (along_nil G)
  | append_singleton calls i ih =>
    rw [along_concat, along_concat, ih]
    exact and_congr_right fun hcalls => h calls i hcalls

/-- **What a call decides about the next one**: if a call meets `H` behind calls that met `G`
exactly if the call just before it met `G`, then a list meets `H` exactly if its calls but the last
meet `G`. -/
theorem along_concat_iff (hnil : ∀ i, H [] i)
    (hstep : ∀ calls i j, Along G calls → (H (calls ++ [i]) j ↔ G calls i)) :
    Along H (calls ++ [i]) ↔ Along G calls := by
  induction calls using List.reverseRecOn generalizing i with
  | nil => exact iff_of_true (along_concat.2 ⟨along_nil H, hnil i⟩) (along_nil G)
  | append_singleton calls j ih =>
    rw [along_concat, ih, along_concat]
    exact and_congr_right fun h => hstep calls j i h

end Along

namespace Machine

/-- The state behind the calls. -/
def run (m : Machine ι σ ο) : List ι → σ → σ
  | [], s => s
  | i :: calls, s => run m calls (m i s).2

/-- The answers to the calls. -/
def answers (m : Machine ι σ ο) : List ι → σ → List ο
  | [], _ => []
  | i :: calls, s => (m i s).1 :: answers m calls (m i s).2

variable {m : Machine ι σ ο} {m' : Machine ι τ ο} {s : σ} {t : τ} {calls : List ι}

theorem run_append (m : Machine ι σ ο) (calls more : List ι) (s : σ) :
    m.run (calls ++ more) s = m.run more (m.run calls s) := by
  induction calls generalizing s with
  | nil => rfl
  | cons i calls ih => exact ih _

theorem run_concat (m : Machine ι σ ο) (calls : List ι) (i : ι) (s : σ) :
    m.run (calls ++ [i]) s = (m i (m.run calls s)).2 := run_append m calls [i] s

theorem answers_concat (m : Machine ι σ ο) (calls : List ι) (i : ι) (s : σ) :
    m.answers (calls ++ [i]) s = m.answers calls s ++ [(m i (m.run calls s)).1] := by
  induction calls generalizing s with
  | nil => rfl
  | cons j calls ih => exact congrArg _ (ih _)

theorem answers_concat_eq_iff (calls : List ι) (i : ι) :
    m.answers (calls ++ [i]) s = m'.answers (calls ++ [i]) t ↔
      m.answers calls s = m'.answers calls t ∧
        (m i (m.run calls s)).1 = (m' i (m'.run calls t)).1 := by
  rw [answers_concat, answers_concat]
  constructor
  · intro h
    obtain ⟨h, hi⟩ := List.append_inj' h rfl
    exact ⟨h, List.head_eq_of_cons_eq hi⟩
  · rintro ⟨h, hi⟩
    rw [h, hi]

/-! ## Machines that are related -/

/-- The runs of a machine that is the image of another. -/
theorem run_map {f : σ → τ} (h : ∀ i s, m' i (f s) = ((m i s).1, f (m i s).2)) (calls : List ι)
    (s : σ) :
    m'.run calls (f s) = f (m.run calls s) ∧ m'.answers calls (f s) = m.answers calls s := by
  induction calls generalizing s with
  | nil => exact ⟨rfl, rfl⟩
  | cons i calls ih =>
    simp only [run, answers, h]
    exact ⟨(ih _).1, congrArg _ (ih _).2⟩

variable {G : List ι → ι → Prop} {R : List ι → σ → τ → Prop}

/-- **Two machines answer alike along the calls that keep their states related.** -/
theorem answers_eq_of_along (hnil : R [] s t)
    (hstep : ∀ calls i x y, R calls x y → G calls i →
      (m i x).1 = (m' i y).1 ∧ R (calls ++ [i]) (m i x).2 (m' i y).2) (h : Along G calls) :
    m.answers calls s = m'.answers calls t ∧ R calls (m.run calls s) (m'.run calls t) := by
  refine h.invariant (I := fun calls => m.answers calls s = m'.answers calls t ∧
    R calls (m.run calls s) (m'.run calls t)) ⟨rfl, hnil⟩ fun calls i hI hi => ?_
  obtain ⟨hans, hR⟩ := hI
  obtain ⟨hfst, hsnd⟩ := hstep calls i _ _ hR hi
  rw [answers_concat_eq_iff, run_concat, run_concat]
  exact ⟨⟨hans, hfst⟩, hsnd⟩

/-- **When two machines answer alike**: exactly along the calls that meet a condition, if a call in
related states is answered alike exactly if it meets the condition. -/
theorem answers_eq_iff (hnil : R [] s t)
    (hstep : ∀ calls i x y, R calls x y → ((m i x).1 = (m' i y).1 ↔ G calls i) ∧
      (G calls i → R (calls ++ [i]) (m i x).2 (m' i y).2)) :
    m.answers calls s = m'.answers calls t ↔ Along G calls := by
  constructor
  · intro h
    induction calls using List.reverseRecOn with
    | nil => exact along_nil G
    | append_singleton calls i ih =>
      obtain ⟨hans, hi⟩ := (answers_concat_eq_iff calls i).1 h
      have hcalls := ih hans
      obtain ⟨-, hR⟩ := answers_eq_of_along hnil
        (fun calls i x y hR hG => ⟨(hstep calls i x y hR).1.2 hG, (hstep calls i x y hR).2 hG⟩)
        hcalls
      exact along_concat.2 ⟨hcalls, (hstep calls i _ _ hR).1.1 hi⟩
  · intro h
    refine (answers_eq_of_along hnil (fun calls i x y hR hG => ?_) h).1
    exact ⟨(hstep calls i x y hR).1.2 hG, (hstep calls i x y hR).2 hG⟩

/-! ## What an answer establishes -/

section Established

variable {α : Type*} {n : Machine ι σ (List α)} {I : σ → Prop} {K : α → σ → Prop}
  {R : α → α → Prop}

theorem forall_answers_of_kept (hI : ∀ i s, I s → I (n i s).2)
    (hkeep : ∀ a i s, I s → K a s → K a (n i s).2 ∧ ∀ b ∈ (n i s).1, R a b) {a : α} (hs : I s)
    (ha : K a s) (calls : List ι) : ∀ b ∈ (n.answers calls s).flatten, R a b := by
  induction calls generalizing s with
  | nil =>
    intro b hb
    cases hb
  | cons i calls ih =>
    obtain ⟨hkept, hnow⟩ := hkeep a i s hs ha
    intro b hb
    rw [answers, List.flatten_cons, List.mem_append] at hb
    exact hb.elim (hnow b) (ih (hI i s hs) hkept b)

/-- **What an answer establishes**, and the calls keep, holds of every later answer. -/
theorem pairwise_answers (hI : ∀ i s, I s → I (n i s).2)
    (hone : ∀ i s, I s → (n i s).1.Pairwise R ∧ ∀ a ∈ (n i s).1, K a (n i s).2)
    (hkeep : ∀ a i s, I s → K a s → K a (n i s).2 ∧ ∀ b ∈ (n i s).1, R a b) (hs : I s)
    (calls : List ι) : (n.answers calls s).flatten.Pairwise R := by
  induction calls generalizing s with
  | nil => exact .nil
  | cons i calls ih =>
    obtain ⟨hpair, hestablished⟩ := hone i s hs
    rw [answers, List.flatten_cons, List.pairwise_append]
    refine ⟨hpair, ih (hI i s hs), fun a ha => ?_⟩
    exact forall_answers_of_kept hI hkeep (hI i s hs) (hestablished a ha) calls

/-- **What holds of an answer, given those before it**: it holds of every answer in a run, if a call
answers so and keeps what the state is, given the answers before it. -/
theorem forall_answers_given {I : List α → σ → Prop} {P : List α → α → Prop}
    (hstep : ∀ i s past, I past s → I (past ++ (n i s).1) (n i s).2 ∧
      ∀ u a v, (n i s).1 = u ++ a :: v → P (past ++ u) a) {past : List α} (hs : I past s)
    (calls : List ι) {u v : List α} {a : α}
    (h : (n.answers calls s).flatten = u ++ a :: v) : P (past ++ u) a := by
  induction calls generalizing past s u with
  | nil => exact absurd h (by simp [answers])
  | cons i calls ih =>
    obtain ⟨hnext, hnow⟩ := hstep i s past hs
    rw [answers, List.flatten_cons, List.append_eq_append_iff] at h
    rcases h with ⟨u', rfl, hrest⟩ | ⟨now, hu, ha⟩
    · rw [← List.append_assoc]
      exact ih hnext hrest
    · cases now with
      | nil =>
        rw [List.append_nil] at hu
        have hempty : (n.answers calls (n i s).2).flatten = [] ++ a :: v := ha.symm
        simpa [hu] using ih hnext hempty
      | cons b now =>
        obtain ⟨rfl, -⟩ := List.cons.inj ha
        exact hnow u a now hu

end Established

/-! ## Calls with their answers -/

/-- The calls, each with its answer. -/
def log (m : Machine ι σ ο) : List ι → σ → List (ι × ο)
  | [], _ => []
  | i :: calls, s => (i, (m i s).1) :: log m calls (m i s).2

theorem map_fst_log (m : Machine ι σ ο) (calls : List ι) (s : σ) :
    (m.log calls s).map Prod.fst = calls := by
  induction calls generalizing s with
  | nil => rfl
  | cons i calls ih => rw [log, List.map_cons, ih]

/-- A log has the answers beside the calls. -/
theorem zip_answers (m : Machine ι σ ο) (calls : List ι) (s : σ) :
    calls.zip (m.answers calls s) = m.log calls s := by
  induction calls generalizing s with
  | nil => rfl
  | cons i calls ih => rw [answers, List.zip_cons_cons, ih, log]

theorem log_eq_of_answers_eq (h : m.answers calls s = m'.answers calls t) :
    m.log calls s = m'.log calls t := by
  rw [← zip_answers, h, zip_answers]

theorem log_append (m : Machine ι σ ο) (calls more : List ι) (s : σ) :
    m.log (calls ++ more) s = m.log calls s ++ m.log more (m.run calls s) := by
  induction calls generalizing s with
  | nil => rfl
  | cons i calls ih => exact congrArg _ (ih _)

/-- A part of a log is the log of its calls, in the state behind the calls before it. -/
theorem exists_log_of_infix {part : List (ι × ο)} (h : part <:+: m.log calls s) :
    ∃ before, part = m.log (part.map Prod.fst) (m.run before s) ∧
      before ++ part.map Prod.fst <+: calls := by
  obtain ⟨front, back, hlog⟩ := h
  have hcalls : calls = front.map Prod.fst ++ (part.map Prod.fst ++ back.map Prod.fst) := by
    rw [← map_fst_log m calls s, ← hlog, List.map_append, List.map_append, List.append_assoc]
  refine ⟨front.map Prod.fst, ?_, back.map Prod.fst, by rw [hcalls, List.append_assoc]⟩
  rw [hcalls, log_append, log_append, List.append_assoc] at hlog
  have hlength : front.length = (m.log (front.map Prod.fst) s).length := by
    have hmap := congrArg List.length (map_fst_log m (front.map Prod.fst) s)
    rwa [List.length_map, List.length_map, eq_comm] at hmap
  have hrest := (List.append_inj hlog hlength).2
  refine (List.append_inj hrest ?_).1
  have hmap := congrArg List.length (map_fst_log m (part.map Prod.fst)
    (m.run (front.map Prod.fst) s))
  rwa [List.length_map, List.length_map, eq_comm] at hmap

/-! ## A machine for each key -/

section Keyed

variable {κ : Type*} [DecidableEq κ]

/-- The machine for each key. -/
def keyed (m : Machine ι σ ο) : Machine (κ × ι) (κ → σ) ο := fun c f =>
  ((m c.2 (f c.1)).1, Function.update f c.1 (m c.2 (f c.1)).2)

/-- The calls on a key, with what stands beside them. -/
def callsOn {α : Type*} (k : κ) (calls : List ((κ × ι) × α)) : List (ι × α) :=
  (calls.filter fun c => c.1.1 = k).map fun c => (c.1.2, c.2)

/-- **Calls on one key are answered as if there were no others.** -/
theorem callsOn_log_keyed (m : Machine ι σ ο) (k : κ) (calls : List (κ × ι)) (f : κ → σ) :
    callsOn k (m.keyed.log calls f) =
      m.log ((calls.filter fun c => c.1 = k).map Prod.snd) (f k) := by
  induction calls generalizing f with
  | nil => rfl
  | cons c calls ih =>
    obtain ⟨k', i⟩ := c
    have ih' := ih (m.keyed (k', i) f).2
    by_cases hk : k' = k
    · subst hk
      simp only [callsOn, log, List.filter_cons, decide_true, if_true, List.map_cons] at ih' ⊢
      rw [ih']
      simp [keyed]
    · simp only [callsOn, log, List.filter_cons, hk, decide_false, Bool.false_eq_true,
        if_false] at ih' ⊢
      rw [ih']
      simp [keyed, Ne.symm hk]

end Keyed

end Machine

end KamaHttp
