import KamaHttp.Foundations.Search

/-!
# Searches in a list of pieces

A list that is cut at every delimiter is a list of pieces without it. What stands past a key between
two delimiters, or past another element, is found in the pieces.

* `past_enclosed`: past a key between two delimiters.
* `past_intercalate`: past another element.
* `second_intercalate`: what stands between the next two delimiters.
-/

namespace KamaHttp.Search

variable {α : Type*} [DecidableEq α]

/-- The pieces behind the first that is the key, and is not the last. -/
def behind (k : List α) : List (List α) → Option (List (List α))
  | p :: q :: ps => if p = k then some (q :: ps) else behind k (q :: ps)
  | _ => none

/-- The pieces, from behind the first occurrence of an element in one of them. -/
def cut (d : α) : List (List α) → Option (List (List α))
  | [] => none
  | p :: ps =>
    match past [d] p with
    | some r => some (r :: ps)
    | none => cut d ps

/-- The second piece, if it is not the last. -/
def second : List (List α) → Option (List α)
  | _ :: s :: _ :: _ => some s
  | _ => none

variable {c d : α} {k l u v : List α} {as ps qs : List (List α)}

/-! ## The list of pieces -/

omit [DecidableEq α] in
theorem intercalate_append (has : as ≠ []) (hps : ps ≠ []) :
    [c].intercalate (as ++ ps) = [c].intercalate as ++ c :: [c].intercalate ps := by
  induction as with
  | nil => exact absurd rfl has
  | cons a as ih =>
    cases as with
    | nil =>
      rw [List.singleton_append, List.intercalate_cons_of_ne_nil hps, List.intercalate_singleton,
        List.append_assoc, List.singleton_append]
    | cons b as =>
      have htail := ih (List.cons_ne_nil b as)
      rw [List.cons_append] at htail
      rw [List.cons_append, List.cons_append, List.intercalate_cons_cons, htail,
        List.intercalate_cons_cons, List.append_assoc (a ++ [c])]

omit [DecidableEq α] in
theorem intercalate_append_cons (u v : List α) (ps : List (List α)) :
    [c].intercalate ((u ++ v) :: ps) = u ++ [c].intercalate (v :: ps) := by
  cases ps with
  | nil => rw [List.intercalate_singleton, List.intercalate_singleton]
  | cons q ps => simp [List.intercalate_cons_cons]

/-! ## A key between two delimiters -/

/-- A pattern does not begin where its first element is not. -/
theorem past_append_of_not_mem {p : List α} (hu : c ∉ u) (l : List α) :
    past (c :: p) (u ++ l) = past (c :: p) l := by
  induction u with
  | nil => rfl
  | cons a u ih =>
    have hne : c ≠ a := fun he => hu (he ▸ List.mem_cons_self)
    rw [← ih fun h => hu (List.mem_cons_of_mem a h), List.cons_append, past, breakOn_cons,
      if_neg (by simp [hne]), Option.map_map]
    rfl

/-- Behind a delimiter without another, there is no key. -/
theorem past_enclosed_last (hu : c ∉ u) (hv : c ∉ v) :
    past (c :: (k ++ [c])) (u ++ c :: v) = none := by
  have hprefix : ¬ c :: (k ++ [c]) <+: c :: v := fun h =>
    hv ((List.cons_prefix_cons.1 h).2.subset (by simp))
  have hrest : past (c :: (k ++ [c])) (v ++ []) = none := by
    rw [past_append_of_not_mem hv]
    simp [past, breakOn]
  rw [List.append_nil] at hrest
  rw [past_append_of_not_mem hu, past, breakOn_cons, if_neg hprefix, Option.map_map]
  exact hrest

/-- Between the first two delimiters there is the key, or it is looked for from the second on. -/
theorem past_enclosed_cons (hk : c ∉ k) (hu : c ∉ u) (hv : c ∉ v) (l : List α) :
    past (c :: (k ++ [c])) (u ++ c :: (v ++ c :: l)) =
      if v = k then some l else past (c :: (k ++ [c])) (v ++ c :: l) := by
  rw [past_append_of_not_mem hu]
  split
  · rename_i hvk
    subst hvk
    have hhere : c :: (v ++ [c]) <+: c :: (v ++ c :: l) := ⟨l, by simp⟩
    rw [past, breakOn_here hhere]
    simp
  · rename_i hvk
    have hprefix : ¬ c :: (k ++ [c]) <+: c :: (v ++ c :: l) := by
      rintro ⟨t, ht⟩
      have hcut := breakOn_singleton hk t
      rw [List.cons_append, List.append_assoc, List.singleton_append] at ht
      rw [(List.cons.inj ht).2, breakOn_singleton hv] at hcut
      exact hvk (Prod.mk.inj (Option.some.inj hcut)).1
    rw [past, breakOn_cons, if_neg hprefix, Option.map_map]
    rfl

/-- **Past a key between two delimiters** stand the pieces behind the first one that is the key. -/
theorem past_enclosed (hk : c ∉ k) (hu : c ∉ u) (hps : ∀ p ∈ ps, c ∉ p) :
    past (c :: (k ++ [c])) ([c].intercalate (u :: ps)) = (behind k ps).map [c].intercalate := by
  induction ps generalizing u with
  | nil =>
    rw [List.intercalate_singleton, ← List.append_nil u, past_append_of_not_mem hu]
    simp [past, breakOn, behind]
  | cons p ps ih =>
    obtain ⟨hp, hps⟩ := List.forall_mem_cons.1 hps
    rw [List.intercalate_cons_cons, List.append_assoc, List.singleton_append]
    cases ps with
    | nil =>
      rw [List.intercalate_singleton, past_enclosed_last hu hp]
      rfl
    | cons q ps =>
      rw [List.intercalate_cons_cons, List.append_assoc, List.singleton_append,
        past_enclosed_cons hk hu hp, behind]
      split
      · rfl
      · rw [← ih hp hps, List.intercalate_cons_cons, List.append_assoc, List.singleton_append]

theorem behind_append (h : k ∉ as) (q : List α) (qs : List (List α)) :
    behind k (as ++ q :: qs) = behind k (q :: qs) := by
  induction as with
  | nil => rfl
  | cons a as ih =>
    have hne : a ≠ k := fun he => h (he ▸ List.mem_cons_self)
    rw [← ih fun h' => h (List.mem_cons_of_mem a h')]
    cases as with
    | nil => simp [behind, hne]
    | cons b as => simp [behind, hne]

theorem behind_self (q : List α) (qs : List (List α)) : behind k (k :: q :: qs) = some (q :: qs) :=
  if_pos rfl

theorem behind_of_not_mem (h : k ∉ ps) : behind k ps = none := by
  rcases ps.eq_nil_or_concat' with rfl | ⟨as, q, rfl⟩
  · rfl
  · exact behind_append (fun hk => h (List.mem_append_left _ hk)) q []

theorem suffix_of_behind (h : behind k ps = some qs) : qs <:+ ps := by
  induction ps with
  | nil => cases h
  | cons p ps ih =>
    cases ps with
    | nil => cases h
    | cons q ps =>
      rw [behind] at h
      split at h
      · exact ⟨[p], congrArg (p :: ·) (Option.some.inj h).symm⟩
      · exact (ih h).trans (List.suffix_cons p _)

/-! ## Another element -/

/-- **Past another element** stand the pieces from behind it. -/
theorem past_intercalate (hdc : d ≠ c) (ps : List (List α)) :
    past [d] ([c].intercalate ps) = (cut d ps).map [c].intercalate := by
  induction ps with
  | nil => simp [past, breakOn, cut]
  | cons p ps ih =>
    rcases hp : breakOn [d] p with _ | ⟨u, v⟩
    · have hmem : d ∉ p := breakOn_singleton_none.1 hp
      cases ps with
      | nil => simp [cut, past, hp]
      | cons q ps =>
        have hmem' : d ∉ p ++ [c] := by simp [hmem, hdc]
        rw [List.intercalate_cons_cons, past_append_of_not_mem hmem', ih]
        simp [cut, past, hp]
    · obtain ⟨rfl, hu⟩ := breakOn_singleton_iff.1 hp
      cases ps with
      | nil => simp [cut, past_singleton hu]
      | cons q ps => simp [cut, past_singleton hu, List.intercalate_cons_cons]

theorem cut_cons (hu : d ∉ u) (v : List α) (ps : List (List α)) :
    cut d ((u ++ d :: v) :: ps) = some (v :: ps) := by
  rw [cut, past_singleton hu]

theorem cut_cons_of_not_mem (hu : d ∉ u) (ps : List (List α)) : cut d (u :: ps) = cut d ps := by
  rw [cut, past_singleton_none hu]

/-- The pieces from behind an element have no more delimiters than before. -/
theorem not_mem_of_cut (hps : ∀ p ∈ ps, c ∉ p) (h : cut d ps = some qs) : ∀ q ∈ qs, c ∉ q := by
  induction ps with
  | nil => cases h
  | cons p ps ih =>
    obtain ⟨hp, hrest⟩ := List.forall_mem_cons.1 hps
    rw [cut] at h
    rcases hcut : breakOn [d] p with _ | ⟨u, v⟩
    · simp only [past, hcut, Option.map_none] at h
      exact ih hrest h
    · simp only [past, hcut, Option.map_some, Option.some.injEq] at h
      obtain ⟨rfl, -⟩ := breakOn_singleton_iff.1 hcut
      rw [← h]
      exact List.forall_mem_cons.2 ⟨fun hv => hp (by simp [hv]), hrest⟩

/-! ## Between the next delimiters -/

/-- **Between the next two delimiters** stands the second piece. -/
theorem second_intercalate (hps : ∀ p ∈ ps, c ∉ p) :
    ((past [c] ([c].intercalate ps)).bind fun rest => (breakOn [c] rest).map Prod.fst) =
      second ps := by
  rcases ps with _ | ⟨p, _ | ⟨s, _ | ⟨q, ps⟩⟩⟩
  · simp [past, breakOn, second]
  · rw [List.intercalate_singleton, past_singleton_none (hps p List.mem_cons_self)]
    rfl
  · rw [List.intercalate_cons_cons, List.append_assoc, List.singleton_append,
      past_singleton (hps p (by simp)), Option.bind_some, List.intercalate_singleton,
      breakOn_singleton_none.2 (hps s (by simp))]
    rfl
  · rw [List.intercalate_cons_cons, List.append_assoc, List.singleton_append,
      past_singleton (hps p (by simp)), Option.bind_some, List.intercalate_cons_cons,
      List.append_assoc, List.singleton_append, breakOn_singleton (hps s (by simp))]
    rfl

end KamaHttp.Search
