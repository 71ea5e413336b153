import KamaHttp.Foundations.Positions
import KamaHttp.Http.RequestLineGrammar

/-!
# The loop of `setQueryParameters`

The loop as it is written, over positions in the argument string, with the last segment treated
behind it, and what it is to compute: the segments between the `&`s, folded from the left.

* `bindPair_eq`: what stands twice in the source binds what a segment is to bind, and no `substr` of
  it is out of range.
* `returns_splitIter`: the loop over positions leaves, with the result of the loop that cuts off one
  segment after the other.
* `setQueryParameters_split`: the parameters are those of the fold, whose last binding of a key
  counts.
-/

namespace KamaHttp.HttpRequest

open Search Loop

/-! ## The loop -/

/-- The lines that stand in the loop, for `pair`, and behind it, for `lastPair`. There is no result
when a `substr` is out of range. -/
def bindPair (ps : StringMap) (pair : Bytes) : Option StringMap :=
  match find 61 pair 0 with
  | some equalPos =>
    match substr pair 0 (some equalPos), substr pair (equalPos + 1) none with
    | some key, some value => some (ps.insert key value)
    | _, _ => none
  | none => some ps

/-- One iteration of the loop, on the parameters and `prev`. -/
def splitIter (argumentStr : Bytes) : StringMap × ℕ → Step (StringMap × ℕ) (Option StringMap)
  | (ps, prev) =>
    match find 38 argumentStr prev with
    | some pos =>
      match (substr argumentStr prev (some (pos - prev))).bind (bindPair ps) with
      | some ps => .next (ps, pos + 1)
      | none => .stop none
    | none => .stop ((substr argumentStr prev none).bind (bindPair ps))

/-! ## The fold -/

/-- What a segment binds: the text before its first `=` to the text behind it. -/
def binding (segment : Bytes) : Option (Bytes × Bytes) :=
  if 61 ∈ segment then some (segment.takeWhile (· ≠ 61), (segment.dropWhile (· ≠ 61)).tail)
  else none

/-- The parameters, overridden by what a segment binds. -/
def override (ps : StringMap) (segment : Bytes) : StringMap :=
  match binding segment with
  | some (key, value) => ps.insert key value
  | none => ps

theorem binding_eq (segment : Bytes) : binding segment = breakOn [61] segment := by
  rw [binding, takeWhile_ne_eq, tail_dropWhile_ne_eq]
  rcases h : breakOn [61] segment with _ | ⟨key, value⟩
  · rw [if_neg (breakOn_singleton_none.1 h)]
  · have hmem : (61 : UInt8) ∈ segment := by
      rw [(breakOn_singleton_iff.1 h).1]
      simp
    rw [if_pos hmem]
    rfl

theorem override_eq (ps : StringMap) (segment : Bytes) :
    override ps segment = addPair ps segment := by
  rw [override, binding_eq]
  rfl

/-! ## The loop computes the fold -/

theorem bindPair_eq (ps : StringMap) (pair : Bytes) :
    bindPair ps pair = some (addPair ps pair) := by
  rcases h : breakOn [61] pair with _ | ⟨key, value⟩
  · have hfind : find 61 pair 0 = none := find_eq_none_iff.2 h
    simp only [bindPair, hfind, addPair, h]
  · have hcut : breakOn [61] (pair.drop 0) = some (key, value) := h
    have hfind := find_of_breakOn hcut
    have hkey := substr_of_breakOn hcut
    have hvalue := substr_to_end (length_of_breakOn hcut)
    rw [Nat.succ_eq_add_one, drop_of_breakOn hcut] at hvalue
    rw [Nat.zero_add] at hfind hvalue
    simp only [bindPair, hfind, hkey, hvalue, addPair, h]

/-- **The loop over positions leaves**, with the result of the loop that cuts off one segment after
the other. -/
theorem returns_splitIter (ps : StringMap) (s : Bytes) :
    Returns (splitIter s) (ps, 0) (some ((s.splitOn 38).foldl addPair ps)) := by
  -- the position is where the rest of the string begins
  let R : StringMap × Bytes → StringMap × ℕ → Prop := fun p q =>
    q.1 = p.1 ∧ q.2 ≤ s.length ∧ s.drop q.2 = p.2
  have hstep : ∀ p q, R p q →
      Step.Rel R (fun ps qs => qs = some ps) (queryIter p) (splitIter s q) := by
    rintro ⟨ps, rest⟩ ⟨_, prev⟩ ⟨rfl, hprev, rfl⟩
    rcases h : breakOn [38] (s.drop prev) with _ | ⟨pair, rest⟩
    · simp only [queryIter, h, splitIter, find_eq_none_iff.2 h]
      refine .stop ?_
      rw [substr_to_end hprev, Option.bind_some, bindPair_eq]
    · simp only [queryIter, h, splitIter, find_of_breakOn h, Nat.add_sub_cancel_left,
        substr_of_breakOn h, Option.bind_some, bindPair_eq]
      exact .next ⟨rfl, length_of_breakOn h, drop_of_breakOn h⟩
  obtain ⟨qs, hqs, rfl⟩ :=
    (returns_queryIter ps s).simulate hstep (t := (ps, 0)) ⟨rfl, Nat.zero_le _, rfl⟩
  exact hqs

/-- **The parameters are those of the fold** over the segments, for any prior parameters: of the
bindings of a key the last one counts, and a key that is not bound keeps its prior value. -/
theorem setQueryParameters_split (r : HttpRequest) (s : Bytes) :
    Returns (splitIter s) (r.queryParameters, 0) (some (r.setQueryParameters s).queryParameters) ∧
      r.setQueryParameters s =
        { r with queryParameters := (s.splitOn 38).foldl override r.queryParameters } ∧
      ∀ key, (r.setQueryParameters s).queryParameters[key]? =
        (lastBinding key ((s.splitOn 38).filterMap binding)).or r.queryParameters[key]? := by
  have hoverride : override = addPair := funext₂ override_eq
  have hbinding : binding = breakOn [61] := funext binding_eq
  rw [setQueryParameters_eq, hoverride, hbinding]
  exact ⟨returns_splitIter r.queryParameters s, rfl, getElem?_foldl_addPair r.queryParameters _⟩

end KamaHttp.HttpRequest
