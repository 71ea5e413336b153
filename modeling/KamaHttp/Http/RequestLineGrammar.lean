import KamaHttp.Http.Message

/-!
# The grammar of the request line

What `processRequestLine` accepts and what it makes of it, stated on the bytes of the line: three
parts with one space between them, of which the last two are cut at the second space of the line
(`IsRequestLine`).

* `RequestLine.isRequestLine`, `IsRequestLine.exists_requestLine`: these are the lines of the
  grammar the parser is proved to read.
* `getElem?_foldl_addPair`: of the bindings of a parameter the last one counts.
* `processRequestLine_iff`: the lines that are accepted, and the request that is filled.
-/

namespace KamaHttp

open Search HttpRequest HttpContext

/-- The tokens of the methods. -/
inductive IsMethod : Bytes → Method → Prop
  | get : IsMethod (bytes "GET") .kGet
  | post : IsMethod (bytes "POST") .kPost
  | put : IsMethod (bytes "PUT") .kPut
  | delete : IsMethod (bytes "DELETE") .kDelete
  | options : IsMethod (bytes "OPTIONS") .kOptions

/-- The line is the method, the target and the version, with one space between them. -/
structure IsRequestLine (line method target version : Bytes) : Prop where
  text : line = method ++ 32 :: (target ++ 32 :: version)
  method_token : ∃ m, IsMethod method m
  space_not_mem : 32 ∉ target
  version_known : version = bytes "HTTP/1.0" ∨ version = bytes "HTTP/1.1"

/-- The pairs of an argument string: what stands before and behind the first `=` of each segment
between the `&`s that has one. -/
def queryPairs (arguments : Bytes) : List (Bytes × Bytes) :=
  (arguments.splitOn 38).filterMap (breakOn [61])

/-- What the last pair of the key binds it to. -/
def lastBinding (key : Bytes) (pairs : List (Bytes × Bytes)) : Option Bytes :=
  ((pairs.filter fun p => p.1 = key).getLast?).map Prod.snd

/-- The request says what the parts of the line say. The target is cut at its first `?`, if there
is one. -/
structure Denotes (r : HttpRequest) (method target version : Bytes) : Prop where
  method : IsMethod method r.method
  version : r.version = version
  path : r.path = target.takeWhile (· ≠ 63)
  parameters : ∀ key,
    r.queryParameters[key]? = lastBinding key (queryPairs (target.dropWhile (· ≠ 63)).tail)

theorem isMethod_iff {token : Bytes} {m : Method} :
    IsMethod token m ↔ methodOf token = m ∧ m ≠ .kInvalid := by
  constructor
  · intro h
    cases h <;> decide
  · rintro ⟨rfl, hm⟩
    unfold methodOf at hm ⊢
    split_ifs at hm ⊢ with hget hpost hput hdelete hoptions
    · exact hget ▸ .get
    · exact hpost ▸ .post
    · exact hput ▸ .put
    · exact hdelete ▸ .delete
    · exact hoptions ▸ .options
    · exact absurd rfl hm

/-! ## The lines that are accepted -/

theorem RequestLine.isRequestLine (l : RequestLine) :
    IsRequestLine l.text l.method l.target l.version where
  text := rfl
  method_token := ⟨_, isMethod_iff.2 ⟨rfl, l.method_valid⟩⟩
  space_not_mem := l.space_not_mem
  version_known := l.version_valid.symm

/-- A line without a line end that has the parts is one of the lines that the parser reads. -/
theorem IsRequestLine.exists_requestLine {line method target version : Bytes}
    (h : IsRequestLine line method target version) (hline : findCRLF line = none) :
    ∃ l : RequestLine, l.text = line ∧ l.method = method ∧ l.target = target ∧
      l.version = version := by
  obtain ⟨rfl, ⟨m, hm⟩, htarget, hversion⟩ := h
  obtain ⟨rfl, hne⟩ := isMethod_iff.1 hm
  exact ⟨⟨method, target, version, hne, htarget, hversion.symm, hline⟩, rfl, rfl, rfl, rfl⟩

/-! ## The request that is filled -/

/-- **Of the bindings of a parameter the last one counts.** -/
theorem getElem?_foldl_addPair (ps : StringMap) (segments : List Bytes) (key : Bytes) :
    (segments.foldl addPair ps)[key]? =
      (lastBinding key (segments.filterMap (breakOn [61]))).or ps[key]? := by
  induction segments using List.reverseRecOn with
  | nil => rfl
  | append_singleton segments s ih =>
    rw [List.foldl_append, List.foldl_cons, List.foldl_nil, addPair, List.filterMap_append]
    rcases hs : breakOn [61] s with _ | ⟨name, value⟩
    · simpa [hs] using ih
    · by_cases hkey : name = key
      · simp [lastBinding, hs, hkey]
      · have hcmp : compare name key ≠ .eq := fun h =>
          hkey (Std.LawfulEqCmp.compare_eq_iff_eq.1 h)
        simpa [lastBinding, hs, hkey, Std.ExtTreeMap.getElem?_insert, hcmp] using ih

theorem RequestLine.denotes_fill (l : RequestLine) :
    Denotes (l.fill HttpRequest.new) l.method l.target l.version := by
  refine ⟨isMethod_iff.2 ⟨(l.fill_method _).symm, by simpa using l.method_valid⟩, ?_, ?_, ?_⟩
  · unfold fill
    cases l.query <;> rfl
  · rw [l.fill_path, path, takeWhile_ne_eq]
  · intro key
    have hparameters : (l.fill HttpRequest.new).queryParameters =
        ((l.query.getD []).splitOn 38).foldl addPair ∅ := by
      unfold fill
      cases l.query with
      | none => rfl
      | some arguments =>
        dsimp only
        rw [setQueryParameters_eq]
        rfl
    rw [hparameters, getElem?_foldl_addPair, tail_dropWhile_ne_eq, ← query, queryPairs]
    simp

/-- **The request lines that `processRequestLine` accepts**, and the request it fills. -/
theorem processRequestLine_iff {line : Bytes} (hline : findCRLF line = none) :
    ((processRequestLine HttpRequest.new line).1 = true ↔
        ∃ method target version, IsRequestLine line method target version) ∧
      ∀ method target version, IsRequestLine line method target version →
        Denotes (processRequestLine HttpRequest.new line).2 method target version := by
  refine ⟨⟨fun h => ?_, ?_⟩, ?_⟩
  · obtain ⟨l, rfl⟩ := exists_requestLine hline h
    exact ⟨l.method, l.target, l.version, l.isRequestLine⟩
  · rintro ⟨method, target, version, h⟩
    obtain ⟨l, rfl, -⟩ := h.exists_requestLine hline
    rw [processRequestLine_text]
  · intro method target version h
    obtain ⟨l, rfl, rfl, rfl, rfl⟩ := h.exists_requestLine hline
    rw [processRequestLine_text]
    exact l.denotes_fill

/-- A line with a query that binds a parameter twice. -/
theorem processRequestLine_iff_bindings :
    Denotes (processRequestLine HttpRequest.new (bytes "GET /a?x=1&x=2&y HTTP/1.1")).2
        (bytes "GET") (bytes "/a?x=1&x=2&y") (bytes "HTTP/1.1") ∧
      lastBinding (bytes "x") (queryPairs (bytes "x=1&x=2&y")) = some (bytes "2") := by
  have hline : IsRequestLine (bytes "GET /a?x=1&x=2&y HTTP/1.1") (bytes "GET")
      (bytes "/a?x=1&x=2&y") (bytes "HTTP/1.1") := ⟨rfl, ⟨_, .get⟩, by decide, .inr rfl⟩
  exact ⟨(processRequestLine_iff rfl).2 _ _ _ hline, rfl⟩

end KamaHttp
