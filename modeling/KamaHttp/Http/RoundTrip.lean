import Mathlib.Data.List.Nodup
import KamaHttp.Http.Message

/-!
# What is rendered is parsed back

Requests as values (`RequestValue`): a method, a path, the pairs of a query, a version, headers and
a body, none of them with the delimiters of its own place. A body may contain anything, and so may a
value contain the delimiters of other places.

* `setQueryParameters_queryText`: the loop over the arguments reads the pairs back.
* `isMapOf_headers`: the headers that are added are those of the value.
* `parse_text`: the parser reads the rendering of a value back, and leaves what comes behind it.
-/

namespace KamaHttp

open Search Loop HttpRequest HttpContext

/-! ## Lines without line ends -/

/-- A line end does not arise where two lines are put together with a byte between them that is no
part of one. -/
theorem findCRLF_append_cons {u v : Bytes} {b : Byte} (hb : b ≠ 13 ∧ b ≠ 10)
    (hu : findCRLF u = none) (hv : findCRLF v = none) : findCRLF (u ++ b :: v) = none := by
  rw [findCRLF, breakOn_eq_none_iff] at *
  induction u with
  | nil =>
    rw [List.nil_append, List.infix_cons_iff, not_or]
    refine ⟨fun hp => ?_, hv⟩
    exact hb.1 (List.cons_prefix_cons.1 hp).1.symm
  | cons a u ih =>
    rw [List.infix_cons_iff, not_or] at hu
    rw [List.cons_append, List.infix_cons_iff, not_or]
    refine ⟨fun hp => ?_, ih hu.2⟩
    cases u with
    | nil =>
      obtain ⟨-, hp⟩ := List.cons_prefix_cons.1 hp
      exact hb.2 (List.cons_prefix_cons.1 hp).1.symm
    | cons a' u =>
      obtain ⟨ha, hp⟩ := List.cons_prefix_cons.1 hp
      obtain ⟨ha', -⟩ := List.cons_prefix_cons.1 hp
      exact hu.1 ⟨u, by rw [← ha, ← ha']; rfl⟩

/-! ## Maps from pairs -/

/-- The map has the pairs and nothing else. -/
def IsMapOf (m : StringMap) (l : List (Bytes × Bytes)) : Prop :=
  ∀ key value, m[key]? = some value ↔ (key, value) ∈ l

/-- The pairs put into a map, one after the other. -/
def insertPairs (m : StringMap) (l : List (Bytes × Bytes)) : StringMap :=
  l.foldl (fun m p => m.insert p.1 p.2) m

theorem getElem?_insertPairs {m : StringMap} {l : List (Bytes × Bytes)}
    (hl : (l.map Prod.fst).Nodup) (key value : Bytes) :
    (insertPairs m l)[key]? = some value ↔
      (key, value) ∈ l ∨ (key ∉ l.map Prod.fst ∧ m[key]? = some value) := by
  induction l generalizing m with
  | nil => simp [insertPairs]
  | cons p l ih =>
    obtain ⟨hp, hl⟩ := List.nodup_cons.1 hl
    have hcons : insertPairs m (p :: l) = insertPairs (m.insert p.1 p.2) l := rfl
    rw [hcons, ih hl, Std.ExtTreeMap.getElem?_insert]
    by_cases hk : p.1 = key
    · subst hk
      have hmem : ∀ v, (p.1, v) ∉ l := fun v hv => hp (List.mem_map.2 ⟨_, hv, rfl⟩)
      have hcmp : compare p.1 p.1 = .eq := Std.ReflCmp.compare_self
      simp only [hcmp, if_true, Option.some.injEq, List.mem_cons, hmem, or_false, false_or, hp,
        not_false_eq_true, true_and, List.map_cons, not_true_eq_false, false_and]
      exact ⟨fun h => by rw [← h], fun h => (Prod.mk.inj h).2.symm⟩
    · have hcmp : compare p.1 key ≠ .eq := fun h => hk (Std.LawfulEqCmp.compare_eq_iff_eq.1 h)
      have hne : (key, value) ≠ p := fun h => hk (by rw [← h])
      simp only [if_neg hcmp, List.mem_cons, hne, false_or, List.map_cons, Ne.symm hk]

theorem isMapOf_insertPairs {l : List (Bytes × Bytes)} (hl : (l.map Prod.fst).Nodup) :
    IsMapOf (insertPairs ∅ l) l := fun key value => by
  simp [getElem?_insertPairs hl]

/-! ## The query -/

/-- A pair of the query. -/
structure QueryPair where
  key : Bytes
  value : Bytes
  key_plain : 38 ∉ key ∧ 61 ∉ key ∧ 32 ∉ key ∧ findCRLF key = none
  value_plain : 38 ∉ value ∧ 32 ∉ value ∧ findCRLF value = none

namespace QueryPair

def text (p : QueryPair) : Bytes := p.key ++ 61 :: p.value

def pair (p : QueryPair) : Bytes × Bytes := (p.key, p.value)

theorem addPair_text (m : StringMap) (p : QueryPair) :
    addPair m p.text = m.insert p.key p.value := by
  rw [addPair, text, breakOn_singleton p.key_plain.2.1]

theorem amp_not_mem_text (p : QueryPair) : 38 ∉ p.text := by
  simp [text, p.key_plain.1, p.value_plain.1]

theorem space_not_mem_text (p : QueryPair) : 32 ∉ p.text := by
  simp [text, p.key_plain.2.2.1, p.value_plain.2.1]

theorem findCRLF_text (p : QueryPair) : findCRLF p.text = none :=
  findCRLF_append_cons (by decide) p.key_plain.2.2.2 p.value_plain.2.2

end QueryPair

/-- The arguments behind the `?`. -/
def queryText (l : List QueryPair) : Bytes := [38].intercalate (l.map QueryPair.text)

theorem queryText_cons_cons (p q : QueryPair) (l : List QueryPair) :
    queryText (p :: q :: l) = p.text ++ 38 :: queryText (q :: l) := by
  simp [queryText, List.intercalate_cons_cons]

theorem queryText_singleton (p : QueryPair) : queryText [p] = p.text := by
  simp [queryText]

theorem space_not_mem_queryText (l : List QueryPair) : 32 ∉ queryText l := by
  induction l with
  | nil => simp [queryText]
  | cons p l ih =>
    cases l with
    | nil => simpa [queryText_singleton] using p.space_not_mem_text
    | cons q l => simp [queryText_cons_cons, ih, p.space_not_mem_text]

theorem findCRLF_queryText (l : List QueryPair) : findCRLF (queryText l) = none := by
  induction l with
  | nil => rfl
  | cons p l ih =>
    cases l with
    | nil => rw [queryText_singleton, p.findCRLF_text]
    | cons q l =>
      rw [queryText_cons_cons]
      exact findCRLF_append_cons (by decide) p.findCRLF_text ih

/-- The segments of the arguments are the pairs. -/
theorem foldl_addPair_queryText (m : StringMap) (l : List QueryPair) :
    ((queryText l).splitOn 38).foldl addPair m = insertPairs m (l.map QueryPair.pair) := by
  cases l with
  | nil => rfl
  | cons p l =>
    have hplain : ∀ s ∈ (p :: l).map QueryPair.text, 38 ∉ s := by
      intro s hs
      obtain ⟨q, -, rfl⟩ := List.mem_map.1 hs
      exact q.amp_not_mem_text
    rw [queryText, List.splitOn_intercalate _ hplain (by simp), insertPairs, List.foldl_map,
      List.foldl_map]
    simp only [QueryPair.addPair_text, QueryPair.pair]

/-- **The loop over the arguments reads the pairs back.** -/
theorem setQueryParameters_queryText (r : HttpRequest) (l : List QueryPair) :
    r.setQueryParameters (queryText l) =
      { r with queryParameters := insertPairs r.queryParameters (l.map QueryPair.pair) } := by
  rw [setQueryParameters_eq, foldl_addPair_queryText]

/-! ## Headers -/

/-- A header whose value has no white space at its ends. -/
structure Header where
  name : Bytes
  value : Bytes
  colon_not_mem : 58 ∉ name
  name_isLine : findCRLF name = none
  value_isLine : findCRLF value = none
  not_isspace_head : ∀ b, value.head? = some b → isspace b = false
  not_isspace_last : ∀ b, value.getLast? = some b → isspace b = false

namespace Header

def pair (h : Header) : Bytes × Bytes := (h.name, h.value)

/-- The line `name: value`. -/
def field (h : Header) : Field where
  name := h.name
  value := 32 :: h.value
  colon_not_mem := h.colon_not_mem
  isLine := findCRLF_append_cons (by decide) h.name_isLine
    (findCRLF_append_cons (u := []) (by decide) rfl h.value_isLine)

/-- What `addHeader` makes of the text behind the colon. -/
theorem trim_field (h : Header) : trim h.field.value = h.value := by
  have hspace : isspace 32 = true := by decide
  have hhead : (32 :: h.value).dropWhile isspace = h.value := by
    rw [List.dropWhile_cons_of_pos hspace]
    cases hv : h.value with
    | nil => rfl
    | cons b v =>
      have hb := h.not_isspace_head b (by rw [hv]; rfl)
      exact List.dropWhile_cons_of_neg (by simp [hb])
  rw [field, trim, hhead]
  rcases List.eq_nil_or_concat h.value with hv | ⟨v, b, hv⟩
  · rw [hv]
    rfl
  · have hb := h.not_isspace_last b (by simp [hv])
    rw [hv, List.concat_eq_append, List.rdropWhile_concat, if_neg (by simp [hb])]

end Header

theorem headers_addFields (r : HttpRequest) (hs : List Header) :
    (r.addFields (hs.map Header.field)).headers =
      insertPairs r.headers (hs.map Header.pair) := by
  induction hs generalizing r with
  | nil => rfl
  | cons h hs ih =>
    rw [List.map_cons, addFields_cons, ih, addHeader, h.trim_field]
    rfl

/-! ## Requests -/

/-- The token of a method. -/
def tokenOf : Method → Bytes
  | .kGet => bytes "GET"
  | .kPost => bytes "POST"
  | .kPut => bytes "PUT"
  | .kDelete => bytes "DELETE"
  | .kOptions => bytes "OPTIONS"
  | _ => []

/-- A request as a value. A POST or PUT says how long its body is; the other methods have no body
and say nothing of one. -/
structure RequestValue where
  method : Method
  path : Bytes
  query : Option (List QueryPair)
  version : Bytes
  headers : List Header
  body : Bytes
  method_mem : method ∈ [.kGet, .kPost, .kPut, .kDelete, .kOptions]
  path_plain : 32 ∉ path ∧ 63 ∉ path ∧ findCRLF path = none
  query_nodup : ∀ l ∈ query, (l.map QueryPair.key).Nodup
  version_mem : version = bytes "HTTP/1.1" ∨ version = bytes "HTTP/1.0"
  headers_nodup : (headers.map Header.name).Nodup
  framed : method = .kPost ∨ method = .kPut →
    (bytes "Content-Length", decimal body.length) ∈ headers.map Header.pair ∧
      (body.length : ℤ) ≤ intMax
  bodiless : ¬ (method = .kPost ∨ method = .kPut) →
    body = [] ∧ bytes "Content-Length" ∉ headers.map Header.name

namespace RequestValue

/-- The path, with the query behind it if there is one. -/
def target (v : RequestValue) : Bytes :=
  v.path ++ (v.query.map fun l => 63 :: queryText l).getD []

/-- The rendering of a request. -/
def text (v : RequestValue) : Bytes :=
  tokenOf v.method ++ 32 :: (v.target ++ 32 :: v.version) ++ crlf ++
    (v.headers.flatMap fun h => h.name ++ bytes ": " ++ h.value ++ crlf) ++ crlf ++ v.body

variable (v : RequestValue)

theorem methodOf_tokenOf : methodOf (tokenOf v.method) = v.method := by
  have h := v.method_mem
  generalize v.method = m at h
  simp only [List.mem_cons, List.not_mem_nil, or_false] at h
  obtain rfl | rfl | rfl | rfl | rfl := h <;> decide

theorem method_ne_kInvalid : v.method ≠ .kInvalid := by
  intro h
  have hmem := v.method_mem
  rw [h] at hmem
  revert hmem
  decide

theorem findCRLF_tokenOf : findCRLF (tokenOf v.method) = none := by
  cases v.method <;> decide

theorem space_not_mem_target : 32 ∉ v.target := by
  rw [target, List.mem_append, not_or]
  refine ⟨v.path_plain.1, ?_⟩
  cases v.query with
  | none => simp
  | some l => simpa using space_not_mem_queryText l

theorem findCRLF_target : findCRLF v.target = none := by
  rw [target]
  cases v.query with
  | none => simpa using v.path_plain.2.2
  | some l => exact findCRLF_append_cons (by decide) v.path_plain.2.2 (findCRLF_queryText l)

theorem findCRLF_version : findCRLF v.version = none := by
  rcases v.version_mem with h | h <;> rw [h] <;> decide

/-- The request line of the value. -/
def line : RequestLine where
  method := tokenOf v.method
  target := v.target
  version := v.version
  method_valid := by rw [v.methodOf_tokenOf]; exact v.method_ne_kInvalid
  space_not_mem := v.space_not_mem_target
  version_valid := v.version_mem
  isLine := findCRLF_append_cons (by decide) v.findCRLF_tokenOf
    (findCRLF_append_cons (by decide) v.findCRLF_target v.findCRLF_version)

theorem breakOn_target :
    breakOn [63] v.target = v.query.map fun l => (v.path, queryText l) := by
  rw [target]
  cases v.query with
  | none => simpa using breakOn_singleton_none.2 v.path_plain.2.1
  | some l => exact breakOn_singleton v.path_plain.2.1 _

theorem line_path : v.line.path = v.path := by
  have htarget : v.line.target = v.target := rfl
  rw [RequestLine.path, htarget, breakOn_target]
  cases hq : v.query with
  | none => simp [target, hq]
  | some l => rfl

/-- The request line denotes the method, the path, the version and the pairs of the query. -/
theorem line_fill (r : HttpRequest) (hr : r.queryParameters = ∅) :
    (v.line.fill r).method = v.method ∧ (v.line.fill r).path = v.path ∧
      (v.line.fill r).version = v.version ∧
      (v.line.fill r).queryParameters =
        insertPairs ∅ ((v.query.getD []).map QueryPair.pair) := by
  refine ⟨?_, ?_, ?_⟩
  · rw [RequestLine.fill_method]
    exact v.methodOf_tokenOf
  · rw [RequestLine.fill_path, line_path]
  · have hquery : v.line.query = v.query.map queryText := by
      have htarget : v.line.target = v.target := rfl
      rw [RequestLine.query, htarget, breakOn_target]
      cases v.query <;> rfl
    rw [RequestLine.fill, hquery]
    cases v.query with
    | none => exact ⟨rfl, hr⟩
    | some l =>
      simp only [Option.map_some, setQueryParameters_queryText, hr]
      exact ⟨rfl, rfl⟩

/-- The header fields of the value, in order. -/
abbrev fields : List Field := v.headers.map Header.field

theorem isMapOf_headers : IsMapOf (insertPairs ∅ (v.headers.map Header.pair))
    (v.headers.map Header.pair) := by
  refine isMapOf_insertPairs ?_
  rw [List.map_map]
  exact v.headers_nodup

theorem isMapOf_query : IsMapOf (insertPairs ∅ ((v.query.getD []).map QueryPair.pair))
    ((v.query.getD []).map QueryPair.pair) := by
  refine isMapOf_insertPairs ?_
  rw [List.map_map]
  cases hq : v.query with
  | none => exact List.nodup_nil
  | some l => exact v.query_nodup l hq

/-- The length that the headers of a POST or PUT say is read as a number. -/
theorem stoi_contentLength (h : v.method = .kPost ∨ v.method = .kPut) :
    stoi ((lastValue (bytes "Content-Length") v.fields).getD []) = .ok (v.body.length : ℤ) := by
  obtain ⟨hmem, hmax⟩ := v.framed h
  obtain ⟨hval, hne, hdigits⟩ := digitsVal_decimal v.body.length
  have hnew : HttpRequest.new.getHeader (bytes "Content-Length") = [] :=
    getHeader_of_headers_empty rfl _
  have hempty : HttpRequest.new.headers = ∅ := rfl
  have hget := getHeader_addFields HttpRequest.new v.fields (bytes "Content-Length")
  rw [hnew, getHeader, headers_addFields, hempty, (v.isMapOf_headers _ _).2 hmem] at hget
  rw [← hget, Option.getD_some, stoi_of_digits hne hdigits (by rwa [hval]), hval]

theorem takesBody_iff : v.line.TakesBody ↔ v.method = .kPost ∨ v.method = .kPut := by
  have h : methodOf v.line.method = v.method := v.methodOf_tokenOf
  rw [RequestLine.TakesBody, h]

/-- The value as a message of the grammar. -/
def message : Message where
  line := v.line
  fields := v.fields
  body := v.body
  framed h := ⟨_, v.stoi_contentLength (v.takesBody_iff.1 h),
    toUint64_of_nonneg (v.framed (v.takesBody_iff.1 h)).2⟩
  bodiless h := (v.bodiless fun hm => h (v.takesBody_iff.2 hm)).1

theorem text_message : v.message.text = v.text := by
  have hlines : lines v.fields =
      v.headers.flatMap fun h => h.name ++ bytes ": " ++ h.value ++ crlf := by
    rw [lines, List.map_map, List.flatMap]
    congr 2
    funext h
    simp [Field.text, Header.field, bytes]
  have hmessage : v.message.text =
      v.line.text ++ (crlf ++ (lines v.fields ++ crlf)) ++ v.body := rfl
  rw [hmessage, hlines, text]
  simp [RequestLine.text, line]

/-- The request that the message of the value denotes. -/
theorem fill_message (t : Timestamp) :
    let r := v.message.fill HttpRequest.new t
    r.method = v.method ∧ r.path = v.path ∧ r.version = v.version ∧
      r.queryParameters = insertPairs ∅ ((v.query.getD []).map QueryPair.pair) ∧
      r.headers = insertPairs ∅ (v.headers.map Header.pair) ∧ r.content = v.body := by
  intro r
  have hempty : HttpRequest.new.headers = ∅ := rfl
  obtain ⟨hmethod, hpath, hversion, hquery⟩ := v.line_fill HttpRequest.new rfl
  obtain ⟨n, c, hfill⟩ : ∃ n c, r =
      { v.message.fillHead HttpRequest.new t with contentLength := n, content := c } := by
    simp only [r, Message.fill]
    split <;> exact ⟨_, _, rfl⟩
  have hhead : v.message.fillHead HttpRequest.new t =
      { (v.line.fill HttpRequest.new).setReceiveTime t with
        headers := insertPairs ∅ (v.headers.map Header.pair) } := by
    have hadd := addFields_eq ((v.line.fill HttpRequest.new).setReceiveTime t) v.fields
    rw [headers_addFields, setReceiveTime_headers, RequestLine.fill_headers, hempty] at hadd
    exact hadd
  have hcontent : r.content = v.body := by
    rw [Message.fill_content]
    split
    · rename_i hnil
      exact hnil.symm
    · rfl
  rw [hfill, hhead] at hcontent ⊢
  exact ⟨hmethod, hpath, hversion, hquery, rfl, hcontent⟩

end RequestValue

open RequestValue in
/-- **What is rendered is parsed back.** On a fresh context, the parser reads the rendering of a
request and whatever comes behind it: it completes with the method, path, query, version, headers
and body of the request, and leaves exactly what comes behind. -/
theorem parse_text (v : RequestValue) (w : Bytes) (t : Timestamp) :
    ∃ p, parseRequest HttpContext.new (v.text ++ w) t = some p ∧ p.ret = .ok true ∧
      p.context.state = .kGotAll ∧ p.unread = w ∧
      p.context.request.method = v.method ∧ p.context.request.path = v.path ∧
      IsMapOf p.context.request.queryParameters ((v.query.getD []).map QueryPair.pair) ∧
      p.context.request.version = v.version ∧
      IsMapOf p.context.request.headers (v.headers.map Header.pair) ∧
      p.context.request.content = v.body := by
  have hreads := reads_message (t := t) v.message (r := HttpRequest.new) rfl w
  have hstate : HttpContext.new.state ≠ .kGotAll := by decide
  rw [v.text_message] at hreads
  obtain ⟨hmethod, hpath, hversion, hquery, hheaders, hcontent⟩ := v.fill_message t
  refine ⟨_, (parseRequest_eq_some_iff_reads hstate).2 hreads, rfl, rfl, rfl, hmethod, hpath, ?_,
    hversion, ?_, hcontent⟩
  · exact hquery ▸ v.isMapOf_query
  · exact hheaders ▸ v.isMapOf_headers

/-- A POST whose query has an `=` in a value, and whose body is a line end. -/
def lineEndValue : RequestValue where
  method := .kPost
  path := bytes "/api/shorten"
  query := some [⟨bytes "a", bytes "b=c", by decide, by decide⟩]
  version := bytes "HTTP/1.1"
  headers := [⟨bytes "Content-Length", bytes "2", by decide, by decide, by decide,
    by rintro b ⟨⟩; rfl, by rintro b ⟨⟩; rfl⟩]
  body := crlf
  method_mem := by decide
  path_plain := by decide
  query_nodup := by rintro l ⟨⟩; decide
  version_mem := .inl rfl
  headers_nodup := by decide
  framed _ := by decide +kernel
  bodiless h := absurd (.inl rfl) h

example : lineEndValue.text =
    bytes "POST /api/shorten?a=b=c HTTP/1.1\r\nContent-Length: 2\r\n\r\n\r\n" := by decide

end KamaHttp
