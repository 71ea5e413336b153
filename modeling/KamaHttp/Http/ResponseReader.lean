import KamaHttp.Http.HttpServer
import KamaHttp.Http.RoundTrip

/-!
# Responses as a client reads them

A reader of responses, as a client on the other side of the connection has it: a status line, field
lines up to the blank line, and as many bytes as the field `Content-Length` says. Names of fields
are compared byte by byte or without regard to case.

* `returns_fieldIter`: the reader reads field lines back, whatever their order.
* `readResponse_appendToBuffer`: what it makes of a response that is sent, with anything behind it.
* `readsBack_iff`: when it gives the response back.
-/

namespace KamaHttp

open Search Loop HttpContext

/-! ## The reader -/

namespace ResponseReader

/-- A status line: version, code and reason. -/
def readStatus (line : Bytes) : Option (Bytes × ℤ × Bytes) :=
  (breakOn [32] line).bind fun x =>
    (breakOn [32] x.2).bind fun y => (strtol y.1).map fun code => (x.1, code, y.2)

/-- A field line: the name before the first colon, and the value behind it and one space. -/
def readField (line : Bytes) : Option (Bytes × Bytes) :=
  (breakOn [58] line).map fun x =>
    (x.1, match x.2 with
      | 32 :: value => value
      | value => value)

/-- One field line more, up to the blank line. -/
def fieldIter : List (Bytes × Bytes) × Bytes →
    Step (List (Bytes × Bytes) × Bytes) (Option (List (Bytes × Bytes) × Bytes))
  | (fields, buf) =>
    match findCRLF buf with
    | none => .stop none
    | some ([], rest) => .stop (some (fields, rest))
    | some (line, rest) =>
      match readField line with
      | none => .stop none
      | some field => .next (fields ++ [field], rest)

/-- Every field line takes some bytes, so the length of the buffer bounds their number. -/
def readFields (buf : Bytes) : Option (List (Bytes × Bytes) × Bytes) :=
  (run fieldIter (buf.length + 1) ([], buf)).bind id

/-- A name as it is compared with others: as it stands, or without regard to case. -/
def fold (caseless : Bool) (name : Bytes) : Bytes := if caseless then name.map toLower else name

/-- The number that a value writes, all of it digits. -/
def natOf (value : Bytes) : Option ℕ :=
  if value ≠ [] ∧ value.all isdigit then some (digitsVal value) else none

/-- The value of the first field of a name. -/
def valueOf (caseless : Bool) (name : Bytes) (fields : List (Bytes × Bytes)) : Option Bytes :=
  (fields.find? fun f => fold caseless f.1 = fold caseless name).map Prod.snd

/-- The body, with what comes behind it: as many bytes as `Content-Length` says, none without it. -/
def readBody (caseless : Bool) (fields : List (Bytes × Bytes)) (buf : Bytes) :
    Option (Bytes × Bytes) :=
  match valueOf caseless (bytes "Content-Length") fields with
  | none => some ([], buf)
  | some value =>
    (natOf value).bind fun n => if n ≤ buf.length then some (buf.take n, buf.drop n) else none

end ResponseReader

/-- What a client reads. -/
structure ReceivedResponse where
  version : Bytes
  code : ℤ
  reason : Bytes
  fields : List (Bytes × Bytes)
  body : Bytes
  deriving DecidableEq

open ResponseReader in
/-- A response, with what comes behind it. -/
def readResponse (caseless : Bool) (buf : Bytes) : Option (ReceivedResponse × Bytes) :=
  (findCRLF buf).bind fun x =>
    (readStatus x.1).bind fun status =>
      (readFields x.2).bind fun head =>
        (readBody caseless head.1 head.2).map fun body =>
          (⟨status.1, status.2.1, status.2.2, head.1, body.1⟩, body.2)

/-! ## What it makes of a response -/

namespace ResponseReader

/-- A field whose line is read back. -/
def Plain (f : Bytes × Bytes) : Prop := 58 ∉ f.1 ∧ findCRLF f.1 = none ∧ findCRLF f.2 = none

instance (f : Bytes × Bytes) : Decidable (Plain f) := inferInstanceAs (Decidable (_ ∧ _ ∧ _))

/-- The line of a field. -/
def lineOf (f : Bytes × Bytes) : Bytes := f.1 ++ bytes ": " ++ f.2

theorem lineOf_eq (f : Bytes × Bytes) : lineOf f = f.1 ++ 58 :: 32 :: f.2 := by
  simp [lineOf, bytes]

theorem findCRLF_lineOf {f : Bytes × Bytes} (h : Plain f) : findCRLF (lineOf f) = none := by
  rw [lineOf_eq]
  exact findCRLF_append_cons (by decide) h.2.1
    (findCRLF_append_cons (u := []) (by decide) rfl h.2.2)

theorem readField_lineOf {f : Bytes × Bytes} (h : Plain f) : readField (lineOf f) = some f := by
  rw [lineOf_eq, readField, breakOn_singleton h.1]
  rfl

theorem lineOf_ne_nil (f : Bytes × Bytes) : lineOf f ≠ [] := by
  simp [lineOf_eq]

/-- **The reader reads field lines back.** -/
theorem returns_fieldIter {fields : List (Bytes × Bytes)} (h : ∀ f ∈ fields, Plain f)
    (front : List (Bytes × Bytes)) (rest : Bytes) :
    Returns fieldIter (front, (fields.flatMap fun f => lineOf f ++ crlf) ++ (crlf ++ rest))
      (some (front ++ fields, rest)) := by
  induction fields generalizing front with
  | nil =>
    refine .stop ?_
    rw [List.flatMap_nil, List.nil_append, fieldIter, findCRLF_blank, List.append_nil]
  | cons f fields ih =>
    have hf := h f (by simp)
    have hline := findCRLF_line (findCRLF_lineOf hf)
      ((fields.flatMap fun f => lineOf f ++ crlf) ++ (crlf ++ rest))
    have hnext : fieldIter (front, ((f :: fields).flatMap fun f => lineOf f ++ crlf) ++
        (crlf ++ rest)) = .next (front ++ [f],
          (fields.flatMap fun f => lineOf f ++ crlf) ++ (crlf ++ rest)) := by
      rw [List.flatMap_cons, List.append_assoc, List.append_assoc, fieldIter, hline]
      rcases hl : lineOf f with _ | ⟨b, l⟩
      · exact absurd hl (lineOf_ne_nil f)
      · dsimp only
        rw [← hl, readField_lineOf hf]
    have hrest := ih (fun f' hf' => h f' (by simp [hf'])) (front ++ [f])
    rw [List.append_assoc] at hrest
    exact .next hnext hrest

theorem readFields_lines {fields : List (Bytes × Bytes)} (h : ∀ f ∈ fields, Plain f)
    (rest : Bytes) :
    readFields ((fields.flatMap fun f => lineOf f ++ crlf) ++ (crlf ++ rest)) =
      some (fields, rest) := by
  have hdec : ∀ s s' : List (Bytes × Bytes) × Bytes, True → fieldIter s = .next s' →
      True ∧ s'.2.length < s.2.length := by
    rintro ⟨front, buf⟩ s' - hs
    rw [fieldIter] at hs
    split at hs
    · cases hs
    · cases hs
    · rename_i line rest _ hb
      split at hs
      · cases hs
      · cases hs
        exact ⟨trivial, length_lt_of_findCRLF hb⟩
  rw [readFields, (run_eq_some_iff (fun _ => True) (fun s => s.2.length) hdec trivial
    (Nat.lt_succ_self _)).2 (returns_fieldIter h [] rest)]
  rfl

/-- A value, under the only field of its name. -/
theorem valueOf_eq_some {caseless : Bool} {name value : Bytes} {fields : List (Bytes × Bytes)}
    (hnodup : (fields.map fun f => fold caseless f.1).Nodup) (hmem : (name, value) ∈ fields) :
    valueOf caseless name fields = some value := by
  induction fields with
  | nil => cases hmem
  | cons f fields ih =>
    obtain ⟨hf, hnodup⟩ := List.nodup_cons.1 hnodup
    rcases List.mem_cons.1 hmem with rfl | hmem
    · simp [valueOf]
    · have hne : fold caseless f.1 ≠ fold caseless name := fun he =>
        hf (List.mem_map.2 ⟨_, hmem, he.symm⟩)
      have := ih hnodup hmem
      rw [valueOf] at this ⊢
      rw [List.find?_cons_of_neg (by simpa using hne), this]

end ResponseReader

/-! ## Status lines -/

theorem findCRLF_of_not_mem {l : Bytes} (h : 13 ∉ l) : findCRLF l = none :=
  breakOn_eq_none_iff.2 fun hl => h (hl.subset (by simp [crlf]))

/-! ## What is sent -/

namespace HttpServer

variable {req : HttpRequest} {resp : HttpResponse}

/-- The version of the response to a request. -/
def sentVersion (req : HttpRequest) : Bytes :=
  if req.version ≠ bytes "HTTP/1.0" ∧ req.version ≠ bytes "HTTP/1.1" then bytes "HTTP/1.1"
  else req.version

theorem sentVersion_cases (req : HttpRequest) :
    sentVersion req = bytes "HTTP/1.1" ∨ sentVersion req = bytes "HTTP/1.0" := by
  rw [sentVersion]
  split
  · exact .inl rfl
  · rename_i h
    rw [not_and_or, not_not, not_not] at h
    exact h.symm

/-- What is in none of the two versions is not in the one that is sent. -/
theorem not_mem_sentVersion {b : Byte} (hb : b ∉ bytes "HTTP/1.1" ∧ b ∉ bytes "HTTP/1.0")
    (req : HttpRequest) : b ∉ sentVersion req := by
  rcases sentVersion_cases req with h | h <;> rw [h]
  · exact hb.1
  · exact hb.2

/-- The status line of the response. -/
def sentStatus (req : HttpRequest) (resp : HttpResponse) : Bytes :=
  sentVersion req ++ 32 :: (decimal resp.statusCode ++ 32 :: reason resp.statusCode)

/-- The fields of a response, the fixed one first. -/
def sentFields (r : HttpResponse) : List (Bytes × Bytes) :=
  (bytes "Connection", if r.closeConnection then bytes "close" else bytes "Keep-Alive") ::
    r.headersVector

/-- What `finish` leaves as it is, and what it sets. -/
theorem finish_spec (req : HttpRequest) (resp : HttpResponse) :
    (finish req resp).httpVersion = sentVersion req ∧
      (finish req resp).statusCode = resp.statusCode ∧
      (finish req resp).statusMessage = reason resp.statusCode ∧
      (finish req resp).body = resp.body := by
  simp only [finish, HttpResponse.setStatusLine]
  refine ⟨rfl, ?_, ?_, ?_⟩ <;> split_ifs <;> rfl

/-- **The text of a response**: its status line, its fields, the blank line and the body. The buffer
of the status line has room for every `int`. -/
theorem appendToBuffer_finish (hcode : intMin ≤ resp.statusCode ∧ resp.statusCode ≤ intMax) :
    (finish req resp).appendToBuffer =
      sentStatus req resp ++ (crlf ++
        (((sentFields (finish req resp)).flatMap fun f => ResponseReader.lineOf f ++ crlf) ++
          (crlf ++ resp.body))) := by
  obtain ⟨hversion, hstatus, hmessage, hbody⟩ := finish_spec req resp
  have hnull : 0 ∉ sentVersion req := not_mem_sentVersion (by decide) req
  have hlen : (sentVersion req).length = 8 := by
    rcases sentVersion_cases req with h | h <;> rw [h] <;> rfl
  have hfits : (finish req resp).statusText.length < 32 := by
    have := length_decimal_le hcode
    rw [HttpResponse.statusText, hversion, hstatus, cStr_of_no_null hnull]
    simp only [List.length_append, List.length_singleton, hlen]
    omega
  have hcrlf : bytes "\r\n" = crlf := by decide
  have hconnection : (if (finish req resp).closeConnection then bytes "Connection: close\r\n"
      else bytes "Connection: Keep-Alive\r\n") =
      ResponseReader.lineOf (bytes "Connection",
        if (finish req resp).closeConnection then bytes "close" else bytes "Keep-Alive") ++
        crlf := by
    split <;> decide
  rw [HttpResponse.appendToBuffer, snprintf_of_fits hfits, hconnection, hcrlf,
    HttpResponse.statusText, hversion, hstatus, hmessage, hbody, cStr_of_no_null hnull, sentFields,
    sentStatus]
  simp only [List.flatMap_cons, ResponseReader.lineOf, List.append_assoc, List.cons_append,
    List.nil_append]

theorem reason_plain (code : ℤ) : 13 ∉ reason code := by
  unfold reason
  split_ifs <;> decide

theorem findCRLF_sentStatus (req : HttpRequest) (resp : HttpResponse) :
    findCRLF (sentStatus req resp) = none := by
  refine findCRLF_of_not_mem ?_
  have hversion : 13 ∉ sentVersion req := not_mem_sentVersion (by decide) req
  have hdecimal : 13 ∉ decimal resp.statusCode := not_mem_decimal (by decide) _
  simp [sentStatus, hversion, hdecimal, reason_plain]

open ResponseReader in
/-- The status line is read back. -/
theorem readStatus_sentStatus (req : HttpRequest) (resp : HttpResponse) :
    readStatus (sentStatus req resp) =
      some (sentVersion req, resp.statusCode, reason resp.statusCode) := by
  have hversion : 32 ∉ sentVersion req := not_mem_sentVersion (by decide) req
  have hdecimal : 32 ∉ decimal resp.statusCode := not_mem_decimal (by decide) _
  rw [readStatus, sentStatus, breakOn_singleton hversion]
  simp only [Option.bind_some, breakOn_singleton hdecimal, strtol_decimal, Option.map_some]

/-- A response that can be put on the wire: its headers are lines that are read back, and its
status code is an `int`. -/
structure Writable (resp : HttpResponse) : Prop where
  plain : ∀ f ∈ resp.headersVector, ResponseReader.Plain f
  code : intMin ≤ resp.statusCode ∧ resp.statusCode ≤ intMax

theorem plain_contentLength (n : ℕ) :
    ResponseReader.Plain (bytes "Content-Length", decimal n) :=
  ⟨colon_not_mem_contentLength, (by decide : findCRLF (bytes "Content-Length") = none),
    findCRLF_of_not_mem (not_mem_decimal (by decide) n)⟩

theorem mem_headersVector {r : HttpResponse} {f : Bytes × Bytes} :
    f ∈ r.headersVector ↔ r.headers[f.1]? = some f.2 :=
  Std.ExtTreeMap.mem_toList_iff_getElem?_eq_some

/-- A header that is added stands beside the others, or in place of the one of its name. -/
theorem mem_headersVector_addHeader {r : HttpResponse} {key value : Bytes} {f : Bytes × Bytes}
    (h : f ∈ (r.addHeader key value).headersVector) :
    f = (key, value) ∨ f ∈ r.headersVector := by
  rw [mem_headersVector, HttpResponse.addHeader, Std.ExtTreeMap.getElem?_insert] at h
  split at h
  · rename_i hk
    rw [Std.LawfulEqCmp.compare_eq_iff_eq] at hk
    exact .inl (Prod.ext hk.symm (Option.some.inj h).symm)
  · exact .inr (mem_headersVector.2 h)

/-- A request of HTTP/1.0 that does not ask for the connection to be kept. -/
def Downgrades (req : HttpRequest) : Prop :=
  req.version = bytes "HTTP/1.0" ∧ req.getHeader (bytes "Connection") ≠ bytes "Keep-Alive"

instance (req : HttpRequest) : Decidable (Downgrades req) := inferInstanceAs (Decidable (_ ∧ _))

/-- The response with the length it lacks. -/
def complete (resp : HttpResponse) : HttpResponse :=
  if resp.getHeader (bytes "Content-Length") = [] ∧ resp.getHeader (bytes "Transfer-Encoding") = []
  then resp.addHeader (bytes "Content-Length") (decimal resp.body.length)
  else resp

/-- The response that closes the connection, and says so unless it says something of its own. -/
def closing (resp : HttpResponse) : HttpResponse :=
  if (resp.setCloseConnection true).getHeader (bytes "Connection") = [] then
    (resp.setCloseConnection true).addHeader (bytes "Connection") (bytes "close")
  else resp.setCloseConnection true

/-- `finish`, piece by piece. -/
theorem finish_eq (req : HttpRequest) (resp : HttpResponse) :
    finish req resp =
      let r := if Downgrades req then closing (complete resp) else complete resp
      r.setStatusLine (sentVersion req) r.statusCode (reason r.statusCode) := rfl

theorem headers_finish_of_not_downgrades (h : ¬ Downgrades req) (resp : HttpResponse) :
    (finish req resp).headers = (complete resp).headers := by
  rw [finish_eq, if_neg h]
  rfl

theorem headersVector_finish_of_not_downgrades (h : ¬ Downgrades req) (resp : HttpResponse) :
    (finish req resp).headersVector = (complete resp).headersVector := by
  rw [HttpResponse.headersVector, headers_finish_of_not_downgrades h, ← HttpResponse.headersVector]

theorem connection_mem_closing (resp : HttpResponse) :
    ∃ value, (bytes "Connection", value) ∈ (closing resp).headersVector := by
  simp only [mem_headersVector, closing]
  split
  · exact ⟨bytes "close", by simp [HttpResponse.addHeader]⟩
  · rename_i hne
    exact Option.ne_none_iff_exists'.1 fun hnone => hne (by rw [HttpResponse.getHeader, hnone]; rfl)

/-- A response to such a request has the header `Connection`. -/
theorem connection_mem_of_downgrades (h : Downgrades req) (resp : HttpResponse) :
    ∃ value, (bytes "Connection", value) ∈ (finish req resp).headersVector := by
  rw [finish_eq, if_pos h]
  exact connection_mem_closing (complete resp)

theorem Writable.plain_complete (h : Writable resp) :
    ∀ f ∈ (complete resp).headersVector, ResponseReader.Plain f := by
  intro f hf
  unfold complete at hf
  split at hf
  · rcases mem_headersVector_addHeader hf with rfl | hf
    · exact plain_contentLength _
    · exact h.plain f hf
  · exact h.plain f hf

theorem Writable.plain_finish (h : Writable resp) (req : HttpRequest) :
    ∀ f ∈ (finish req resp).headersVector, ResponseReader.Plain f := by
  intro f hf
  rw [finish_eq] at hf
  change f ∈ (if Downgrades req then closing (complete resp) else complete resp).headersVector at hf
  split at hf
  · unfold closing at hf
    split at hf
    · rcases mem_headersVector_addHeader hf with rfl | hf
      · decide
      · exact h.plain_complete f hf
    · exact h.plain_complete f hf
  · exact h.plain_complete f hf

/-! ## What a client reads -/

open ResponseReader

/-- **What a client reads of a response that is sent**, with anything behind it: its status, its
fields, and as much as these say of what follows. -/
theorem readResponse_appendToBuffer (caseless : Bool) (req : HttpRequest) (h : Writable resp)
    (rest : Bytes) :
    readResponse caseless ((finish req resp).appendToBuffer ++ rest) =
      (readBody caseless (sentFields (finish req resp)) (resp.body ++ rest)).map fun body =>
        (⟨sentVersion req, resp.statusCode, reason resp.statusCode, sentFields (finish req resp),
          body.1⟩, body.2) := by
  have hplain : ∀ f ∈ sentFields (finish req resp), Plain f := by
    intro f hf
    rcases List.mem_cons.1 hf with rfl | hf
    · split <;> decide
    · exact h.plain_finish req f hf
  have hline := findCRLF_line (findCRLF_sentStatus req resp)
    (((sentFields (finish req resp)).flatMap fun f => lineOf f ++ crlf) ++
      (crlf ++ (resp.body ++ rest)))
  have hfields := readFields_lines hplain (resp.body ++ rest)
  rw [appendToBuffer_finish h.code, readResponse]
  simp only [List.append_assoc] at hline hfields ⊢
  simp only [hline, Option.bind_some, readStatus_sentStatus, hfields]

/-- The response is given back: whatever comes behind it, a client reads its status code, its body,
every header of it and one field `Connection`; no two of the fields have the same name, and what
comes behind is left. -/
def ReadsBack (caseless : Bool) (req : HttpRequest) (resp : HttpResponse) : Prop :=
  ∃ r : ReceivedResponse,
    (∀ rest, readResponse caseless ((finish req resp).appendToBuffer ++ rest) = some (r, rest)) ∧
      r.code = resp.statusCode ∧ r.body = resp.body ∧
      (∃ value, (bytes "Connection", value) ∈ r.fields) ∧
      (∀ f ∈ resp.headersVector, f ∈ r.fields) ∧
      (r.fields.map fun f => fold caseless f.1).Nodup

/-- The field `Content-Length` says how long the body is; without it there is no body. -/
def Framed (caseless : Bool) (fields : List (Bytes × Bytes)) (body : Bytes) : Prop :=
  match valueOf caseless (bytes "Content-Length") fields with
  | none => body = []
  | some value => natOf value = some body.length

theorem readBody_eq_iff {caseless : Bool} {fields : List (Bytes × Bytes)} {body : Bytes} :
    (∀ rest, readBody caseless fields (body ++ rest) = some (body, rest)) ↔
      Framed caseless fields body := by
  rw [Framed]
  rcases hv : valueOf caseless (bytes "Content-Length") fields with _ | value
  · simp only [readBody, hv, Option.some.injEq, Prod.mk.injEq]
    exact ⟨fun h => (h []).1.symm, by rintro rfl; simp⟩
  · rcases hn : natOf value with _ | n
    · simp [readBody, hv, hn]
    · simp only [readBody, hv, hn, Option.bind_some, Option.some.injEq]
      constructor
      · intro h
        have h := h []
        split at h
        · rename_i hle
          simp only [List.append_nil, Option.some.injEq, Prod.mk.injEq,
            List.take_eq_self_iff] at h hle
          omega
        · cases h
      · rintro rfl rest
        simp

/-- A response is given back exactly if no two of its fields have the same name, its headers are
among them, and they say how long the body is. -/
theorem readsBack_iff_fields {caseless : Bool} (h : Writable resp) :
    ReadsBack caseless req resp ↔
      ((sentFields (finish req resp)).map fun f => fold caseless f.1).Nodup ∧
        (∀ f ∈ resp.headersVector, f ∈ sentFields (finish req resp)) ∧
        Framed caseless (sentFields (finish req resp)) resp.body := by
  constructor
  · rintro ⟨r, hread, -, hbody, -, hentries, hnodup⟩
    have hbodies : ∀ rest, r.fields = sentFields (finish req resp) ∧
        readBody caseless (sentFields (finish req resp)) (resp.body ++ rest) =
          some (resp.body, rest) := by
      intro rest
      have h' := hread rest
      rw [readResponse_appendToBuffer caseless req h] at h'
      obtain ⟨⟨body, rest'⟩, hb, heq⟩ := Option.map_eq_some_iff.1 h'
      obtain ⟨rfl, rfl⟩ := Prod.mk.inj heq
      obtain rfl : body = resp.body := hbody
      exact ⟨rfl, hb⟩
    have hfields := (hbodies []).1
    rw [hfields] at hentries hnodup
    exact ⟨hnodup, hentries, readBody_eq_iff.1 fun rest => (hbodies rest).2⟩
  · rintro ⟨hnodup, hentries, hframed⟩
    refine ⟨⟨sentVersion req, resp.statusCode, reason resp.statusCode,
      sentFields (finish req resp), resp.body⟩, fun rest => ?_, rfl, rfl,
      ⟨_, List.mem_cons_self⟩, hentries, hnodup⟩
    rw [readResponse_appendToBuffer caseless req h, readBody_eq_iff.2 hframed rest]
    rfl

theorem mem_headers_iff {r : HttpResponse} {k : Bytes} :
    k ∈ r.headers ↔ k ∈ r.headersVector.map Prod.fst := by
  rw [HttpResponse.headersVector, Std.ExtTreeMap.map_fst_toList_eq_keys, Std.ExtTreeMap.mem_keys]

/-- The names of the headers are different, also as they are compared. -/
def NamesApart (caseless : Bool) (r : HttpResponse) : Prop :=
  ∀ k ∈ r.headers, ∀ k' ∈ r.headers, fold caseless k = fold caseless k' → k = k'

theorem nodup_headersVector_iff {caseless : Bool} {r : HttpResponse} :
    (r.headersVector.map fun f => fold caseless f.1).Nodup ↔ NamesApart caseless r := by
  have hkeys : (r.headersVector.map Prod.fst).Nodup := by
    rw [HttpResponse.headersVector, Std.ExtTreeMap.map_fst_toList_eq_keys]
    exact Std.ExtTreeMap.nodup_keys
  have hmap : (r.headersVector.map fun f => fold caseless f.1) =
      (r.headersVector.map Prod.fst).map (fold caseless) := by
    rw [List.map_map]
    rfl
  rw [hmap, List.nodup_map_iff_inj_on hkeys]
  simp only [NamesApart, mem_headers_iff]

theorem nodup_sentFields_iff {caseless : Bool} {r : HttpResponse} :
    ((sentFields r).map fun f => fold caseless f.1).Nodup ↔
      NamesApart caseless r ∧
        ∀ k ∈ r.headers, fold caseless k ≠ fold caseless (bytes "Connection") := by
  rw [sentFields, List.map_cons, List.nodup_cons, nodup_headersVector_iff, and_comm]
  refine and_congr Iff.rfl ?_
  simp only [mem_headers_iff, List.mem_map, not_exists, not_and]
  constructor
  · rintro h _ ⟨f, hf, rfl⟩
    exact h f hf
  · exact fun h f hf => h f.1 ⟨f, hf, rfl⟩

theorem fold_connection_ne (caseless : Bool) :
    fold caseless (bytes "Connection") ≠ fold caseless (bytes "Content-Length") := by
  cases caseless <;> decide

/-- The fixed field says nothing of the body. -/
theorem framed_sentFields {caseless : Bool} {r : HttpResponse} {body : Bytes} :
    Framed caseless (sentFields r) body ↔ Framed caseless r.headersVector body := by
  have hvalue : valueOf caseless (bytes "Content-Length") (sentFields r) =
      valueOf caseless (bytes "Content-Length") r.headersVector := by
    rw [valueOf, sentFields, List.find?_cons_of_neg (by simpa using fold_connection_ne caseless),
      ← valueOf]
  rw [Framed, Framed, hvalue]

/-- A header that says how long the body is does so under the only field of its name. -/
theorem framed_of_mem {caseless : Bool} {r : HttpResponse} {body value : Bytes}
    (hapart : NamesApart caseless r) (hmem : (bytes "Content-Length", value) ∈ r.headersVector)
    (hvalue : natOf value = some body.length) : Framed caseless r.headersVector body := by
  rw [Framed, valueOf_eq_some (nodup_headersVector_iff.2 hapart) hmem]
  exact hvalue

theorem natOf_decimal (n : ℕ) : natOf (decimal n) = some n := by
  obtain ⟨hval, hne, hdigits⟩ := digitsVal_decimal n
  rw [natOf, if_pos ⟨hne, List.all_eq_true.2 hdigits⟩, hval]

/-- The condition for a response to be given back: the request does not fall back to HTTP/1.0, no
two headers have the same name as names are compared, none is called `Connection`, and the length of
the body is not said twice. A response with `Transfer-Encoding` has to say the length itself. -/
def Delimited (caseless : Bool) (req : HttpRequest) (resp : HttpResponse) : Prop :=
  ¬ Downgrades req ∧ NamesApart caseless resp ∧
    (∀ k ∈ resp.headers, fold caseless k ≠ fold caseless (bytes "Connection")) ∧
    if resp.getHeader (bytes "Transfer-Encoding") = [] then
      ∀ k ∈ resp.headers, fold caseless k = fold caseless (bytes "Content-Length") →
        k = bytes "Content-Length"
    else Framed caseless resp.headersVector resp.body

/-- A `Content-Length` of the response, where it counts, is the length of the body. -/
def LengthRight (resp : HttpResponse) : Prop :=
  ∀ value, resp.headers[bytes "Content-Length"]? = some value →
    resp.getHeader (bytes "Transfer-Encoding") = [] → natOf value = some resp.body.length

/-- Without a fall back to HTTP/1.0, the fields are those of the completed response. -/
theorem readsBack_iff_complete {caseless : Bool} (h : Writable resp) (hdown : ¬ Downgrades req) :
    ReadsBack caseless req resp ↔
      NamesApart caseless (complete resp) ∧
        (∀ k ∈ (complete resp).headers, fold caseless k ≠ fold caseless (bytes "Connection")) ∧
        (∀ f ∈ resp.headersVector, f ∈ sentFields (finish req resp)) ∧
        Framed caseless (complete resp).headersVector resp.body := by
  rw [readsBack_iff_fields h, nodup_sentFields_iff, framed_sentFields,
    headersVector_finish_of_not_downgrades hdown, NamesApart,
    headers_finish_of_not_downgrades hdown, NamesApart, and_assoc]

theorem mem_addHeader {r : HttpResponse} {key value k : Bytes} :
    k ∈ (r.addHeader key value).headers ↔ k = key ∨ k ∈ r.headers := by
  rw [HttpResponse.addHeader, Std.ExtTreeMap.mem_insert, Std.LawfulEqCmp.compare_eq_iff_eq,
    eq_comm]

/-- A name beside others is apart from them if none of them is compared as equal to it. -/
theorem namesApart_addHeader_iff {caseless : Bool} {r : HttpResponse} {key value : Bytes} :
    NamesApart caseless (r.addHeader key value) ↔ NamesApart caseless r ∧
      ∀ k ∈ r.headers, fold caseless k = fold caseless key → k = key := by
  simp only [NamesApart, mem_addHeader, forall_eq_or_imp]
  constructor
  · rintro ⟨⟨-, hnew⟩, hold⟩
    exact ⟨fun k hk k' hk' => (hold k hk).2 k' hk', fun k hk => (hold k hk).1⟩
  · rintro ⟨hold, hnew⟩
    exact ⟨⟨fun _ => trivial, fun k hk he => (hnew k hk he.symm).symm⟩,
      fun k hk => ⟨hnew k hk, hold k hk⟩⟩

/-- A header that is missing is added beside the others. -/
theorem mem_headersVector_of_not_mem {r : HttpResponse} {key value : Bytes} (h : key ∉ r.headers)
    {f : Bytes × Bytes} (hf : f ∈ r.headersVector) :
    f ∈ (r.addHeader key value).headersVector := by
  have hne : ¬ compare key f.1 = .eq := by
    rw [Std.LawfulEqCmp.compare_eq_iff_eq]
    rintro rfl
    exact h (mem_headers_iff.2 (List.mem_map_of_mem hf))
  rw [mem_headersVector] at hf ⊢
  rw [HttpResponse.addHeader, Std.ExtTreeMap.getElem?_insert, if_neg hne, hf]

/-- The case of a response that has the length, or says it in another way. -/
theorem readsBack_iff_of_complete_eq {caseless : Bool} (h : Writable resp)
    (hdown : ¬ Downgrades req) (heq : complete resp = resp) :
    ReadsBack caseless req resp ↔
      NamesApart caseless resp ∧
        (∀ k ∈ resp.headers, fold caseless k ≠ fold caseless (bytes "Connection")) ∧
        Framed caseless resp.headersVector resp.body := by
  have hvector : (finish req resp).headersVector = resp.headersVector := by
    rw [headersVector_finish_of_not_downgrades hdown, heq]
  have hentries : ∀ f ∈ resp.headersVector, f ∈ sentFields (finish req resp) := fun f hf =>
    List.mem_cons_of_mem _ (hvector ▸ hf)
  rw [readsBack_iff_complete h hdown, heq, iff_true_intro hentries, true_and]

/-- The case of a response to which the length is added. -/
theorem readsBack_iff_of_not_mem {caseless : Bool} (h : Writable resp) (hdown : ¬ Downgrades req)
    (hmem : bytes "Content-Length" ∉ resp.headers)
    (hte : resp.getHeader (bytes "Transfer-Encoding") = []) :
    ReadsBack caseless req resp ↔
      NamesApart caseless resp ∧
        (∀ k ∈ resp.headers, fold caseless k ≠ fold caseless (bytes "Connection")) ∧
        ∀ k ∈ resp.headers, fold caseless k = fold caseless (bytes "Content-Length") →
          k = bytes "Content-Length" := by
  have hcl : resp.getHeader (bytes "Content-Length") = [] := by
    rw [HttpResponse.getHeader, Std.ExtTreeMap.getElem?_eq_none hmem]
    rfl
  have heq : complete resp =
      resp.addHeader (bytes "Content-Length") (decimal resp.body.length) := if_pos ⟨hcl, hte⟩
  have hentries : ∀ f ∈ resp.headersVector, f ∈ sentFields (finish req resp) := fun f hf => by
    rw [sentFields, headersVector_finish_of_not_downgrades hdown, heq]
    exact List.mem_cons_of_mem _ (mem_headersVector_of_not_mem hmem hf)
  have hadded : (bytes "Content-Length", decimal resp.body.length) ∈
      (complete resp).headersVector := by
    rw [mem_headersVector, heq]
    simp [HttpResponse.addHeader]
  have hframed : NamesApart caseless (complete resp) →
      Framed caseless (complete resp).headersVector resp.body := fun hapart =>
    framed_of_mem hapart hadded (natOf_decimal _)
  have hapart : NamesApart caseless (complete resp) ↔ NamesApart caseless resp ∧
      ∀ k ∈ resp.headers, fold caseless k = fold caseless (bytes "Content-Length") →
        k = bytes "Content-Length" := by
    rw [heq, namesApart_addHeader_iff]
  have hconnection : (∀ k ∈ (complete resp).headers,
      fold caseless k ≠ fold caseless (bytes "Connection")) ↔
      ∀ k ∈ resp.headers, fold caseless k ≠ fold caseless (bytes "Connection") := by
    rw [heq]
    simp only [mem_addHeader, forall_eq_or_imp]
    exact and_iff_right (fold_connection_ne caseless).symm
  rw [readsBack_iff_complete h hdown, iff_true_intro hentries, true_and, hconnection]
  constructor
  · rintro ⟨hapart', hconn, -⟩
    exact ⟨(hapart.1 hapart').1, hconn, (hapart.1 hapart').2⟩
  · rintro ⟨hnames, hconn, hlen⟩
    have hapart' := hapart.2 ⟨hnames, hlen⟩
    exact ⟨hapart', hconn, hframed hapart'⟩

/-- **When a response is given back.** A response whose headers are lines, and whose
`Content-Length` is right where it counts, is given back by a client exactly if it meets the
condition; for names compared as they stand, and for names compared without regard to case. -/
theorem readsBack_iff (caseless : Bool) (req : HttpRequest) (h : Writable resp)
    (hlength : LengthRight resp) : ReadsBack caseless req resp ↔ Delimited caseless req resp := by
  by_cases hdown : Downgrades req
  · -- the header `Connection` stands beside the fixed field
    refine iff_of_false (fun hback => ?_) fun hdel => hdel.1 hdown
    obtain ⟨value, hmem⟩ := connection_mem_of_downgrades hdown resp
    have hnodup := nodup_sentFields_iff.1 ((readsBack_iff_fields h).1 hback).1
    exact hnodup.2 _ (mem_headers_iff.2 (List.mem_map_of_mem hmem)) rfl
  rw [Delimited, and_iff_right hdown]
  by_cases hte : resp.getHeader (bytes "Transfer-Encoding") = []
  · rw [if_pos hte]
    by_cases hmem : bytes "Content-Length" ∈ resp.headers
    · -- the response says the length, and says it right
      obtain ⟨value, hvalue⟩ : ∃ value, resp.headers[bytes "Content-Length"]? = some value :=
        ⟨_, Std.ExtTreeMap.getElem?_eq_some_getElem hmem⟩
      have hright := hlength value hvalue hte
      have heq : complete resp = resp := by
        refine if_neg fun hnil => ?_
        rw [HttpResponse.getHeader, hvalue] at hnil
        rw [show value = [] from hnil.1] at hright
        cases hright
      rw [readsBack_iff_of_complete_eq h hdown heq]
      constructor
      · rintro ⟨hapart, hconn, -⟩
        exact ⟨hapart, hconn, fun k hk => hapart k hk _ hmem⟩
      · rintro ⟨hapart, hconn, -⟩
        exact ⟨hapart, hconn, framed_of_mem hapart (mem_headersVector.2 hvalue) hright⟩
    · exact readsBack_iff_of_not_mem h hdown hmem hte
  · rw [if_neg hte]
    exact readsBack_iff_of_complete_eq h hdown (if_neg fun hnil => hte hnil.2)

/-- A response that moves the client, and says how long its body is. -/
def movedResponse : HttpResponse :=
  ((((HttpResponse.new false).setStatusCode 301).addHeader (bytes "Content-Length")
    (bytes "5")).addHeader (bytes "Location") (bytes "http://a: b")).setBody (bytes "moved")

theorem mem_movedResponse {k : Bytes} (h : k ∈ movedResponse.headers) :
    k = bytes "Location" ∨ k = bytes "Content-Length" := by
  have hmem := mem_addHeader.1 (show k ∈ (HttpResponse.addHeader _ _ _).headers from h)
  rcases hmem with hk | hk
  · exact .inl hk
  · rcases mem_addHeader.1 hk with hk | hk
    · exact .inr hk
    · exact absurd hk Std.ExtTreeMap.not_mem_empty

theorem movedResponse_writable : Writable movedResponse := ⟨by decide +kernel, by decide⟩

theorem movedResponse_lengthRight : LengthRight movedResponse := by
  have hvalue : movedResponse.headers[bytes "Content-Length"]? = some (bytes "5") := by
    decide +kernel
  intro value h _
  obtain rfl := Option.some.inj (hvalue.symm.trans h)
  decide +kernel

theorem movedResponse_delimited :
    Delimited true { HttpRequest.new with method := .kGet, version := bytes "HTTP/1.1" }
      movedResponse := by
  refine ⟨by decide, fun k hk k' hk' => ?_, fun k hk => ?_, ?_⟩
  · rcases mem_movedResponse hk with rfl | rfl <;> rcases mem_movedResponse hk' with rfl | rfl <;>
      decide
  · rcases mem_movedResponse hk with rfl | rfl <;> decide
  · rw [if_pos (by decide +kernel)]
    intro k hk
    rcases mem_movedResponse hk with rfl | rfl <;> decide

/-- In HTTP/1.1 it is given back. -/
theorem readsBack_movedResponse :
    ReadsBack true { HttpRequest.new with method := .kGet, version := bytes "HTTP/1.1" }
      movedResponse :=
  (readsBack_iff true _ movedResponse_writable movedResponse_lengthRight).2 movedResponse_delimited

/-- A page of two letters. -/
def okResponse : HttpResponse := ((HttpResponse.new false).setStatusCode 200).setBody (bytes "ok")

theorem okResponse_writable : Writable okResponse := ⟨by decide, by decide⟩

theorem okResponse_lengthRight : LengthRight okResponse := fun value h => by
  simp [okResponse, HttpResponse.new, HttpResponse.setStatusCode, HttpResponse.setBody] at h

/-- To a request of HTTP/1.0 it is sent with two fields `Connection`. -/
theorem two_connection_fields :
    let req := { HttpRequest.new with method := .kGet, version := bytes "HTTP/1.0" }
    Writable okResponse ∧ LengthRight okResponse ∧
      (finish req okResponse).appendToBuffer = bytes "HTTP/1.0 200 OK\r\nConnection: close\r\n" ++
        bytes "Connection: close\r\nContent-Length: 2\r\n\r\nok" ∧
      ¬ ReadsBack false req okResponse := by
  refine ⟨okResponse_writable, okResponse_lengthRight, by decide +kernel, fun hback => ?_⟩
  have hnodup := ((readsBack_iff_fields okResponse_writable).1 hback).1
  revert hnodup
  decide +kernel

end HttpServer

end KamaHttp
