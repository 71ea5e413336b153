import KamaHttp.Http.Message

/-!
# Where a message ends

The length of a request is decided at the blank line, by its method. Of a POST or PUT the last
Content-Length counts; a request of any other method has no body, whatever its fields say.

* `parseRequest_framing`: what is left unread behind a request with a Content-Length.
-/

namespace KamaHttp

open Search HttpRequest HttpContext

theorem lastValue_append_cons {name : Bytes} {f : Field} (hf : f.name = name)
    {after : List Field} (hlast : ∀ g ∈ after, g.name ≠ name) (before : List Field) :
    lastValue name (before ++ f :: after) = some (trim f.value) := by
  have hafter : after.filter (fun g => g.name = name) = [] :=
    List.filter_eq_nil_iff.2 fun g hg => by simpa using hlast g hg
  simp [lastValue, hf, hafter]

namespace HttpContext

/-- **What is left unread behind a request with a Content-Length.** The request line `l` is followed
by field lines, the last `Content-Length` of which is a decimal numeral of at most `INT_MAX`; behind
the blank line stand as many bytes `b` as it says and a tail `w`. A POST or PUT is read with the
body `b` and leaves exactly the tail; a request of another method ends at the blank line. -/
theorem parseRequest_framing (l : RequestLine) (before after : List Field) (f : Field)
    (hf : f.name = bytes "Content-Length") (hlast : ∀ g ∈ after, g.name ≠ bytes "Content-Length")
    (hne : trim f.value ≠ []) (hdigits : ∀ d ∈ trim f.value, isdigit d)
    (hmax : (digitsVal (trim f.value) : ℤ) ≤ intMax) (b w : Bytes)
    (hb : b.length = digitsVal (trim f.value)) (t : Timestamp) :
    ∃ p, parseRequest HttpContext.new (headText l (before ++ f :: after) ++ (b ++ w)) t = some p ∧
      p.outcome = .complete ∧
      (l.TakesBody → p.unread = w ∧ p.context.request.getBody = b ∧
        p.context.request.contentLength = b.length) ∧
      (¬ l.TakesBody → p.unread = b ++ w ∧ p.context.request.getBody = [] ∧
        p.context.request.contentLength = 0) := by
  have hvalue : stoi ((lastValue (bytes "Content-Length") (before ++ f :: after)).getD []) =
      .ok (digitsVal (trim f.value) : ℤ) := by
    rw [lastValue_append_cons hf hlast, Option.getD_some, stoi_of_digits hne hdigits hmax]
  have hstate : HttpContext.new.state ≠ .kGotAll := by decide
  by_cases hl : l.TakesBody
  · let m : Message := ⟨l, before ++ f :: after, b,
      fun _ => ⟨_, hvalue, (toUint64_of_nonneg hmax).trans hb.symm⟩, fun h => absurd hl h⟩
    have hp := reads_message (t := t) m (r := HttpRequest.new) rfl w
    rw [Message.text, List.append_assoc] at hp
    refine ⟨_, (parseRequest_eq_some_iff_reads hstate).2 hp, rfl, fun _ => ⟨rfl, ?_, ?_⟩,
      fun h => absurd hl h⟩
    · refine (m.fill_content _ t).trans ?_
      split
      · rename_i h; exact h.symm
      · rfl
    · exact (m.fill_contentLength _ t).trans (if_pos hl)
  · let m : Message := ⟨l, before ++ f :: after, [], fun h => absurd h hl, fun _ => rfl⟩
    have hp := reads_message (t := t) m (r := HttpRequest.new) rfl (b ++ w)
    rw [Message.text, List.append_assoc] at hp
    refine ⟨_, (parseRequest_eq_some_iff_reads hstate).2 hp, rfl, fun h => absurd h hl,
      fun _ => ⟨rfl, ?_, ?_⟩⟩
    · exact (m.fill_content _ t).trans (if_pos rfl)
    · exact (m.fill_contentLength _ t).trans (if_neg hl)

/-- The field `Content-Length: 1`. -/
def contentLengthOne : Field :=
  ⟨bytes "Content-Length", bytes " 1", colon_not_mem_contentLength, by decide⟩

/-- The line `PUT /a HTTP/1.1`. -/
def putLine : RequestLine :=
  ⟨bytes "PUT", bytes "/a", bytes "HTTP/1.1", by decide, by decide, RequestLine.one_one_valid,
    by decide⟩

theorem parseRequest_framing_put :
    ∃ p, parseRequest HttpContext.new
        (headText putLine [contentLengthOne] ++ (bytes "x" ++ bytes "GET")) 1 = some p ∧
      p.outcome = .complete ∧
      (putLine.TakesBody → p.unread = bytes "GET" ∧ p.context.request.getBody = bytes "x" ∧
        p.context.request.contentLength = (bytes "x").length) ∧
      (¬ putLine.TakesBody → p.unread = bytes "x" ++ bytes "GET" ∧
        p.context.request.getBody = [] ∧ p.context.request.contentLength = 0) :=
  parseRequest_framing putLine [] [] contentLengthOne rfl (by simp) (by decide)
    (List.all_eq_true.1 (by decide)) (by decide) (bytes "x") (bytes "GET") (by decide) 1

/-- Of a GET the byte that the Content-Length announces stays unread, before the tail. -/
theorem get_leaves_body_unread :
    ∃ p, parseRequest HttpContext.new
        (bytes "GET / HTTP/1.1\r\nContent-Length: 1\r\n\r\n" ++ (bytes "x" ++ bytes "GET")) 1 =
          some p ∧
      p.outcome = .complete ∧ p.unread = bytes "xGET" ∧ p.unread ≠ bytes "GET" :=
  ⟨⟨.ok true, ⟨.kGotAll, _⟩, _⟩, rfl, rfl, rfl, by decide⟩

end HttpContext

end KamaHttp
