import KamaHttp.Http.Residue

/-!
# Parsing a stream piece by piece

The bytes of a connection arrive in chunks, and `parseRequest` is called after each of them on what
is unread so far. `feed` is that sequence of calls, up to the first one that does not wait for more.

* `parseRequest_resumed`, `parseRequest_append`: a call that waits may be resumed on what comes
  next, and a call that is done is done in the same way when more is there already.
* `feed_untimed`: the chunks are parsed as their concatenation is.
* `parseRequest_segmentation`: the two together, for one cut and for any number of cuts.
-/

namespace KamaHttp

/-- The bytes of a sequence of chunks. -/
def stream (chunks : List (Bytes × Timestamp)) : Bytes := (chunks.map Prod.fst).flatten

@[simp] theorem stream_nil : stream [] = [] := rfl

@[simp] theorem stream_cons (s : Bytes) (t : Timestamp) (chunks : List (Bytes × Timestamp)) :
    stream ((s, t) :: chunks) = s ++ stream chunks := rfl

theorem Left.outcome_eq_incomplete {p : ParseResult} :
    p.outcome = .incomplete ↔ p.ret = .ok true ∧ p.context.state ≠ .kGotAll := by
  obtain ⟨_ | _, _, _⟩ := p <;> grind [Left.outcome]

theorem Left.outcome_eq_complete {p : ParseResult} :
    p.outcome = .complete ↔ p.ret = .ok true ∧ p.context.state = .kGotAll := by
  obtain ⟨_ | _, _, _⟩ := p <;> grind [Left.outcome]

namespace HttpContext

/-- The chunks arrive one after the other, behind the unread bytes `buf`, and `parseRequest` is
called after each of them until it no longer waits; what arrives after that stays unread. -/
def feed : HttpContext → Bytes → List (Bytes × Timestamp) → Option ParseResult
  | c, buf, [] => some ⟨.ok true, c, buf⟩
  | c, buf, (s, t) :: chunks =>
    match parseRequest c (buf ++ s) t with
    | none => none
    | some p =>
      if p.outcome = .incomplete then feed p.context p.unread chunks
      else some (p.append (stream chunks))

variable {c : HttpContext} {buf : Bytes} {t : Timestamp} {p : ParseResult}

/-- **A call that waits may be resumed on what comes next.** -/
theorem parseRequest_resumed (hc : c.state ≠ .kGotAll) (h : parseRequest c buf t = some p)
    (hw : p.outcome = .incomplete) (s : Bytes) :
    parseRequest p.context (p.unread ++ s) t = parseRequest c (buf ++ s) t := by
  have hc' : p.context.state ≠ .kGotAll := (Left.outcome_eq_incomplete.1 hw).2
  have hr := (parseRequest_eq_some_iff_reads hc).1 h
  ext x
  rw [parseRequest_eq_some_iff_reads hc, parseRequest_eq_some_iff_reads hc',
    Reader.returns_append_iff_of_waits hr hw]

/-- **A call that is done is done in the same way when more is there already.** -/
theorem parseRequest_append (hc : c.state ≠ .kGotAll) (h : parseRequest c buf t = some p)
    (hw : p.outcome ≠ .incomplete) (s : Bytes) :
    parseRequest c (buf ++ s) t = some (p.append s) :=
  (parseRequest_eq_some_iff_reads hc).2
    (Reader.returns_append ((parseRequest_eq_some_iff_reads hc).1 h) hw s)

/-- **The chunks are parsed as their concatenation is.** -/
theorem feed_untimed (hc : c.state ≠ .kGotAll) (buf : Bytes) {chunks : List (Bytes × Timestamp)}
    (hne : chunks ≠ []) (t : Timestamp) :
    (feed c buf chunks).map Left.untimed =
      (parseRequest c (buf ++ stream chunks) t).map Left.untimed := by
  induction chunks generalizing c buf with
  | nil => exact absurd rfl hne
  | cons chunk chunks ih =>
    obtain ⟨s, t₁⟩ := chunk
    obtain ⟨p, hp⟩ := exists_parseRequest hc (buf ++ s) t₁
    rw [stream_cons, ← List.append_assoc, parseRequest_untimed rfl _ t t₁]
    simp only [feed, hp]
    by_cases hw : p.outcome = .incomplete
    · rw [if_pos hw, ← parseRequest_resumed hc hp hw]
      have hc' := (Left.outcome_eq_incomplete.1 hw).2
      by_cases hch : chunks = []
      · subst hch
        have hret := (Left.outcome_eq_incomplete.1 hw).1
        have hagain := parseRequest_resumed hc hp hw []
        rw [List.append_nil (buf ++ s), hp] at hagain
        rw [stream_nil, hagain, feed, ← hret]
      · rw [ih hc' _ hch, parseRequest_untimed rfl _ t t₁]
    · rw [if_neg hw, parseRequest_append hc hp hw]

/-- **Incremental parsing equals one-shot parsing.** From any context that is not in `kGotAll`,
with any bytes unread: a call after `s₁` that waits, resumed after `s₂`, ends as the one call after
`s₁ ++ s₂`; a call after `s₁` that is done is what that one call gives, with `s₂` left unread; and
the stream may be cut in any other way. -/
theorem parseRequest_segmentation (c : HttpContext) (hc : c.state ≠ .kGotAll) (buf s₁ s₂ : Bytes)
    (t₁ t₂ t : Timestamp) :
    ∃ p₁ p, parseRequest c (buf ++ s₁) t₁ = some p₁ ∧
      parseRequest c (buf ++ (s₁ ++ s₂)) t = some p ∧
      (p₁.outcome = .incomplete →
        ∃ p₂, parseRequest p₁.context (p₁.unread ++ s₂) t₂ = some p₂ ∧
          p₂.outcome = p.outcome ∧ p₂.untimed = p.untimed) ∧
      (p₁.outcome ≠ .incomplete →
        p.outcome = p₁.outcome ∧ p.untimed = (p₁.append s₂).untimed) ∧
      ∀ chunks, chunks ≠ [] → stream chunks = s₁ ++ s₂ →
        ∃ q, feed c buf chunks = some q ∧ q.outcome = p.outcome ∧ q.untimed = p.untimed := by
  obtain ⟨p₁, hp₁⟩ := exists_parseRequest hc (buf ++ s₁) t₁
  obtain ⟨p, hp⟩ := exists_parseRequest hc (buf ++ (s₁ ++ s₂)) t
  refine ⟨p₁, p, hp₁, hp, fun hw => ?_, fun hw => ?_, fun chunks hne hs => ?_⟩
  · have hc' := (Left.outcome_eq_incomplete.1 hw).2
    obtain ⟨p₂, hp₂⟩ := exists_parseRequest hc' (p₁.unread ++ s₂) t₂
    have he : p₂.untimed = p.untimed := by
      have h := parseRequest_untimed (c := p₁.context) rfl (p₁.unread ++ s₂) t₂ t₁
      rw [parseRequest_resumed hc hp₁ hw, List.append_assoc, parseRequest_untimed rfl _ t₁ t,
        hp, hp₂] at h
      simpa using h
    exact ⟨p₂, hp₂, Left.outcome_eq_of_untimed he, he⟩
  · have he : p.untimed = (p₁.append s₂).untimed := by
      have h := parseRequest_untimed (c := c) rfl (buf ++ (s₁ ++ s₂)) t t₁
      rw [hp, ← List.append_assoc, parseRequest_append hc hp₁ hw] at h
      simpa using h
    exact ⟨(Left.outcome_eq_of_untimed he).trans (p₁.outcome_append s₂), he⟩
  · have h := feed_untimed hc buf hne t
    rw [hs, hp] at h
    obtain ⟨q, hq, he⟩ := Option.map_eq_some_iff.1 h
    exact ⟨q, hq, Left.outcome_eq_of_untimed he, he⟩

/-- A request line cut inside its line end. -/
theorem parseRequest_segmentation_cut :
    HttpContext.new.state ≠ .kGotAll ∧
      ∃ p₁ p, parseRequest HttpContext.new ([] ++ bytes "GET / HTTP/1.1\r") 1 = some p₁ ∧
        parseRequest HttpContext.new ([] ++ (bytes "GET / HTTP/1.1\r" ++ bytes "\n\r\n")) 2 =
          some p ∧
        (p₁.outcome = .incomplete →
          ∃ p₂, parseRequest p₁.context (p₁.unread ++ bytes "\n\r\n") 2 = some p₂ ∧
            p₂.outcome = p.outcome ∧ p₂.untimed = p.untimed) ∧
        (p₁.outcome ≠ .incomplete →
          p.outcome = p₁.outcome ∧ p.untimed = (p₁.append (bytes "\n\r\n")).untimed) ∧
        ∀ chunks, chunks ≠ [] → stream chunks = bytes "GET / HTTP/1.1\r" ++ bytes "\n\r\n" →
          ∃ q, feed HttpContext.new [] chunks = some q ∧ q.outcome = p.outcome ∧
            q.untimed = p.untimed :=
  ⟨by decide, parseRequest_segmentation HttpContext.new (by decide) [] (bytes "GET / HTTP/1.1\r")
    (bytes "\n\r\n") 1 2 2⟩

end HttpContext

end KamaHttp
