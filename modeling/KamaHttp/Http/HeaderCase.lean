import KamaHttp.Http.Framing
import KamaHttp.Http.Isolation
import KamaHttp.Http.ResponseReader

/-!
# The case of header names

The headers of a request are kept under their names as they were sent. `parseRequest` looks up
`Content-Length` and `onRequest` looks up `Connection`, each in one spelling.

* `exists_reading`: what the parser makes of a request line, field lines and whatever comes behind
  the blank line.
* `readsAlike_iff`: when two casings of the names are read alike.
* `caseBlind_iff`: the requests that are read alike in every casing.
-/

namespace KamaHttp

open HttpContext HttpRequest HttpServer Search Loop

/-! ## What is read -/

/-- What the blank line is followed by, for the parser of a POST or PUT: the length is missing or is
no number, or the body is not there yet, or it is taken. -/
inductive Framing
  | missing
  | bad (e : StdException)
  | awaited
  | taken (n : ℕ)
  deriving DecidableEq

/-- The framing of the bytes behind the blank line under a value of `Content-Length`. -/
def framing (value rest : Bytes) : Framing :=
  if value = [] then .missing
  else
    match stoi value with
    | .error e => .bad e
    | .ok v => if rest.length < toUint64 v then .awaited else .taken (toUint64 v)

/-- What can be observed of a call: how it ends, the body and the unread bytes. -/
def Left.observed (p : ParseResult) : Outcome × Bytes × Bytes :=
  (p.outcome, p.context.request.content, p.unread)

/-- What is observed of a POST or PUT, beside a body `x` of an earlier request. -/
def Framing.observed (x rest : Bytes) : Framing → Outcome × Bytes × Bytes
  | .missing => (.rejected, x, rest)
  | .bad e => (.exception e, x, crlf ++ rest)
  | .awaited => (.incomplete, x, rest)
  | .taken n => (.complete, if n = 0 then x else rest.take n, rest.drop n)

/-- What is observed of any request. -/
def observed (l : RequestLine) (fs : List Field) (x rest : Bytes) : Outcome × Bytes × Bytes :=
  if l.TakesBody then
    (framing ((lastValue (bytes "Content-Length") fs).getD []) rest).observed x rest
  else (.complete, x, rest)

theorem RequestLine.fill_version (l : RequestLine) (r : HttpRequest) :
    (l.fill r).version = l.version := by
  unfold fill
  cases l.query <;> rfl

variable {x rest : Bytes} {n : ℕ} {t : Timestamp} {l : RequestLine} {fs fs' : List Field}

/-- The request behind the head of a message. -/
def headRequest (l : RequestLine) (fs : List Field) (x : Bytes) (n : ℕ) (t : Timestamp) :
    HttpRequest :=
  ((l.fill (HttpRequest.new.carrying 0 x n)).setReceiveTime t).addFields fs

theorem getHeader_headRequest (l : RequestLine) (fs : List Field) (x : Bytes) (n : ℕ)
    (t : Timestamp) (name : Bytes) :
    (headRequest l fs x n t).getHeader name = (lastValue name fs).getD [] := by
  have hnone : ((l.fill (HttpRequest.new.carrying 0 x n)).setReceiveTime t).headers = ∅ := by
    rw [setReceiveTime_headers, l.fill_headers]
    rfl
  rw [headRequest, getHeader_addFields, getHeader_of_headers_empty hnone]

theorem method_headRequest : (headRequest l fs x n t).method = methodOf l.method := by
  simp [headRequest]

theorem content_headRequest : (headRequest l fs x n t).content = x := by
  rw [headRequest, addFields_content, setReceiveTime_content, l.fill_content]
  rfl

theorem version_headRequest : (headRequest l fs x n t).version = l.version := by
  rw [headRequest, addFields_eq]
  exact l.fill_version _

/-- The parser, at the blank line. -/
theorem exists_reads_blank (l : RequestLine) (fs : List Field) (x : Bytes) (n : ℕ) (rest : Bytes)
    (t : Timestamp) :
    ∃ p, (httpReader t).Reads ⟨.kExpectHeaders, headRequest l fs x n t⟩ (crlf ++ rest) p ∧
      p.observed = observed l fs x rest ∧
      p.context.request.headers = (headRequest l fs x n t).headers ∧
      p.context.request.version = (headRequest l fs x n t).version := by
  have hblank : findCRLF (crlf ++ rest) = some ([], rest) := findCRLF_blank rest
  have hmethod : (headRequest l fs x n t).method = methodOf l.method := method_headRequest
  have hcontent : (headRequest l fs x n t).content = x := content_headRequest
  have hlength := getHeader_headRequest l fs x n t (bytes "Content-Length")
  rw [observed, ← hlength]
  generalize headRequest l fs x n t = r at hmethod hcontent
  by_cases hm : l.TakesBody
  · have hm' : r.method = .kPost ∨ r.method = .kPut := by rwa [hmethod]
    rw [if_pos hm, framing]
    by_cases hc : r.getHeader (bytes "Content-Length") = []
    · rw [if_pos hc]
      exact ⟨_, .stop (Iteration.endNoLength (t := t) hblank hm' hc).parseIter_eq,
        by rw [Left.observed, hcontent]; rfl, rfl, rfl⟩
    rw [if_neg hc]
    cases hv : stoi (r.getHeader (bytes "Content-Length")) with
    | error e =>
      exact ⟨_, .stop (Iteration.endBadLength (t := t) hblank hm' hc hv).parseIter_eq,
        by rw [Left.observed, hcontent]; rfl, rfl, rfl⟩
    | ok v =>
      rcases Nat.eq_zero_or_pos (toUint64 v) with hz | hpos
      · refine ⟨_, .stop (Iteration.endZero (t := t) hblank hm' hv hz).parseIter_eq, ?_, rfl, rfl⟩
        simp [Left.observed, Framing.observed, hz, hcontent, Left.outcome, setContentLength]
      have hi := (Iteration.endBody (t := t) hblank hm' hv hpos).parseIter_eq
      by_cases hshort : rest.length < toUint64 v
      · refine ⟨_, .next hi (.stop (Iteration.shortBody (t := t) hshort).parseIter_eq), ?_, rfl,
          rfl⟩
        simp [Left.observed, Framing.observed, hshort, hcontent, Left.outcome, setContentLength]
      · have hfits := Nat.not_lt.1 hshort
        refine ⟨_, .next hi (.stop (Iteration.body (t := t) hfits).parseIter_eq), ?_, rfl, rfl⟩
        have hne : toUint64 v ≠ 0 := by omega
        simp [Left.observed, Framing.observed, hshort, hne, Left.outcome, setContentLength, setBody]
  · have hm' : ¬ (r.method = .kPost ∨ r.method = .kPut) := by rwa [hmethod]
    rw [if_neg hm]
    exact ⟨_, .stop (Iteration.endPlain (t := t) hblank hm').parseIter_eq,
      by rw [Left.observed, hcontent]; rfl, rfl, rfl⟩

/-- **What the parser makes of a head and the bytes behind it.** -/
theorem exists_reading (l : RequestLine) (fs : List Field) (x : Bytes) (n : ℕ) (rest : Bytes)
    (t : Timestamp) : ∃ p, parseRequest (leftover x n) (headText l fs ++ rest) t = some p ∧
      p.observed = observed l fs x rest ∧
      (∀ name, p.context.request.getHeader name = (lastValue name fs).getD []) ∧
      p.context.request.version = l.version := by
  have htext : headText l fs ++ rest = l.text ++ (crlf ++ (lines fs ++ (crlf ++ rest))) := by
    simp only [headText, List.append_assoc]
  obtain ⟨p, hp, hobserved, hheaders, hversion⟩ := exists_reads_blank l fs x n rest t
  refine ⟨p, ?_, hobserved, fun name => ?_, ?_⟩
  · rw [parseRequest_eq_some_iff_reads (leftover_state x n), htext]
    exact (reads_line_fields l fs).2 hp
  · rw [HttpRequest.getHeader, hheaders]
    exact getHeader_headRequest l fs x n t name
  · rw [hversion, version_headRequest]

/-! ## Requests that are read alike -/

/-- How `onRequest` decides on a value of `Connection`: when it begins, and before it sends. -/
def decision (version value : Bytes) : Bool × Bool :=
  (value = bytes "close" || (version = bytes "HTTP/1.0" && value ≠ bytes "Keep-Alive"),
    version = bytes "HTTP/1.0" && value ≠ bytes "Keep-Alive")

/-- The two decisions of `onRequest`. -/
def decisionOn (req : HttpRequest) : Bool × Bool := (close req, decide (Downgrades req))

theorem decisionOn_eq (req : HttpRequest) :
    decisionOn req = decision req.version (req.getHeader (bytes "Connection")) := by
  refine Prod.ext rfl ?_
  rw [Bool.eq_iff_iff]
  refine (decide_eq_true_iff (p := Downgrades req)).trans ?_
  simp [decision, Downgrades]

/-- Beside what earlier requests have left, the two inputs end in the same way, with the same body
and the same bytes unread, and a request that is complete has the same decisions. -/
def ReadsAlike (x : Bytes) (n : ℕ) (buf buf' : Bytes) : Prop :=
  ∀ t t', ∃ p p', parseRequest (leftover x n) buf t = some p ∧
    parseRequest (leftover x n) buf' t' = some p' ∧ p.observed = p'.observed ∧
    (p.outcome = .complete → decisionOn p.context.request = decisionOn p'.context.request)

/-- The lookups of two lists of fields come to the same: of a POST or PUT the same bytes are framed,
and where the request is complete the same is decided. -/
structure SameLookups (l : RequestLine) (fs fs' : List Field) (rest : Bytes) : Prop where
  framed : l.TakesBody → framing ((lastValue (bytes "Content-Length") fs).getD []) rest =
    framing ((lastValue (bytes "Content-Length") fs').getD []) rest
  decided : (l.TakesBody → ∃ n,
      framing ((lastValue (bytes "Content-Length") fs).getD []) rest = .taken n) →
    decision l.version ((lastValue (bytes "Connection") fs).getD []) =
      decision l.version ((lastValue (bytes "Connection") fs').getD [])

theorem le_of_framing {value rest : Bytes} {n : ℕ} (h : framing value rest = .taken n) :
    n ≤ rest.length := by
  rw [framing] at h
  split at h
  · cases h
  split at h
  · cases h
  split at h
  · cases h
  · rename_i hshort
    obtain rfl := Framing.taken.inj h
    exact Nat.not_lt.1 hshort

/-- What is framed can be told from what is observed. -/
theorem framing_eq_of_observed {value value' : Bytes}
    (h : (framing value rest).observed x rest = (framing value' rest).observed x rest) :
    framing value rest = framing value' rest := by
  rcases hf : framing value rest with _ | e | _ | m <;>
    rcases hf' : framing value' rest with _ | e' | _ | m' <;>
    simp only [hf, hf', Framing.observed, Prod.mk.injEq, reduceCtorEq, false_and, and_true,
      Outcome.exception.injEq, true_and] at h
  · rfl
  · rw [h]
  · rfl
  · have hlen := congrArg List.length h.2
    have hm := le_of_framing hf
    have hm' := le_of_framing hf'
    rw [List.length_drop, List.length_drop] at hlen
    rw [show m = m' by omega]

theorem complete_iff : (observed l fs x rest).1 = .complete ↔
    (l.TakesBody → ∃ n,
      framing ((lastValue (bytes "Content-Length") fs).getD []) rest = .taken n) := by
  rw [observed]
  by_cases hm : l.TakesBody
  · rw [if_pos hm]
    rcases framing ((lastValue (bytes "Content-Length") fs).getD []) rest with _ | e | _ | m <;>
      simp [Framing.observed, hm]
  · simp [hm]

/-- Two lists of fields are read alike if the same is observed and, of complete requests, the same
decided. -/
theorem readsAlike_iff_observed (l : RequestLine) (fs fs' : List Field) (x : Bytes) (n : ℕ)
    (rest : Bytes) :
    ReadsAlike x n (headText l fs ++ rest) (headText l fs' ++ rest) ↔
      observed l fs x rest = observed l fs' x rest ∧ ((observed l fs x rest).1 = .complete →
        decision l.version ((lastValue (bytes "Connection") fs).getD []) =
          decision l.version ((lastValue (bytes "Connection") fs').getD [])) := by
  have hreads : ∀ t t', ∃ p p',
      parseRequest (leftover x n) (headText l fs ++ rest) t = some p ∧
      parseRequest (leftover x n) (headText l fs' ++ rest) t' = some p' ∧
      p.observed = observed l fs x rest ∧ p'.observed = observed l fs' x rest ∧
      decisionOn p.context.request =
        decision l.version ((lastValue (bytes "Connection") fs).getD []) ∧
      decisionOn p'.context.request =
        decision l.version ((lastValue (bytes "Connection") fs').getD []) := by
    intro t t'
    obtain ⟨p, hp, hobserved, hget, hversion⟩ := exists_reading l fs x n rest t
    obtain ⟨p', hp', hobserved', hget', hversion'⟩ := exists_reading l fs' x n rest t'
    exact ⟨p, p', hp, hp', hobserved, hobserved',
      by rw [decisionOn_eq, hversion, hget], by rw [decisionOn_eq, hversion', hget']⟩
  constructor
  · intro h
    obtain ⟨p, p', hp, hp', hobserved, hobserved', hdecision, hdecision'⟩ := hreads 0 0
    obtain ⟨q, q', hq, hq', hsame, hcomplete⟩ := h 0 0
    obtain rfl := Option.some.inj (hp.symm.trans hq)
    obtain rfl := Option.some.inj (hp'.symm.trans hq')
    rw [← hobserved, ← hobserved', ← hdecision, ← hdecision']
    exact ⟨hsame, hcomplete⟩
  · rintro ⟨hsame, hcomplete⟩ t t'
    obtain ⟨p, p', hp, hp', hobserved, hobserved', hdecision, hdecision'⟩ := hreads t t'
    refine ⟨p, p', hp, hp', by rw [hobserved, hobserved', hsame], ?_⟩
    rw [hdecision, hdecision']
    exact fun ho => hcomplete ((congrArg Prod.fst hobserved).symm.trans ho)

/-- **When two lists of fields are read alike.** -/
theorem readsAlike_iff (l : RequestLine) (fs fs' : List Field) (x : Bytes) (n : ℕ)
    (rest : Bytes) :
    ReadsAlike x n (headText l fs ++ rest) (headText l fs' ++ rest) ↔
      SameLookups l fs fs' rest := by
  rw [readsAlike_iff_observed, complete_iff]
  constructor
  · rintro ⟨hsame, hdecided⟩
    refine ⟨fun hm => ?_, hdecided⟩
    rw [observed, observed, if_pos hm, if_pos hm] at hsame
    exact framing_eq_of_observed hsame
  · rintro ⟨hframed, hdecided⟩
    refine ⟨?_, hdecided⟩
    rw [observed, observed]
    split
    · rename_i hm
      rw [hframed hm]
    · rfl

/-! ## Casings of names -/

/-- A byte that is no letter stays what it is in lower case, and no other becomes it. -/
theorem eq_of_toLower {b c : Byte} (hc : ¬ (65 ≤ c - 32 ∧ c - 32 ≤ 90)) (h : toLower b = c) :
    b = c := by
  rw [toLower] at h
  split at h
  · rename_i hb
    subst h
    rw [UInt8.add_sub_cancel] at hc
    exact absurd hb hc
  · exact h

theorem toLower_toLower (b : Byte) : toLower (toLower b) = toLower b := by
  by_cases hb : 65 ≤ b ∧ b ≤ 90
  · have hlow : toLower b = b + 32 := if_pos hb
    rw [hlow]
    refine if_neg ?_
    grind
  · have hlow : toLower b = b := if_neg hb
    rw [hlow, hlow]

/-- A name in other letter cases has the same bytes that are no letters. -/
theorem not_mem_of_map_toLower {name name' : Bytes} {c : Byte}
    (hc : ¬ (65 ≤ c - 32 ∧ c - 32 ≤ 90)) (hlower : toLower c = c)
    (h : name.map toLower = name'.map toLower) (hname : c ∉ name) : c ∉ name' := by
  intro hmem
  have hlow := List.mem_map_of_mem (f := toLower) hmem
  rw [hlower, ← h] at hlow
  obtain ⟨b, hb, hbc⟩ := List.mem_map.1 hlow
  rw [eq_of_toLower hc hbc] at hb
  exact hname hb

theorem findCRLF_of_map_toLower {name name' : Bytes} (h : name.map toLower = name'.map toLower)
    (hname : findCRLF name = none) : findCRLF name' = none := by
  rw [findCRLF, breakOn_eq_none_iff] at hname ⊢
  rintro ⟨u, v, huv⟩
  have hmap : u.map toLower ++ crlf.map toLower ++ v.map toLower = name.map toLower := by
    rw [h, ← huv, List.map_append, List.map_append]
  obtain ⟨l, v', rfl, hl, hv⟩ := List.append_eq_map_iff.1 hmap
  obtain ⟨u', m, rfl, hu, hm⟩ := List.map_eq_append_iff.1 hl
  have hcrlf : m = crlf := by
    have hlower : crlf.map toLower = [13, 10] := by decide
    rw [hlower] at hm
    obtain ⟨a, m', rfl, ha, hm'⟩ := List.map_eq_cons_iff.1 hm
    obtain ⟨b, m'', rfl, hb, hnil⟩ := List.map_eq_cons_iff.1 hm'
    rw [eq_of_toLower (by decide) ha, eq_of_toLower (by decide) hb, List.map_eq_nil_iff.1 hnil]
    rfl
  exact hname ⟨u', v', by rw [hcrlf]⟩

/-- No part of a line has a line end. -/
theorem findCRLF_of_infix {u v : Bytes} (h : u <:+: v) (hv : findCRLF v = none) :
    findCRLF u = none := by
  rw [findCRLF, breakOn_eq_none_iff] at hv ⊢
  exact fun hsub => hv (hsub.trans h)

/-- The field, under a name in other letter cases. -/
def Field.respell (f : Field) (name : Bytes) (h : f.name.map toLower = name.map toLower) :
    Field where
  name := name
  value := f.value
  colon_not_mem := not_mem_of_map_toLower (by decide) (by decide) h f.colon_not_mem
  isLine := by
    have hname : findCRLF f.name = none :=
      findCRLF_of_infix (List.prefix_append _ _).isInfix f.isLine
    have hvalue : findCRLF f.value = none :=
      findCRLF_of_infix ((List.suffix_cons _ _).trans (List.suffix_append _ _)).isInfix f.isLine
    exact findCRLF_append_cons (by decide) (findCRLF_of_map_toLower h hname) hvalue

/-- The field, with its name in lower case. -/
def Field.lower (f : Field) : Field :=
  f.respell (f.name.map toLower) (by simp [toLower_toLower])

/-- The same fields in the same order, with their names in other letter cases. -/
def Recased (fs fs' : List Field) : Prop :=
  List.Forall₂ (fun f f' => f.name.map toLower = f'.name.map toLower ∧ f.value = f'.value) fs fs'

theorem Recased.refl (fs : List Field) : Recased fs fs :=
  List.forall₂_same.2 fun _ _ => ⟨rfl, rfl⟩

theorem recased_lower (fs : List Field) : Recased fs (fs.map Field.lower) := by
  rw [Recased, List.forall₂_map_right_iff]
  exact List.forall₂_same.2 fun f _ => ⟨by simp [Field.lower, Field.respell, toLower_toLower], rfl⟩

/-- The values under a name do not depend on its case. -/
theorem Recased.sentValues_eq (h : Recased fs fs') (name : Bytes) :
    sentValues name fs = sentValues name fs' := by
  induction h with
  | nil => rfl
  | @cons f f' fs fs' hf _ ih =>
    obtain ⟨hname, hvalue⟩ := hf
    simp only [sentValues, List.filter_cons, hname] at ih ⊢
    split
    · rw [List.map_cons, List.map_cons, ih, hvalue]
    · exact ih

/-- What is looked up is one of the values that were sent. -/
theorem mem_sentValues {name value : Bytes} (h : lastValue name fs = some value) :
    value ∈ sentValues name fs := by
  obtain ⟨f, hf, rfl⟩ := Option.map_eq_some_iff.1 h
  have hmem := List.mem_of_getLast? hf
  simp only [List.mem_filter, decide_eq_true_eq] at hmem
  refine List.mem_map.2 ⟨f, ?_, rfl⟩
  rw [List.mem_filter, hmem.2]
  exact ⟨hmem.1, by simp⟩

/-- No field in lower case is looked up under a name that has a letter in upper case. -/
theorem filter_lower {name : Bytes} (h : name.map toLower ≠ name) (fs : List Field) :
    (fs.map Field.lower).filter (fun f => f.name = name) = [] := by
  rw [List.filter_eq_nil_iff]
  intro f hf hname
  obtain ⟨g, -, rfl⟩ := List.mem_map.1 hf
  have hlower : g.name.map toLower = name := of_decide_eq_true hname
  refine h ?_
  rw [← hlower, List.map_map]
  exact List.map_congr_left fun b _ => toLower_toLower b

theorem lastValue_lower {name : Bytes} (h : name.map toLower ≠ name) (fs : List Field) :
    lastValue name (fs.map Field.lower) = none := by
  rw [lastValue, filter_lower h]
  rfl

/-- Every value that was sent under a name is looked up in some casing. -/
theorem exists_recased {name value : Bytes} (hname : name.map toLower ≠ name)
    (h : value ∈ sentValues name fs) :
    ∃ fs', Recased fs fs' ∧ lastValue name fs' = some value := by
  obtain ⟨f, hf, rfl⟩ := List.mem_map.1 h
  obtain ⟨hmem, hlower⟩ := List.mem_filter.1 hf
  obtain ⟨front, back, rfl⟩ := List.append_of_mem hmem
  have hrespell : f.name.map toLower = name.map toLower := of_decide_eq_true hlower
  refine ⟨front ++ f.respell name hrespell :: back.map Field.lower, ?_, ?_⟩
  · exact List.rel_append (Recased.refl front) (.cons ⟨hrespell, rfl⟩ (recased_lower back))
  · rw [lastValue, List.filter_append, List.filter_cons, filter_lower hname]
    simp [Field.respell]

/-! ## Requests in every casing -/

/-- The request is read alike in every casing of its names. -/
def CaseBlind (l : RequestLine) (fs : List Field) (x : Bytes) (n : ℕ) (rest : Bytes) : Prop :=
  ∀ fs', Recased fs fs' → ReadsAlike x n (headText l fs ++ rest) (headText l fs' ++ rest)

/-- The value of `Connection` that decides in a version. -/
def decisive (version : Bytes) : Bytes :=
  if version = bytes "HTTP/1.0" then bytes "Keep-Alive" else bytes "close"

/-- A POST or PUT whose fields `Content-Length`, in any case, are empty; another request none of
whose fields `Connection`, in any case, decides anything. -/
def Caseless (l : RequestLine) (fs : List Field) : Prop :=
  if l.TakesBody then ∀ v ∈ sentValues (bytes "Content-Length") fs, v = []
  else ∀ v ∈ sentValues (bytes "Connection") fs, v ≠ decisive l.version

theorem framing_eq_missing {value : Bytes} : framing value rest = .missing ↔ value = [] := by
  rw [framing]
  by_cases h : value = []
  · simp [h]
  · rw [if_neg h]
    cases stoi value with
    | error e => simp [h]
    | ok v => simp only [h, iff_false]; split <;> simp

theorem decision_eq_nil_iff {version value : Bytes}
    (hversion : version = bytes "HTTP/1.1" ∨ version = bytes "HTTP/1.0") :
    decision version value = decision version [] ↔ value ≠ decisive version := by
  have hone : bytes "HTTP/1.1" ≠ bytes "HTTP/1.0" := by decide
  have hclose : [] ≠ bytes "close" := by decide
  have halive : [] ≠ bytes "Keep-Alive" := by decide
  rcases hversion with rfl | rfl
  · simp [decision, decisive, hone, hclose]
  · simp +contextual [decision, decisive, hclose, halive]

/-- What is looked up is nothing, or one of the values that were sent. -/
theorem lookup_cases (name : Bytes) (fs : List Field) :
    (lastValue name fs).getD [] = [] ∨ (lastValue name fs).getD [] ∈ sentValues name fs := by
  cases h : lastValue name fs with
  | none => exact .inl rfl
  | some value => exact .inr (mem_sentValues h)

/-- What is looked up in a casing is worth as much as nothing, which is what is looked up in lower
case. -/
theorem CaseBlind.caseless (h : CaseBlind l fs x n rest) : Caseless l fs := by
  have hsame : ∀ fs', Recased fs fs' → SameLookups l fs fs' rest := fun fs' hrecased =>
    (readsAlike_iff l fs fs' x n rest).1 (h fs' hrecased)
  have hlower := hsame _ (recased_lower fs)
  rw [Caseless]
  split
  · rename_i hm
    intro value hvalue
    have hname : (bytes "Content-Length").map toLower ≠ bytes "Content-Length" := by decide
    obtain ⟨fs', hrecased, hlast⟩ := exists_recased hname hvalue
    have hnothing := hlower.framed hm
    rw [(hsame fs' hrecased).framed hm, hlast, lastValue_lower hname] at hnothing
    exact framing_eq_missing.1 (hnothing.trans (framing_eq_missing.2 rfl))
  · rename_i hm
    intro value hvalue
    have hname : (bytes "Connection").map toLower ≠ bytes "Connection" := by decide
    obtain ⟨fs', hrecased, hlast⟩ := exists_recased hname hvalue
    have hnothing := hlower.decided fun hm' => absurd hm' hm
    rw [(hsame fs' hrecased).decided fun hm' => absurd hm' hm, hlast,
      lastValue_lower hname] at hnothing
    exact (decision_eq_nil_iff l.version_valid).1 hnothing

theorem Caseless.caseBlind (h : Caseless l fs) : CaseBlind l fs x n rest := by
  intro fs' hrecased
  rw [readsAlike_iff]
  rw [Caseless] at h
  split at h
  · rename_i hm
    have hnothing : ∀ gs, sentValues (bytes "Content-Length") fs =
        sentValues (bytes "Content-Length") gs →
        (lastValue (bytes "Content-Length") gs).getD [] = [] := by
      intro gs hgs
      rcases lookup_cases (bytes "Content-Length") gs with hnil | hmem
      · exact hnil
      · exact h _ (hgs ▸ hmem)
    have hfs := hnothing fs rfl
    refine ⟨fun _ => by rw [hfs, hnothing fs' (hrecased.sentValues_eq _)], fun htaken => ?_⟩
    obtain ⟨m, hm⟩ := htaken hm
    rw [hfs, framing_eq_missing.2 rfl] at hm
    cases hm
  · rename_i hm
    have hnothing : ∀ gs, sentValues (bytes "Connection") fs =
        sentValues (bytes "Connection") gs →
        decision l.version ((lastValue (bytes "Connection") gs).getD []) =
          decision l.version [] := by
      intro gs hgs
      rcases lookup_cases (bytes "Connection") gs with hnil | hmem
      · rw [hnil]
      · exact (decision_eq_nil_iff l.version_valid).2 (h _ (hgs ▸ hmem))
    refine ⟨fun hm' => absurd hm' hm, fun _ => ?_⟩
    rw [hnothing fs rfl, hnothing fs' (hrecased.sentValues_eq _)]

/-- **When the case of header names does not matter.** For every request line, all fields and
whatever comes behind the blank line, beside what earlier requests have left: with other fields the
request is read alike exactly if the lookups come to the same; and it is read alike in every casing
exactly if there is nothing to look up. -/
theorem caseBlind_iff (l : RequestLine) (fs : List Field) (x : Bytes) (n : ℕ) (rest : Bytes) :
    (∀ fs', ReadsAlike x n (headText l fs ++ rest) (headText l fs' ++ rest) ↔
        SameLookups l fs fs' rest) ∧
      (CaseBlind l fs x n rest ↔ Caseless l fs) :=
  ⟨fun fs' => readsAlike_iff l fs fs' x n rest, CaseBlind.caseless, Caseless.caseBlind⟩

/-- A request with a body of one byte is complete; with the name of its length in lower case it is
rejected, and the body is left unread. -/
theorem lower_length_rejected :
    (parseRequest .new (bytes "PUT /a HTTP/1.1\r\nContent-Length: 1\r\n\r\nx") 0).map
        Left.observed = some (.complete, bytes "x", []) ∧
      (parseRequest .new (bytes "PUT /a HTTP/1.1\r\ncontent-length: 1\r\n\r\nx") 0).map
        Left.observed = some (.rejected, [], bytes "x") ∧
      ¬ CaseBlind putLine [contentLengthOne] [] 0 (bytes "x") := by
  refine ⟨by decide +kernel, by decide +kernel, fun h => ?_⟩
  obtain ⟨p, p', hp, hp', hsame, -⟩ := h _ (recased_lower [contentLengthOne]) 0 0
  have hobserved : (parseRequest (leftover [] 0) (headText putLine [contentLengthOne] ++ bytes "x")
      0).map Left.observed ≠ (parseRequest (leftover [] 0)
        (headText putLine ([contentLengthOne].map Field.lower) ++ bytes "x") 0).map
          Left.observed := by
    decide +kernel
  rw [hp, hp', Option.map_some, Option.map_some, hsame] at hobserved
  exact hobserved rfl

end KamaHttp
