import Mathlib.Data.List.Nodup
import KamaHttp.Session.SessionManager

/-!
# The cookie that names the session

`getSessionIdFromCookie` searches the header `Cookie` for the text `sessionId=`, wherever it stands.
A header is a list of cookies here, with names that differ.

* `getSessionIdFromCookie_of_mentions`: which cookie is read, and what of it.
* `getSessionIdFromCookie_of_first`: when that is the value of the cookie `sessionId`.
-/

namespace KamaHttp

open Search

/-- A cookie of the header. -/
structure Cookie where
  name : Bytes
  value : Bytes
  name_plain : 59 ∉ name ∧ 61 ∉ name
  value_plain : 59 ∉ value

namespace Cookie

def text (c : Cookie) : Bytes := c.name ++ 61 :: c.value

/-- The text of a header. -/
def header : List Cookie → Bytes
  | [] => []
  | [c] => c.text
  | c :: cookies => c.text ++ 59 :: 32 :: header cookies

/-- The text `sessionId=` occurs in the cookie: at the end of its name, or in its value. -/
def Mentions (c : Cookie) : Prop :=
  bytes "sessionId" <:+ c.name ∨ bytes "sessionId=" <:+: c.value

instance (c : Cookie) : Decidable c.Mentions := inferInstanceAs (Decidable (_ ∨ _))

/-- What stands in the cookie behind the first `sessionId=`. -/
def behind (c : Cookie) : Bytes :=
  if bytes "sessionId" <:+ c.name then c.value
  else ((breakOn (bytes "sessionId=") c.value).map Prod.snd).getD []

/-- The value of the cookie with the given name, empty if there is none. -/
def valueOf (name : Bytes) (cookies : List Cookie) : Bytes :=
  ((cookies.find? fun c => c.name = name).map value).getD []

variable {c : Cookie} {cookies : List Cookie}

/-- The first `sessionId=` of a cookie. -/
theorem breakOn_text (c : Cookie) :
    (c.Mentions → (breakOn (bytes "sessionId=") c.text).map Prod.snd = some c.behind) ∧
      (¬ c.Mentions → breakOn (bytes "sessionId=") c.text = none) := by
  have hpattern : bytes "sessionId=" = bytes "sessionId" ++ [61] := rfl
  obtain ⟨hend, hrest⟩ := breakOn_concat (k := bytes "sessionId") (c := 61) (by decide)
    c.name_plain.2 c.value
  rw [← hpattern] at hend hrest
  by_cases hname : bytes "sessionId" <:+ c.name
  · refine ⟨fun _ => ?_, fun h => absurd (.inl hname) h⟩
    rw [behind, if_pos hname]
    exact hend hname
  · rw [text, hrest hname, Mentions, behind, if_neg hname]
    simp only [hname, false_or, Option.map_map, Option.map_eq_none_iff, breakOn_eq_none_iff]
    refine ⟨fun h => ?_, id⟩
    obtain ⟨cut, hcut⟩ := Option.isSome_iff_exists.1 (breakOn_isSome_iff.2 h)
    rw [hcut]
    rfl

/-- What is read behind the first `sessionId=`, up to the next `;`. -/
def readId (s : Bytes) : Bytes :=
  (((breakOn (bytes "sessionId=") s).map Prod.snd).map (List.takeWhile (· ≠ 59))).getD []

theorem not_mem_behind (c : Cookie) : 59 ∉ c.behind := by
  rw [behind]
  split
  · exact c.value_plain
  · rcases h : breakOn (bytes "sessionId=") c.value with _ | ⟨front, rest⟩
    · exact List.not_mem_nil
    · intro hmem
      have hvalue := eq_append_of_breakOn h
      exact c.value_plain (by rw [hvalue]; simp_all)

theorem takeWhile_of_not_mem {s : Bytes} (h : 59 ∉ s) (rest : Bytes) :
    s.takeWhile (· ≠ 59) = s ∧ (s ++ 59 :: rest).takeWhile (· ≠ 59) = s := by
  rw [takeWhile_ne_eq, takeWhile_ne_eq, breakOn_singleton_none.2 h, breakOn_singleton h]
  exact ⟨rfl, rfl⟩

/-- The last cookie of a header. -/
theorem readId_text (c : Cookie) : readId c.text = if c.Mentions then c.behind else [] := by
  obtain ⟨hsome, hnone⟩ := breakOn_text c
  rw [readId]
  split
  · rename_i h
    rw [hsome h]
    exact (takeWhile_of_not_mem c.not_mem_behind []).1
  · rename_i h
    rw [hnone h]
    rfl

/-- A cookie with others behind it. -/
theorem readId_text_append (c : Cookie) (s : Bytes) :
    readId (c.text ++ 59 :: s) = if c.Mentions then c.behind else readId s := by
  obtain ⟨hsome, hnone⟩ := breakOn_text c
  split
  · rename_i h
    obtain ⟨⟨front, rest⟩, hcut, hbehind⟩ := Option.map_eq_some_iff.1 (hsome h)
    obtain rfl : rest = c.behind := hbehind
    rw [readId, breakOn_append hcut]
    exact (takeWhile_of_not_mem c.not_mem_behind s).2
  · rename_i h
    have hsemicolon : 59 ∉ bytes "sessionId=" := by decide
    simp only [readId, breakOn_append_cons hsemicolon (hnone h), Option.map_map]
    rfl

theorem readId_space (s : Bytes) : readId (32 :: s) = readId s := by
  have hspace : ¬ bytes "sessionId=" <+: 32 :: s := fun h => by
    obtain ⟨rest, hrest⟩ := h
    exact absurd (List.head_eq_of_cons_eq hrest) (by decide)
  simp only [readId, breakOn_cons, if_neg hspace, Option.map_map]
  rfl

/-- **What is read of a header**: what stands behind the first `sessionId=` in the first cookie that
mentions it. -/
theorem readId_header (cookies : List Cookie) :
    readId (header cookies) = ((cookies.find? (·.Mentions)).map behind).getD [] := by
  induction cookies with
  | nil => rfl
  | cons c cookies ih =>
    rw [List.find?_cons]
    cases cookies with
    | nil =>
      rw [header, readId_text]
      by_cases h : c.Mentions <;> simp [h]
    | cons d cookies =>
      have hheader : header (c :: d :: cookies) = c.text ++ 59 :: 32 :: header (d :: cookies) := rfl
      rw [hheader, readId_text_append, readId_space, ih]
      by_cases h : c.Mentions <;> simp [h]

/-- The cookie `sessionId` is read with its value. -/
theorem behind_of_name (h : c.name = bytes "sessionId") : c.Mentions ∧ c.behind = c.value := by
  have hend : bytes "sessionId" <:+ c.name := h ▸ List.suffix_rfl
  exact ⟨.inl hend, if_pos hend⟩

theorem valueOf_of_mem (hnodup : (cookies.map name).Nodup) (hc : c ∈ cookies) :
    valueOf c.name cookies = c.value := by
  rcases hfind : cookies.find? (fun d => d.name = c.name) with _ | d
  · exact absurd (List.find?_eq_none.1 hfind c hc) (by simp)
  · have hname : d.name = c.name := by simpa using List.find?_some hfind
    have hd := List.inj_on_of_nodup_map hnodup (List.mem_of_find?_eq_some hfind) hc hname
    rw [valueOf, hfind, hd]
    rfl

end Cookie

namespace SessionManager

open Cookie

theorem getSessionIdFromCookie_eq (req : HttpRequest) :
    getSessionIdFromCookie req = readId (req.getHeader (bytes "Cookie")) := by
  rw [getSessionIdFromCookie, readId]
  rcases breakOn (bytes "sessionId=") (req.getHeader (bytes "Cookie")) with _ | ⟨front, rest⟩
  · rfl
  · simp only [Option.map_some, Option.getD_some, takeWhile_ne_eq]
    rcases breakOn [59] rest with _ | ⟨sessionId, rest'⟩ <;> rfl

variable {req : HttpRequest} {cookies : List Cookie} {c : Cookie}

/-- The first cookie that mentions `sessionId=` is read, whatever stands behind it. -/
theorem getSessionIdFromCookie_of_mentions (hreq : req.getHeader (bytes "Cookie") = header cookies)
    (hc : cookies.find? (·.Mentions) = some c) : getSessionIdFromCookie req = c.behind := by
  rw [getSessionIdFromCookie_eq, hreq, readId_header, hc]
  rfl

/-- Without such a cookie nothing is read. -/
theorem getSessionIdFromCookie_of_none (hreq : req.getHeader (bytes "Cookie") = header cookies)
    (hc : cookies.find? (·.Mentions) = none) : getSessionIdFromCookie req = [] := by
  rw [getSessionIdFromCookie_eq, hreq, readId_header, hc]
  rfl

/-- **When the session is read from its cookie.** For every list of cookies with names that differ:
if no cookie mentions `sessionId=`, or the first one that does is the cookie `sessionId`. -/
theorem getSessionIdFromCookie_of_first (hnodup : (cookies.map name).Nodup)
    (hreq : req.getHeader (bytes "Cookie") = header cookies)
    (hfirst : ∀ c, cookies.find? (·.Mentions) = some c → c.name = bytes "sessionId") :
    getSessionIdFromCookie req = valueOf (bytes "sessionId") cookies := by
  rcases hfind : cookies.find? (·.Mentions) with _ | c
  · -- no cookie mentions it, so none has the name
    have hnone : cookies.find? (fun c => c.name = bytes "sessionId") = none := by
      refine List.find?_eq_none.2 fun c hc hname => ?_
      have hnot := List.find?_eq_none.1 hfind c hc
      simp only [decide_eq_true_eq] at hname hnot
      exact hnot (behind_of_name hname).1
    rw [getSessionIdFromCookie_of_none hreq hfind, valueOf, hnone]
    rfl
  · have hname := hfirst c hfind
    rw [getSessionIdFromCookie_of_mentions hreq hfind, (behind_of_name hname).2, ← hname,
      valueOf_of_mem hnodup (List.mem_of_find?_eq_some hfind)]

/-- A request with cookies. -/
def cookiesFor (cookies : List Cookie) : HttpRequest :=
  { HttpRequest.new with
    headers := (∅ : StringMap).insert (bytes "Cookie") (header cookies) }

/-- The cookie `sessionId` behind one that does not mention it and in front of one that does. -/
def sessionFirst : List Cookie :=
  [⟨bytes "theme", bytes "session", by decide, by decide⟩,
    ⟨bytes "sessionId", bytes "1", by decide, by decide⟩,
    ⟨bytes "xsessionId", bytes "2", by decide, by decide⟩]

theorem getSessionIdFromCookie_of_first_sessionFirst :
    (sessionFirst.map name).Nodup ∧
      (cookiesFor sessionFirst).getHeader (bytes "Cookie") = header sessionFirst ∧
      (∀ c, sessionFirst.find? (·.Mentions) = some c → c.name = bytes "sessionId") ∧
      getSessionIdFromCookie (cookiesFor sessionFirst) = valueOf (bytes "sessionId") sessionFirst ∧
      valueOf (bytes "sessionId") sessionFirst = bytes "1" := by
  have hnodup : (sessionFirst.map name).Nodup := by decide
  have hreq : (cookiesFor sessionFirst).getHeader (bytes "Cookie") = header sessionFirst := by
    decide
  have hfirst : ∀ c, sessionFirst.find? (·.Mentions) = some c → c.name = bytes "sessionId" := by
    intro c hc
    obtain rfl : _ = c := Option.some.inj hc
    rfl
  exact ⟨hnodup, hreq, hfirst, getSessionIdFromCookie_of_first hnodup hreq hfirst, by decide⟩

/-- A cookie in front of `sessionId` whose name ends with the searched text is read in its place,
and so is a value that has the text where there is no such cookie. -/
theorem getSessionIdFromCookie_reversed :
    let cookies := sessionFirst.reverse
    let other : List Cookie := [⟨bytes "a", bytes "sessionId=3", by decide, by decide⟩]
    ((cookies.map name).Nodup ∧
        (cookiesFor cookies).getHeader (bytes "Cookie") = header cookies ∧
        getSessionIdFromCookie (cookiesFor cookies) = bytes "2" ∧
        valueOf (bytes "sessionId") cookies = bytes "1") ∧
      getSessionIdFromCookie (cookiesFor other) = bytes "3" ∧
        valueOf (bytes "sessionId") other = [] := by
  decide

end SessionManager

end KamaHttp
