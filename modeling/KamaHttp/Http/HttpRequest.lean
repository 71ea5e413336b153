import KamaHttp.Foundations.Bytes
import KamaHttp.Foundations.Loop

/-!
# Requests

The request object the parser fills (`HttpRequest.h`, `HttpRequest.cpp`). A pair of pointers into
the input is the string between them.
-/

namespace KamaHttp

open Search Loop

/-- `muduo::Timestamp`: microseconds since the epoch, zero when it was never set. -/
abbrev Timestamp := ℤ

namespace HttpRequest

inductive Method
  | kInvalid
  | kGet
  | kPost
  | kHead
  | kPut
  | kDelete
  | kOptions
  deriving DecidableEq, Repr

end HttpRequest

structure HttpRequest where
  method : HttpRequest.Method
  version : Bytes
  path : Bytes
  pathParameters : StringMap
  queryParameters : StringMap
  receiveTime : Timestamp
  headers : StringMap
  content : Bytes
  contentLength : ℕ
  deriving DecidableEq

namespace HttpRequest

/-- The default constructor. -/
def new : HttpRequest where
  method := .kInvalid
  version := bytes "Unknown"
  path := []
  pathParameters := ∅
  queryParameters := ∅
  receiveTime := 0
  headers := ∅
  content := []
  contentLength := 0

def setReceiveTime (r : HttpRequest) (t : Timestamp) : HttpRequest := { r with receiveTime := t }

/-- The method a token names. -/
def methodOf (m : Bytes) : Method :=
  if m = bytes "GET" then .kGet
  else if m = bytes "POST" then .kPost
  else if m = bytes "PUT" then .kPut
  else if m = bytes "DELETE" then .kDelete
  else if m = bytes "OPTIONS" then .kOptions
  else .kInvalid

/-- `setMethod`, in a build where its assertion `method_ == kInvalid` is compiled out. -/
def setMethod (r : HttpRequest) (m : Bytes) : Bool × HttpRequest :=
  (decide (methodOf m ≠ .kInvalid), { r with method := methodOf m })

def setPath (r : HttpRequest) (path : Bytes) : HttpRequest := { r with path := path }

def setPathParameters (r : HttpRequest) (key value : Bytes) : HttpRequest :=
  { r with pathParameters := r.pathParameters.insert key value }

def getPathParameters (r : HttpRequest) (key : Bytes) : Bytes := r.pathParameters[key]?.getD []

def getQueryParameters (r : HttpRequest) (key : Bytes) : Bytes := r.queryParameters[key]?.getD []

/-- Bind one `key=value` pair; a segment without `=` binds nothing. -/
def addPair (ps : StringMap) (pair : Bytes) : StringMap :=
  match breakOn [61] pair with
  | some (key, value) => ps.insert key value
  | none => ps

/-- One iteration of the loop of `setQueryParameters`, on the parameters bound so far and the rest
of the argument string; it leaves at the last segment. -/
def queryIter : StringMap × Bytes → Step (StringMap × Bytes) StringMap
  | (ps, s) =>
    match breakOn [38] s with
    | some (pair, rest) => .next (addPair ps pair, rest)
    | none => .stop (addPair ps s)

/-- Every iteration consumes a `&`, so the length of the string bounds their number. -/
def setQueryParameters (r : HttpRequest) (s : Bytes) : HttpRequest :=
  { r with queryParameters :=
      (run queryIter (s.length + 1) (r.queryParameters, s)).getD r.queryParameters }

def setVersion (r : HttpRequest) (v : Bytes) : HttpRequest := { r with version := v }

/-- `addHeader`, on the text before the colon and the text after it. -/
def addHeader (r : HttpRequest) (key value : Bytes) : HttpRequest :=
  { r with headers := r.headers.insert key (trim value) }

def getHeader (r : HttpRequest) (field : Bytes) : Bytes := r.headers[field]?.getD []

def setBody (r : HttpRequest) (body : Bytes) : HttpRequest := { r with content := body }

def getBody (r : HttpRequest) : Bytes := r.content

def setContentLength (r : HttpRequest) (n : ℕ) : HttpRequest := { r with contentLength := n }

/-- `swap` exchanges the fields it names; `content_` and `contentLength_` are not among them. -/
def swap (r that : HttpRequest) : HttpRequest × HttpRequest :=
  ({ r with
      method := that.method
      path := that.path
      pathParameters := that.pathParameters
      queryParameters := that.queryParameters
      version := that.version
      headers := that.headers
      receiveTime := that.receiveTime },
    { that with
      method := r.method
      path := r.path
      pathParameters := r.pathParameters
      queryParameters := r.queryParameters
      version := r.version
      headers := r.headers
      receiveTime := r.receiveTime })

@[simp] theorem setReceiveTime_method (r : HttpRequest) (t : Timestamp) :
    (r.setReceiveTime t).method = r.method := rfl

@[simp] theorem setReceiveTime_headers (r : HttpRequest) (t : Timestamp) :
    (r.setReceiveTime t).headers = r.headers := rfl

@[simp] theorem setReceiveTime_content (r : HttpRequest) (t : Timestamp) :
    (r.setReceiveTime t).content = r.content := rfl

@[simp] theorem setReceiveTime_contentLength (r : HttpRequest) (t : Timestamp) :
    (r.setReceiveTime t).contentLength = r.contentLength := rfl

theorem getHeader_of_headers_empty {r : HttpRequest} (h : r.headers = ∅) (field : Bytes) :
    r.getHeader field = [] := by
  simp [getHeader, h]

theorem getHeader_addHeader (r : HttpRequest) (key value field : Bytes) :
    (r.addHeader key value).getHeader field =
      if key = field then trim value else r.getHeader field := by
  simp only [getHeader, addHeader, Std.ExtTreeMap.getElem?_insert,
    Std.LawfulEqCmp.compare_eq_iff_eq]
  split <;> rfl

/-- The loop of `setQueryParameters` leaves within the iterations it is given. -/
theorem exists_run_queryIter (ps : StringMap) (s : Bytes) :
    ∃ qs, run queryIter (s.length + 1) (ps, s) = some qs := by
  refine exists_run_eq_some (fun _ => True) (fun p => p.2.length) ?_ trivial (Nat.lt_succ_self _)
  rintro ⟨ps, s⟩ ⟨ps', s'⟩ - h
  refine ⟨trivial, ?_⟩
  simp only [queryIter] at h
  split at h
  · rename_i pair rest hb
    obtain ⟨-, rfl⟩ := Prod.mk.inj (Step.next.inj h)
    have := congrArg List.length (eq_append_of_breakOn hb)
    simp only [List.length_append, List.length_singleton] at this
    show rest.length < s.length
    omega
  · cases h

/-- The loop binds the pairs of the segments between the `&`s, one after the other. -/
theorem returns_queryIter (ps : StringMap) (s : Bytes) :
    Returns queryIter (ps, s) ((s.splitOn 38).foldl addPair ps) := by
  induction hn : s.length using Nat.strong_induction_on generalizing ps s with
  | _ n ih =>
    rcases hb : breakOn [38] s with _ | ⟨pair, rest⟩
    · rw [List.splitOn_eq_singleton (breakOn_singleton_none.1 hb)]
      exact .stop (by simp only [queryIter, hb]; rfl)
    · obtain ⟨rfl, hpair⟩ := breakOn_singleton_iff.1 hb
      rw [List.splitOn_append_cons_self_of_not_mem hpair]
      have hnext : queryIter (ps, pair ++ 38 :: rest) = .next (addPair ps pair, rest) := by
        simp only [queryIter, hb]
      exact .next hnext (ih rest.length (by simp [← hn]; omega) _ rest rfl)

theorem setQueryParameters_eq (r : HttpRequest) (s : Bytes) :
    r.setQueryParameters s =
      { r with queryParameters := (s.splitOn 38).foldl addPair r.queryParameters } := by
  obtain ⟨m, hm⟩ := exists_run_queryIter r.queryParameters s
  have heq := (returns_of_run hm).deterministic (returns_queryIter r.queryParameters s)
  rw [setQueryParameters, hm, heq]
  rfl

/-! ## Requests without their receive time -/

/-- The request as if it had not been stamped with a time. -/
def untimed (r : HttpRequest) : HttpRequest := { r with receiveTime := 0 }

end HttpRequest

end KamaHttp
