import KamaHttp.Foundations.Bytes

/-!
# Responses

The response object (`HttpResponse.h`, `HttpResponse.cpp`). A status code is the integer behind the
enumeration, as the code converts between the two freely.
-/

namespace KamaHttp

structure HttpResponse where
  httpVersion : Bytes
  statusCode : ℤ
  statusMessage : Bytes
  closeConnection : Bool
  headers : StringMap
  body : Bytes
  deriving DecidableEq

namespace HttpResponse

/-- `HttpResponse(close)`, with the status code `kUnknown`. -/
def new (close : Bool) : HttpResponse where
  httpVersion := []
  statusCode := 0
  statusMessage := []
  closeConnection := close
  headers := ∅
  body := []

def setVersion (r : HttpResponse) (version : Bytes) : HttpResponse :=
  { r with httpVersion := version }

def setStatusCode (r : HttpResponse) (code : ℤ) : HttpResponse := { r with statusCode := code }

@[simp] theorem setStatusCode_headers (r : HttpResponse) (code : ℤ) :
    (r.setStatusCode code).headers = r.headers := rfl

def setStatusMessage (r : HttpResponse) (message : Bytes) : HttpResponse :=
  { r with statusMessage := message }

def setCloseConnection (r : HttpResponse) (on : Bool) : HttpResponse :=
  { r with closeConnection := on }

def addHeader (r : HttpResponse) (key value : Bytes) : HttpResponse :=
  { r with headers := r.headers.insert key value }

def setContentType (r : HttpResponse) (contentType : Bytes) : HttpResponse :=
  r.addHeader (bytes "Content-Type") contentType

def setContentLength (r : HttpResponse) (length : UInt64) : HttpResponse :=
  r.addHeader (bytes "Content-Length") (decimal length.toNat)

def setBody (r : HttpResponse) (body : Bytes) : HttpResponse := { r with body := body }

def setStatusLine (r : HttpResponse) (version : Bytes) (statusCode : ℤ) (statusMessage : Bytes) :
    HttpResponse :=
  { r with httpVersion := version, statusCode := statusCode, statusMessage := statusMessage }

def getHeader (r : HttpResponse) (field : Bytes) : Bytes := r.headers[field]?.getD []

@[simp] theorem getHeader_addHeader (r : HttpResponse) (key value field : Bytes) :
    (r.addHeader key value).getHeader field = if field = key then value else r.getHeader field := by
  by_cases h : field = key
  · simp [addHeader, getHeader, h]
  · simp [addHeader, getHeader, Std.ExtTreeMap.getElem?_insert, h, Ne.symm h]

/-- `headersVector`: the headers in the order of the map. -/
def headersVector (r : HttpResponse) : List (Bytes × Bytes) := r.headers.toList

def clearHeaders (r : HttpResponse) : HttpResponse := { r with headers := ∅ }

/-- The text `"%s %d "` of version and status code. -/
def statusText (r : HttpResponse) : Bytes :=
  cStr r.httpVersion ++ [32] ++ decimal r.statusCode ++ [32]

/-- `statusLine`, formatted in a buffer of 64 bytes. -/
def statusLine (r : HttpResponse) : Bytes := snprintf 64 r.statusText ++ r.statusMessage

/-- `appendToBuffer`, with the status line formatted in a buffer of 32 bytes. -/
def appendToBuffer (r : HttpResponse) : Bytes :=
  snprintf 32 r.statusText ++ r.statusMessage ++ bytes "\r\n" ++
    (if r.closeConnection then bytes "Connection: close\r\n"
      else bytes "Connection: Keep-Alive\r\n") ++
    (r.headersVector.flatMap fun p => p.1 ++ bytes ": " ++ p.2 ++ bytes "\r\n") ++
    bytes "\r\n" ++ r.body

end HttpResponse

end KamaHttp
