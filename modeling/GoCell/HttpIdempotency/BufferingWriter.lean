import GoCell.HttpIdempotency.MemStore

namespace GoCell.HttpIdempotency

open Kernel

/-- The tee in front of a response writer; `header` is the header map of that writer. -/
structure BufferingWriter where
  maxBody : ℤ
  header : Header := []
  statusCode : ℤ := 200
  buf : Bytes := []
  headerSnap : Option Header := none
  oversized : Bool := false
  didCommit : Bool := false
  deriving DecidableEq

/-- A call of the handler on its response writer. The writer below accepts the first `accepted`
bytes of a `Write`; of a `ReadFrom` it makes `reads` calls of `Read`, which would return `chunks` up
to the end of the source or to its failure. -/
inductive WriterCall
  | header (h : Header)
  | writeHeader (code : ℤ)
  | write (b : Bytes) (accepted : ℕ)
  | readFrom (chunks : List Bytes) (reads : ℕ)
  deriving DecidableEq

namespace BufferingWriter

variable (w : BufferingWriter)

def available : ℤ := w.maxBody - w.buf.length

def appendToBuffer (p : Bytes) : BufferingWriter :=
  if w.oversized then w
  else if w.available ≤ 0 then { w with oversized := true }
  else if (p.length : ℤ) ≤ w.available then { w with buf := w.buf ++ p }
  else { w with buf := w.buf ++ p.take w.available.toNat, oversized := true }

def commit : BufferingWriter :=
  if w.didCommit then w else { w with didCommit := true, headerSnap := some w.header }

def writeHeaderHook (code : ℤ) : BufferingWriter :=
  if code < 200 then w
  else if w.didCommit then w
  else { w with statusCode := code, didCommit := true, headerSnap := some w.header }

def writeHook (b : Bytes) (accepted : ℕ) : BufferingWriter :=
  w.commit.appendToBuffer (b.take accepted)

def teeRead (chunk : Bytes) : BufferingWriter :=
  if chunk = [] then w else w.appendToBuffer chunk

def readFromHook (chunks : List Bytes) (reads : ℕ) : BufferingWriter :=
  let w := w.commit
  if w.oversized ∨ w.available ≤ 0 then { w with oversized := true }
  else (chunks.take reads).foldl teeRead w

def call : WriterCall → BufferingWriter
  | .header h => { w with header := h }
  | .writeHeader code => w.writeHeaderHook code
  | .write b accepted => w.writeHook b accepted
  | .readFrom chunks reads => w.readFromHook chunks reads

def run (maxBody : ℤ) (calls : List WriterCall) : BufferingWriter :=
  calls.foldl call { maxBody := maxBody }

def capturedHeader : Header := w.headerSnap.getD []

end BufferingWriter

/-- The names of `sensitiveResponseHeaders`, in the form in which `Header.Del` looks them up. -/
def sensitiveResponseHeaders : List String :=
  ["Set-Cookie", "Set-Cookie2", "Authorization", "Www-Authenticate", "Proxy-Authenticate",
    "Clear-Site-Data"]

def filterSensitiveHeaders (h : Header) : Header :=
  h.filter fun kv ↦ kv.1 ∉ sensitiveResponseHeaders.map asciiBytes

def shouldRecord (status : ℤ) : Bool := 200 ≤ status && status < 400

/-- The response that `recordOrRelease` records once the handler has returned. -/
def BufferingWriter.toRecord (w : BufferingWriter) (now : Time) : Option RecordedResponse :=
  if w.didCommit && shouldRecord w.statusCode && !w.oversized then
    some ⟨w.statusCode, w.buf, filterSensitiveHeaders w.capturedHeader, now⟩
  else none

end GoCell.HttpIdempotency
