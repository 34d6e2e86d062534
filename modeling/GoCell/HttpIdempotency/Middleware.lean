import GoCell.Foundation.Runs
import GoCell.HttpIdempotency.BufferingWriter
import GoCell.HttpIdempotency.Fingerprint

namespace GoCell.HttpIdempotency

open Foundation Idempotency Kernel

inductive PrincipalKind
  | unknown
  | user
  | service
  | anonymous
  | device
  deriving DecidableEq

structure Principal where
  kind : PrincipalKind
  subject : String
  tenantID : String := ""
  deriving DecidableEq

/-- A request as the middleware sees it: `idempotencyKey` is the header, empty if it is absent, and
`body` is `none` if reading it fails. -/
structure Request where
  method : String
  path : String
  idempotencyKey : String
  principal : Option Principal
  body : Option Bytes
  deriving DecidableEq

structure MiddlewareConfig where
  maxBodyBytes : ℤ := 256 * 1024
  leaseTTL : Duration := defaultLeaseTTL
  doneTTL : Duration := defaultTTL
  exemptMatcher : Option (Request → Bool) := none

def maxIdempotencyKeyLen : ℕ := 256

def isValidIdempotencyKey (key : String) : Bool :=
  key.toList.all fun c ↦ c ≠ '\x7b' && c ≠ '\x7d' && ' ' ≤ c && c ≤ '~'

def validateKeyValue (key : String) : Except Err Unit := do
  require (key ≠ "") (validationFailed "Idempotency-Key header value must not be empty")
  require (key.utf8ByteSize ≤ maxIdempotencyKeyLen)
    (validationFailed "Idempotency-Key header value exceeds maximum length"
      [("maxLen", .int maxIdempotencyKeyLen)])
  require (isValidIdempotencyKey key)
    (validationFailed "Idempotency-Key header value contains invalid characters")

def errBodyRead : Err :=
  ⟨.unavailable, .serviceUnavailable, "idempotency: failed to read request body", []⟩

def errStoreUnavailable : Err := ⟨.internal, .internal, "idempotency store unavailable", []⟩

def errInProgress : Err :=
  ⟨.conflict, .idempotencyInProgress,
    "a request with this Idempotency-Key is already in progress", []⟩

def retryAfterHintSeconds : ℕ := 5

def shouldIntercept (r : Request) : Bool :=
  r.method ∈ ["POST", "PUT", "PATCH", "DELETE"] && r.idempotencyKey ≠ ""

def extractIdentity (r : Request) : Option Principal :=
  r.principal.filter fun p ↦ p.kind = .user && p.subject ≠ ""

inductive Admission
  | bypass
  | reject (e : Err)
  | claim (k : IdempotencyKey) (fingerprint : Bytes)

def admission (cfg : MiddlewareConfig) (hashHex : Bytes → Bytes) (r : Request) : Admission :=
  if cfg.exemptMatcher.any (· r) then .bypass
  else if !shouldIntercept r then .bypass
  else match extractIdentity r with
    | none => .bypass
    | some p =>
      match validateKeyValue r.idempotencyKey with
      | .error e => .reject e
      | .ok _ =>
        match r.body with
        | none => .reject errBodyRead
        | some body =>
          .claim (deriveKey p.tenantID p.subject r.method r.path r.idempotencyKey)
            (computeFingerprint hashHex body)

/-- What the client receives: an error, possibly with `Retry-After`, a replayed response, or what
the handler wrote. -/
inductive Answer
  | failed (e : Err) (retryAfter : Option ℕ)
  | replayed (status : ℤ) (body : Bytes) (header : Header)
  | served
  deriving DecidableEq

def replayResponse (rec : RecordedResponse) : Answer :=
  .replayed rec.status rec.body
    (rec.header ++ [(asciiBytes "Idempotency-Replayed", [asciiBytes "true"])])

/-- What a request that acquired its key holds while it calls the handler: the lease of `receipt`
lasts until `expiry`. -/
structure Invocation where
  key : IdempotencyKey
  fingerprint : Bytes
  receipt : ReceiptRef
  expiry : Time
  deriving DecidableEq

/-- Where a request stands: `acquired` is about to call the handler, `running` is inside of it, and
`recording` and `releasing` are about to settle the receipt. -/
inductive RequestPc
  | bypassed
  | claiming (k : IdempotencyKey) (fingerprint : Bytes)
  | acquired (v : Invocation)
  | running (v : Invocation)
  | recording (v : Invocation) (resp : RecordedResponse)
  | releasing (v : Invocation)
  | answered (a : Answer)
  deriving DecidableEq

def Admission.pc : Admission → RequestPc
  | .bypass => .bypassed
  | .reject e => .answered (.failed e none)
  | .claim k fingerprint => .claiming k fingerprint

def handle (k : IdempotencyKey) (fingerprint : Bytes) (expiry : Time) :
    Except ClaimError Claimed → RequestPc
  | .error (.mismatch stored) => .answered (.failed (keyReusedError stored fingerprint) none)
  | .error (.other _) => .answered (.failed errStoreUnavailable none)
  | .ok (.done rec) => .answered (replayResponse rec)
  | .ok .busy => .answered (.failed errInProgress (some retryAfterHintSeconds))
  | .ok (.acquired receipt) => .acquired ⟨k, fingerprint, receipt, expiry⟩

def recordOrRelease (v : Invocation) : Option RecordedResponse → RequestPc
  | some resp => .recording v resp
  | none => .releasing v

structure System where
  store : MemStore := {}
  now : Time := 0
  requests : List RequestPc := []

/-- `claim` is the call of the store and `token` what its `generateToken` returns; `finish` is the
end of the handler after its calls on the response writer; `settle` is the next call on the
receipt. -/
inductive Action
  | tick (t : Time)
  | arrive (r : Request)
  | claim (n : ℕ) (token : Option Bytes)
  | start (n : ℕ)
  | finish (n : ℕ) (calls : List WriterCall) (panicked : Bool)
  | settle (n : ℕ)

namespace System

variable (cfg : MiddlewareConfig) (hashHex : Bytes → Bytes)

def setPc (s : System) (n : ℕ) (pc : RequestPc) : System :=
  { s with requests := s.requests.set n pc }

/-- A `Record` that fails is followed by a `Release`, whose error is only logged. -/
def settle (s : System) (n : ℕ) : Option System :=
  match s.requests[n]? with
  | some (.recording v resp) =>
    let res := s.store.record s.now s.now v.receipt resp cfg.doneTTL
    let pc := if res.2 = .ok () then .answered .served else .releasing v
    some ({ s with store := res.1 }.setPc n pc)
  | some (.releasing v) =>
    some ({ s with store := (s.store.release v.receipt).1 }.setPc n (.answered .served))
  | _ => none

def step (s : System) : Action → Option System
  | .tick t => if s.now ≤ t then some { s with now := t } else none
  | .arrive r => some { s with requests := s.requests ++ [(admission cfg hashHex r).pc] }
  | .claim n token =>
    match s.requests[n]? with
    | some (.claiming k fingerprint) =>
      let res := s.store.claim s.now token k fingerprint cfg.leaseTTL
      some ({ s with store := res.1 }.setPc n
        (handle k fingerprint (s.now + cfg.leaseTTL) res.2))
    | _ => none
  | .start n =>
    match s.requests[n]? with
    | some (.acquired v) => some (s.setPc n (.running v))
    | _ => none
  | .finish n calls panicked =>
    match s.requests[n]? with
    | some (.running v) =>
      let resp := if panicked then none
        else (BufferingWriter.run cfg.maxBodyBytes calls).toRecord s.now
      some (s.setPc n (recordOrRelease v resp))
    | some .bypassed => some (s.setPc n (.answered .served))
    | _ => none
  | .settle n => s.settle cfg n

end System

end GoCell.HttpIdempotency
