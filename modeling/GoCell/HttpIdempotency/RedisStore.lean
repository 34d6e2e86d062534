import GoCell.HttpIdempotency.MemStore
import GoCell.Idempotency.RedisClaimer

namespace GoCell.HttpIdempotency

open Foundation Idempotency Kernel

inductive ClaimReply
  | acquired
  | busy
  | done (blob : Bytes)
  | mismatch (stored : Bytes)
  deriving DecidableEq

section

variable {κ : Type} [DecidableEq κ]

def reused (stored : Option Bytes) (fingerprint : Bytes) : Option Bytes :=
  stored.filter fun fp ↦ fingerprint ≠ [] && fp ≠ fingerprint

variable (rdb : KeyStore κ Bytes)

/-- `claimRespScript`. Its `SET NX` comes after a `GET` that did not find the key. -/
def claimRespScript (now : Time) (respKey leaseKey fpKey : κ)
    (token : Bytes) (leaseMs : ℤ) (fingerprint : Bytes) (fpMs : ℤ) :
    KeyStore κ Bytes × ClaimReply :=
  let stored := rdb.get now fpKey
  match rdb.get now respKey with
  | some resp =>
    match reused stored fingerprint with
    | some fp => (rdb, .mismatch fp)
    | none => (rdb, .done resp)
  | none =>
    match rdb.get now leaseKey with
    | some _ =>
      match reused stored fingerprint with
      | some fp => (rdb, .mismatch fp)
      | none => (rdb, .busy)
    | none =>
      let rdb := rdb.set now leaseKey token (pxDuration leaseMs)
      if fingerprint ≠ [] then (rdb.set now fpKey fingerprint (pxDuration fpMs), .acquired)
      else (rdb, .acquired)

/-- `httpRecordScript`; the answer is whether the lease had the token. -/
def httpRecordScript (now : Time) (leaseKey respKey fpKey : κ)
    (token blob : Bytes) (doneMs : ℤ) : KeyStore κ Bytes × Bool :=
  if rdb.get now leaseKey = some token then
    let rdb := (rdb.del leaseKey).set now respKey blob (pxDuration doneMs)
    if (rdb.get now fpKey).isSome then (rdb.expire now fpKey (pxDuration doneMs), true)
    else (rdb, true)
  else (rdb, false)

def httpReleaseScript (now : Time) (leaseKey fpKey : κ) (token : Bytes) : KeyStore κ Bytes × Bool :=
  if rdb.get now leaseKey = some token then ((rdb.del leaseKey).del fpKey, true) else (rdb, false)

end

/-- `recorded` and `released` are the results that `Record` and `Release` have cached. -/
structure HttpReceipt where
  leaseKey : String
  respKey : String
  fpKey : String
  token : Bytes
  recorded : Option (Except Err Unit) := none
  released : Option (Except Err Unit) := none

/-- The store with the keys of its server; `receipts` are the receipts handed out so far, by their
number. -/
structure HTTPIdempotencyStore where
  ns : KeyNamespace
  rdb : KeyStore String Bytes := KeyStore.empty
  receipts : List HttpReceipt := []

def errInvalidNs : Err :=
  ⟨.internal, .adapterRedisSet,
    "redis: http idempotency ns must be non-empty and free of curly-brace characters", []⟩

def errInvalidHttpKey : Err :=
  ⟨.internal, .adapterRedisSet,
    "redis: http idempotency key must be non-empty and free of curly-brace characters", []⟩

def errClaimToken : Err :=
  ⟨.internal, .adapterRedisSet, "redis: http idempotency claim token generation failed", []⟩

def errReplayDecode : Err :=
  ⟨.internal, .adapterRedisGet, "redis: http idempotency claim replay decode failed", []⟩

def errRecordMarshal : Err :=
  ⟨.internal, .adapterRedisSet, "redis: http idempotency record marshal failed", []⟩

def errRecordStale : Err :=
  ⟨.internal, .adapterRedisSet, "redis: http idempotency record token mismatch (stale lease)", []⟩

def errReleaseStale : Err :=
  ⟨.internal, .adapterRedisDelete, "redis: http idempotency release token mismatch (stale lease)",
    []⟩

inductive Role
  | resp
  | lease
  | fp
  deriving DecidableEq

def Role.text : Role → String
  | .resp => "resp"
  | .lease => "lease"
  | .fp => "fp"

def keyName (ns : KeyNamespace) (k : IdempotencyKey) (role : Role) : String :=
  applyHashtag (applyNamespace ns.name k.ns) k.key role.text

def HttpReceipt.fpKeyOrLease (r : HttpReceipt) : String :=
  if r.fpKey = "" then r.leaseKey else r.fpKey

namespace HTTPIdempotencyStore

def decodeClaim (tt : TimeText) (s : HTTPIdempotencyStore) (k : IdempotencyKey)
    (token : Bytes) : ClaimReply → HTTPIdempotencyStore × Except ClaimError Claimed
  | .acquired =>
    ({ s with receipts := s.receipts ++ [{
        leaseKey := keyName s.ns k .lease
        respKey := keyName s.ns k .resp
        fpKey := keyName s.ns k .fp
        token := token }] }, .ok (.acquired (.lease s.receipts.length)))
  | .busy => (s, .ok .busy)
  | .done blob =>
    match unmarshalRecordedResponse tt blob with
    | .error _ => (s, .error (.other errReplayDecode))
    | .ok rec => (s, .ok (.done rec))
  | .mismatch stored => (s, .error (.mismatch stored))

/-- `Claim`; `token` is what `claimToken` returns. -/
def claim (tt : TimeText) (s : HTTPIdempotencyStore) (now : Time) (token : Option Bytes)
    (k : IdempotencyKey) (fingerprint : Bytes) (leaseTTL : Duration) :
    HTTPIdempotencyStore × Except ClaimError Claimed :=
  if k.ns = "" ∨ braceFree k.ns = false then (s, .error (.other errInvalidNs))
  else if k.key = "" ∨ braceFree k.key = false then (s, .error (.other errInvalidHttpKey))
  else
    let leaseMs := clampMs (orDefault leaseTTL defaultLeaseTTL)
    match token with
    | none => (s, .error (.other errClaimToken))
    | some token =>
      let res := claimRespScript s.rdb now (keyName s.ns k .resp) (keyName s.ns k .lease)
        (keyName s.ns k .fp) token leaseMs fingerprint leaseMs
      { s with rdb := res.1 }.decodeClaim tt k token res.2

variable (s : HTTPIdempotencyStore)

def onLease (ref : ReceiptRef) (f : ℕ → HttpReceipt → HTTPIdempotencyStore × Except Err Unit) :
    HTTPIdempotencyStore × Except Err Unit :=
  match ref with
  | .nonAcquired => (s, .error errNoClaimLease)
  | .lease i =>
    match s.receipts[i]? with
    | none => (s, .error errNoClaimLease)
    | some r => f i r

def settled (i : ℕ) (script : KeyStore String Bytes × Bool) (stale : Err)
    (cache : Except Err Unit → HttpReceipt) : HTTPIdempotencyStore × Except Err Unit :=
  let res := settleResult script.2 stale
  ({ s with rdb := script.1, receipts := s.receipts.set i (cache res) }, res)

def record (tt : TimeText) (s : HTTPIdempotencyStore) (now : Time) (ref : ReceiptRef)
    (resp : RecordedResponse) (doneTTL : Duration) : HTTPIdempotencyStore × Except Err Unit :=
  s.onLease ref fun i r ↦
    match r.recorded with
    | some res => (s, res)
    | none =>
      match marshalRecordedResponse tt resp with
      -- not cached, so that the caller may try again
      | none => (s, .error errRecordMarshal)
      | some blob =>
        s.settled i (httpRecordScript s.rdb now r.leaseKey r.respKey r.fpKeyOrLease r.token blob
          (clampMs (orDefault doneTTL defaultTTL))) errRecordStale
          fun res ↦ { r with recorded := some res }

def release (now : Time) (ref : ReceiptRef) : HTTPIdempotencyStore × Except Err Unit :=
  s.onLease ref fun i r ↦
    match r.released with
    | some res => (s, res)
    | none =>
      s.settled i (httpReleaseScript s.rdb now r.leaseKey r.fpKeyOrLease r.token) errReleaseStale
        fun res ↦ { r with released := some res }

end HTTPIdempotencyStore

end GoCell.HttpIdempotency
