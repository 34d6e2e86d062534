import GoCell.HttpIdempotency.RecordedResponse
import GoCell.Idempotency.Claimer
import GoCell.Idempotency.Keys

namespace GoCell.HttpIdempotency

open Idempotency Kernel

/-- The error of a claim: a `FingerprintMismatchError` with the fingerprint that is stored, or any
other. -/
inductive ClaimError
  | mismatch (stored : Bytes)
  | other (e : Err)
  deriving DecidableEq

inductive Claimed
  | acquired (receipt : ReceiptRef)
  | done (response : RecordedResponse)
  | busy
  deriving DecidableEq

structure MemEntry where
  leaseToken : Bytes := []
  leaseExpiry : Time := 0
  recorded : Option RecordedResponse := none
  doneExpiry : Time := 0
  fingerprint : Bytes
  deriving DecidableEq

structure MemReceipt where
  composed : String
  token : Bytes
  settled : Bool := false
  deriving DecidableEq

/-- `receipts` are the receipts handed out so far, by their number. -/
structure MemStore where
  entries : String → Option MemEntry := fun _ ↦ none
  receipts : List MemReceipt := []

def errEmptyKey : Err :=
  ⟨.internal, .internal, "idempotency.MemStore: IdempotencyKey namespace and key must be non-empty",
    []⟩

def errGenerateToken : Err :=
  ⟨.internal, .internal, "idempotency.MemStore: generate token: rand read", []⟩

def fpMismatch (stored incoming : Bytes) : Bool :=
  stored ≠ [] && incoming ≠ [] && stored ≠ incoming

namespace MemEntry

def replay (e : MemEntry) (now : Time) : Option RecordedResponse :=
  if now < e.doneExpiry then e.recorded else none

def leased (e : MemEntry) (now : Time) : Bool := e.leaseToken ≠ [] && now < e.leaseExpiry

def mismatch (e : MemEntry) (fingerprint : Bytes) (now : Time) : Bool :=
  ((e.replay now).isSome || e.leased now) && fpMismatch e.fingerprint fingerprint

end MemEntry

namespace MemStore

variable (s : MemStore)

def setEntry (composed : String) (e : Option MemEntry) : MemStore :=
  { s with entries := Function.update s.entries composed e }

/-- The end of `Claim` for a key without a live entry; `token` is what `generateToken` returns. -/
def acquire (now : Time) (token : Option Bytes) (composed : String)
    (fingerprint : Bytes) (leaseTTL : Duration) : MemStore × Except ClaimError Claimed :=
  match token with
  | none => (s.setEntry composed none, .error (.other errGenerateToken))
  | some token =>
    let s' := s.setEntry composed
      (some { leaseToken := token, leaseExpiry := now + leaseTTL, fingerprint := fingerprint })
    ({ s' with receipts := s.receipts ++ [{ composed := composed, token := token }] },
      .ok (.acquired (.lease s.receipts.length)))

def claim (now : Time) (token : Option Bytes) (k : IdempotencyKey)
    (fingerprint : Bytes) (leaseTTL : Duration) : MemStore × Except ClaimError Claimed :=
  if k.ns = "" ∨ k.key = "" then (s, .error (.other errEmptyKey))
  else match s.entries k.flat with
    | none => s.acquire now token k.flat fingerprint leaseTTL
    | some e =>
      if e.mismatch fingerprint now then (s, .error (.mismatch e.fingerprint))
      else match e.replay now with
        | some rec => (s, .ok (.done rec))
        | none =>
          if e.leased now then (s, .ok .busy)
          else s.acquire now token k.flat fingerprint leaseTTL

def held (r : MemReceipt) : Option MemEntry :=
  (s.entries r.composed).filter fun e ↦ e.leaseToken = r.token

/-- A call on a receipt: `again` is the answer of one that is settled already, and `entry` what is
left of the entry otherwise. -/
def settle (ref : ReceiptRef) (again : Except Err Unit)
    (entry : MemEntry → Option MemEntry) : MemStore × Except Err Unit :=
  match ref with
  | .nonAcquired => (s, .error errNoClaimLease)
  | .lease i =>
    match s.receipts[i]? with
    | none => (s, .error errNoClaimLease)
    | some r =>
      if r.settled then (s, again)
      else
        let s' := { s with receipts := s.receipts.set i { r with settled := true } }
        match s.held r with
        | none => (s', .error errLeaseExpired)
        | some e => (s'.setEntry r.composed (entry e), .ok ())

/-- `Record`, with the two readings of the clock: `now` for the expiry and `stamp` for the copy of
the response. -/
def record (now stamp : Time) (ref : ReceiptRef) (resp : RecordedResponse)
    (doneTTL : Duration) : MemStore × Except Err Unit :=
  s.settle ref (.error errLeaseExpired) fun e ↦
    some { recorded := some { resp with recordedAt := stamp }, doneExpiry := now + doneTTL,
           fingerprint := e.fingerprint }

def release (ref : ReceiptRef) : MemStore × Except Err Unit :=
  s.settle ref (.ok ()) fun _ ↦ none

section

variable {s} {s' : MemStore} {now stamp : Time} {i : ℕ} {r : MemReceipt} {again : Except Err Unit}
  {entry : MemEntry → Option MemEntry}

theorem held_eq_some {e : MemEntry} :
    s.held r = some e ↔ s.entries r.composed = some e ∧ e.leaseToken = r.token := by
  unfold held
  rw [Option.filter_eq_some_iff, decide_eq_true_eq]

theorem record_ok {resp : RecordedResponse} {doneTTL : Duration} (hr : s.receipts[i]? = some r)
    (h : s.record now stamp (.lease i) resp doneTTL = (s', .ok ())) :
    ∃ e, r.settled = false ∧ s.held r = some e ∧ s'.entries = Function.update s.entries r.composed
        (some { recorded := some { resp with recordedAt := stamp }, doneExpiry := now + doneTTL,
                fingerprint := e.fingerprint }) := by
  simp only [record, settle, hr] at h
  split at h
  · cases h
  · next hsettled =>
    split at h
    · cases h
    · next e he =>
      cases h
      exact ⟨e, by simpa using hsettled, he, rfl⟩

theorem claim_done {k : IdempotencyKey} {token : Option Bytes} {fingerprint : Bytes}
    {leaseTTL : Duration} {rec : RecordedResponse}
    (h : (s.claim now token k fingerprint leaseTTL).2 = .ok (.done rec)) :
    ∃ e, s.entries k.flat = some e ∧ e.recorded = some rec := by
  unfold claim acquire at h
  repeat' split at h
  all_goals cases h
  next e he _ _ hreplay =>
    refine ⟨e, he, ?_⟩
    unfold MemEntry.replay at hreplay
    split at hreplay
    · exact hreplay
    · cases hreplay

end

end MemStore

end GoCell.HttpIdempotency
