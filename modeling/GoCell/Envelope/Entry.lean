import GoCell.Envelope.Context
import GoCell.Kernel.Json

namespace GoCell.Envelope

open Foundation Kernel

theorem sorted_no_keys : (([] : List (Bytes × Bytes)).map Prod.fst).Pairwise (· < ·) := .nil

/-- The business metadata of an entry, in the order of its keys. A Go map has no order; it is given
the one in which it is encoded. -/
structure Metadata where
  pairs : List (Bytes × Bytes) := []
  sorted : (pairs.map Prod.fst).Pairwise (· < ·) := by exact sorted_no_keys
  deriving DecidableEq

structure Entry where
  id : String
  aggregateID : String := ""
  aggregateType : String := ""
  eventType : String
  topic : String := ""
  payload : Bytes
  createdAt : Time
  occurredAt : Time
  metadata : Metadata := {}
  observability : ObservabilityMetadata := {}
  principal : PrincipalMetadata := {}
  deriving DecidableEq

def maxPayloadBytes : ℕ := 1 <<< 20

def maxMetadataKeys : ℕ := 64

def maxMetadataKeyLen : ℕ := 256

def maxMetadataValueLen : ℕ := 4096

def maxMetadataTotalSize : ℕ := 65536

def reservedMetadataKeys : List String :=
  ["trace_id", "traceparent", "trace_state", "tracestate", "span_id", "request_id",
    "correlation_id", "actor_id", "subject_id", "tenant_id", "session_id"]

def errReservedKey : Err :=
  validationFailed ("outbox: metadata key is reserved for the observability/principal bridges — " ++
    "use Entry.Observability or Entry.Principal instead")

def checkLimit (message field : String) (n max : ℕ) : Except Err Unit :=
  require (n ≤ max) (validationFailed message [(field, .int n), ("max", .int max)])

def validatePair (kv : Bytes × Bytes) : Except Err Unit := do
  checkLimit "outbox: metadata key length exceeds max" "length" kv.1.length maxMetadataKeyLen
  checkLimit "outbox: metadata value length exceeds max" "length" kv.2.length maxMetadataValueLen

def metadataSize (pairs : List (Bytes × Bytes)) : ℕ :=
  (pairs.map fun kv ↦ kv.1.length + kv.2.length).sum

def validateLimits (pairs : List (Bytes × Bytes)) : Except Err Unit := do
  checkLimit "outbox: metadata key count exceeds max" "count" pairs.length maxMetadataKeys
  pairs.forM validatePair
  checkLimit "outbox: metadata total size exceeds max" "total" (metadataSize pairs)
    maxMetadataTotalSize

def validateMetadata (m : Metadata) : Except Err Unit := do
  require (m.pairs.all fun kv ↦ kv.1 ∉ reservedMetadataKeys.map asciiBytes) errReservedKey
  validateLimits m.pairs

def validateEntryIDField (field value : String) : Except Err Unit :=
  validateSafeID "outbox: entry field invalid" field value

namespace Entry

def routingTopic (e : Entry) : String := if e.topic ≠ "" then e.topic else e.eventType

def validate (e : Entry) : Except Err Unit := do
  require (e.id ≠ "") (validationFailed "outbox: entry missing ID")
  require (e.routingTopic ≠ "")
    (validationFailed "outbox: entry missing topic (topic and eventType are both empty)")
  require (!e.payload.isEmpty) (validationFailed "outbox: entry missing payload")
  checkLimit "outbox: payload size exceeds max" "size" e.payload.length maxPayloadBytes
  require (e.occurredAt ≠ 0) (validationFailed "outbox: entry missing occurredAt")
  validateEntryIDField "id" e.id
  validateEntryIDField "eventType" e.eventType
  validateEntryIDField "topic" e.topic
  validateEntryIDField "aggregateId" e.aggregateID
  validateEntryIDField "aggregateType" e.aggregateType
  validateMetadata e.metadata
  e.observability.validate
  e.principal.validate

def restoreContext (e : Entry) (ctx : Context) : Context :=
  e.principal.restoreToContext (e.observability.restoreToContext ctx)

end Entry

inductive EntryOption
  | withID (id : String)
  | withAggregateID (id : String)
  | withAggregateType (t : String)
  | withTopic (t : String)
  | withMetadata (m : Metadata)
  | withOccurredAt (t : Time)
  | withCreatedAt (t : Time)

def EntryOption.apply : EntryOption → Entry → Entry
  | .withID id, e => { e with id := id }
  | .withAggregateID id, e => { e with aggregateID := id }
  | .withAggregateType t, e => { e with aggregateType := t }
  | .withTopic t, e => { e with topic := t }
  | .withMetadata m, e => { e with metadata := m }
  | .withOccurredAt t, e => { e with occurredAt := t }
  | .withCreatedAt t, e => { e with createdAt := t }

/-- `NewEntry` with the id that `NewEntryID` generates; the failure of its entropy source is left
out. -/
def newEntry (id : String) (now : Time) (ctx : Context) (eventType : String) (payload : Bytes)
    (opts : List EntryOption) : Except Err Entry := do
  let e : Entry := opts.foldl (fun e opt ↦ opt.apply e)
    { id := id, eventType := eventType, payload := payload, createdAt := now, occurredAt := now }
  let e := { e with
    observability := contextObservability ctx
    principal := contextPrincipal ctx }
  e.validate
  return e

@[mk_iff valid_iff]
structure Entry.Valid (e : Entry) : Prop where
  id_ne : e.id ≠ ""
  topic_ne : e.routingTopic ≠ ""
  payload_ne : e.payload ≠ []
  payload_le : e.payload.length ≤ maxPayloadBytes
  occurredAt_ne : e.occurredAt ≠ 0
  id : safeIDValid e.id = true
  eventType : safeIDValid e.eventType = true
  topic : safeIDValid e.topic = true
  aggregateID : safeIDValid e.aggregateID = true
  aggregateType : safeIDValid e.aggregateType = true
  metadata : validateMetadata e.metadata = .ok ()
  observability : e.observability.validate = .ok ()
  principal : e.principal.validate = .ok ()

theorem Entry.validate_ok_iff {e : Entry} : e.validate = .ok () ↔ e.Valid := by
  simp only [Entry.validate, validateEntryIDField, validateSafeID, checkLimit, check_ok, require_ok,
    decide_eq_true_eq, Bool.not_eq_true', List.isEmpty_eq_false_iff, valid_iff]

end GoCell.Envelope
