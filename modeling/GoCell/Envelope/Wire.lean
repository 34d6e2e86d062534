import GoCell.Envelope.Entry
import GoCell.Kernel.JsonTimes

namespace GoCell.Envelope

open Foundation Kernel

def Metadata.set (m : Metadata) (key value : Bytes) : Metadata :=
  ⟨setPair key value m.pairs, setPair_sorted key value m.sorted⟩

/-- The fields of `wireMessage`. A string is read byte by byte; the ones that pass validation are
ASCII. -/
structure WireMessage where
  schemaVersion : String := ""
  id : SafeID := ""
  aggregateID : SafeID := ""
  aggregateType : SafeID := ""
  eventType : SafeID := ""
  topic : SafeID := ""
  payload : Bytes := []
  metadata : Metadata := {}
  observability : ObservabilityMetadata := {}
  principal : PrincipalMetadata := {}
  occurredAt : Time := 0
  createdAt : Time := 0
  deriving DecidableEq

def envelopeSchemaV1 : String := "v1"

inductive WireField
  | schemaVersion
  | id
  | aggregateID
  | aggregateType
  | eventType
  | topic
  | payload
  | metadata
  | observability
  | principal
  | occurredAt
  | createdAt
  deriving DecidableEq

def WireField.name : WireField → String
  | .schemaVersion => "schemaVersion"
  | .id => "id"
  | .aggregateID => "aggregateId"
  | .aggregateType => "aggregateType"
  | .eventType => "eventType"
  | .topic => "topic"
  | .payload => "payload"
  | .metadata => "metadata"
  | .observability => "observability"
  | .principal => "principal"
  | .occurredAt => "occurredAt"
  | .createdAt => "createdAt"

def WireField.all : List WireField :=
  [.schemaVersion, .id, .aggregateID, .aggregateType, .eventType, .topic, .payload, .metadata,
    .observability, .principal, .occurredAt, .createdAt]

inductive ObservabilityField
  | traceID
  | traceParent
  | requestID
  | correlationID
  deriving DecidableEq

def ObservabilityField.name : ObservabilityField → String
  | .traceID => "traceId"
  | .traceParent => "traceParent"
  | .requestID => "requestId"
  | .correlationID => "correlationId"

def ObservabilityField.all : List ObservabilityField :=
  [.traceID, .traceParent, .requestID, .correlationID]

inductive PrincipalField
  | actorID
  | subjectID
  | tenantID
  | sessionID
  deriving DecidableEq

def PrincipalField.name : PrincipalField → String
  | .actorID => "actorId"
  | .subjectID => "subjectId"
  | .tenantID => "tenantId"
  | .sessionID => "sessionId"

def PrincipalField.all : List PrincipalField := [.actorID, .subjectID, .tenantID, .sessionID]

def ObservabilityMetadata.fields (o : ObservabilityMetadata) : List (ObservabilityField × Bytes) :=
  omitEmpty ObservabilityField.traceID o.traceID ++
    omitEmpty ObservabilityField.traceParent o.traceParent ++
    omitEmpty ObservabilityField.requestID o.requestID ++
    omitEmpty ObservabilityField.correlationID o.correlationID

def PrincipalMetadata.fields (p : PrincipalMetadata) : List (PrincipalField × Bytes) :=
  omitEmpty PrincipalField.actorID p.actorID ++ omitEmpty PrincipalField.subjectID p.subjectID ++
    omitEmpty PrincipalField.tenantID p.tenantID ++ omitEmpty PrincipalField.sessionID p.sessionID

def Metadata.text (m : Metadata) : Bytes :=
  objectText (m.pairs.map fun kv ↦ (quote kv.1, quote kv.2))

def Metadata.field (m : Metadata) : List (WireField × Bytes) :=
  if m.pairs = [] then [] else [(.metadata, m.text)]

/-- `RawMessage.MarshalJSON`, whose output is compacted. -/
def rawMessageText (payload : Bytes) : Option Bytes :=
  if payload = [] then some (asciiBytes "null") else compact payload

def WireMessage.fields (msg : WireMessage) (payload occurredAt createdAt : Bytes) :
    List (WireField × Bytes) :=
  [(WireField.schemaVersion, stringText msg.schemaVersion), (WireField.id, stringText msg.id)] ++
  omitEmpty WireField.aggregateID msg.aggregateID ++
  omitEmpty WireField.aggregateType msg.aggregateType ++
  [(WireField.eventType, stringText msg.eventType)] ++ omitEmpty WireField.topic msg.topic ++
  [(WireField.payload, payload)] ++ msg.metadata.field ++
  -- `omitempty` has no effect on a struct: the object is written even if it is empty
  [(WireField.observability, structText ObservabilityField.name msg.observability.fields),
    (WireField.principal, structText PrincipalField.name msg.principal.fields),
    (WireField.occurredAt, occurredAt), (WireField.createdAt, createdAt)]

variable (tt : TimeText)

def WireMessage.marshal (msg : WireMessage) : Option Bytes := do
  let payload ← rawMessageText msg.payload
  let occurredAt ← timeText tt msg.occurredAt
  let createdAt ← timeText tt msg.createdAt
  return structText WireField.name (msg.fields payload occurredAt createdAt)

def errEnvelope (message : String) : Err := ⟨.invalid, .envelopeSchema, message, []⟩

def parseSafeID (field s : String) : Except Err Unit :=
  require (safeIDValid s) (errEnvelope ("outbox: marshal envelope: invalid entry." ++ field))

def wrapError (message : String) (x : Except Err Unit) : Except Err Unit :=
  x.mapError fun _ ↦ errEnvelope message

def Entry.wireMessage (e : Entry) : WireMessage where
  schemaVersion := envelopeSchemaV1
  id := e.id
  aggregateID := e.aggregateID
  aggregateType := e.aggregateType
  eventType := e.eventType
  topic := e.routingTopic
  payload := e.payload
  metadata := e.metadata
  observability := e.observability
  principal := e.principal
  occurredAt := e.occurredAt
  createdAt := e.createdAt

def marshalEnvelope (e : Entry) : Except Err Bytes := do
  parseSafeID "ID" e.id
  parseSafeID "AggregateID" e.aggregateID
  parseSafeID "AggregateType" e.aggregateType
  parseSafeID "EventType" e.eventType
  parseSafeID "Topic" e.routingTopic
  wrapError "outbox: marshal envelope: invalid observability" e.observability.validate
  wrapError "outbox: marshal envelope: invalid principal" e.principal.validate
  match e.wireMessage.marshal tt with
  | some raw => return raw
  | none => throw (errEnvelope "outbox: marshal envelope")

def decodeSafeID (raw : Bytes) : Option SafeID := (decodeString "" raw).filter fun s ↦ safeIDValid s

def ObservabilityMetadata.decodeField (o : ObservabilityMetadata) :
    ObservabilityField → Bytes → Option ObservabilityMetadata
  | .traceID, raw => (decodeSafeID raw).map fun v ↦ { o with traceID := v }
  | .traceParent, raw => (decodeString o.traceParent raw).map fun v ↦ { o with traceParent := v }
  | .requestID, raw => (decodeSafeID raw).map fun v ↦ { o with requestID := v }
  | .correlationID, raw => (decodeSafeID raw).map fun v ↦ { o with correlationID := v }

def PrincipalMetadata.decodeField (p : PrincipalMetadata) :
    PrincipalField → Bytes → Option PrincipalMetadata
  | .actorID, raw => (decodeSafeID raw).map fun v ↦ { p with actorID := v }
  | .subjectID, raw => (decodeSafeID raw).map fun v ↦ { p with subjectID := v }
  | .tenantID, raw => (decodeSafeID raw).map fun v ↦ { p with tenantID := v }
  | .sessionID, raw => (decodeSafeID raw).map fun v ↦ { p with sessionID := v }

/-- A map of strings: `null` drops the map, a member that is `null` sets the empty string. -/
def decodeMetadata (old : Metadata) (raw : Bytes) : Option Metadata :=
  if isNull raw then some {}
  else decodeObject (fun m key value ↦ (decodeBytes [] value).map (m.set key)) old raw

def WireMessage.decodeField (msg : WireMessage) : WireField → Bytes → Option WireMessage
  | .schemaVersion, raw =>
    (decodeString msg.schemaVersion raw).map fun v ↦ { msg with schemaVersion := v }
  | .id, raw => (decodeSafeID raw).map fun v ↦ { msg with id := v }
  | .aggregateID, raw => (decodeSafeID raw).map fun v ↦ { msg with aggregateID := v }
  | .aggregateType, raw => (decodeSafeID raw).map fun v ↦ { msg with aggregateType := v }
  | .eventType, raw => (decodeSafeID raw).map fun v ↦ { msg with eventType := v }
  | .topic, raw => (decodeSafeID raw).map fun v ↦ { msg with topic := v }
  -- `RawMessage` keeps the bytes, `null` included
  | .payload, raw => some { msg with payload := raw }
  | .metadata, raw => (decodeMetadata msg.metadata raw).map fun v ↦ { msg with metadata := v }
  | .observability, raw =>
    (decodeStruct ObservabilityField.name ObservabilityField.all ObservabilityMetadata.decodeField
      msg.observability raw).map fun v ↦ { msg with observability := v }
  | .principal, raw =>
    (decodeStruct PrincipalField.name PrincipalField.all PrincipalMetadata.decodeField
      msg.principal raw).map fun v ↦ { msg with principal := v }
  | .occurredAt, raw => (decodeTime tt msg.occurredAt raw).map fun v ↦ { msg with occurredAt := v }
  | .createdAt, raw => (decodeTime tt msg.createdAt raw).map fun v ↦ { msg with createdAt := v }

def WireMessage.unmarshal (raw : Bytes) : Option WireMessage :=
  if jsonValid raw then
    decodeStruct WireField.name WireField.all (WireMessage.decodeField tt) {} raw
  else none

def unmarshalEnvelope (topic : String) (raw : Bytes) : Except Err Entry := do
  match WireMessage.unmarshal tt raw with
  | none => throw (errEnvelope "outbox: unmarshal envelope")
  | some msg =>
    require (msg.schemaVersion = envelopeSchemaV1)
      (errEnvelope "outbox: unknown envelope schema version")
    require (msg.eventType ≠ "")
      (errEnvelope "outbox: envelope missing required field: eventType")
    require (msg.payload ≠ [] && msg.payload ≠ asciiBytes "null")
      (errEnvelope "outbox: envelope missing required field: payload")
    let e : Entry := {
      id := msg.id
      aggregateID := msg.aggregateID
      aggregateType := msg.aggregateType
      eventType := msg.eventType
      topic := if msg.topic = "" then topic else msg.topic
      payload := msg.payload
      metadata := msg.metadata
      observability := msg.observability
      principal := msg.principal
      occurredAt := msg.occurredAt
      createdAt := msg.createdAt }
    wrapError "outbox: envelope failed validation" e.validate
    return e

end GoCell.Envelope
