import GoCell.Audit.MemStore
import GoCell.Kernel.Tenants
import GoCell.Query.Paging

namespace GoCell.Audit

open Foundation Kernel Query

structure AuditFilters where
  eventType : Bytes
  actorID : Bytes
  subjectID : Bytes
  traceID : Bytes
  since : Time
  upTo : Time
  deriving DecidableEq

def plainError : Except String Unit → Except Failure Unit := Except.mapError .plain

def validateQueryTenant (t : Bytes) : Except Failure Unit :=
  if t = [] then .ok () else plainError (validateTenantID t)

def checkSafeID (field : String) (id : Bytes) : Except Failure Unit :=
  require (safeIDValid (textOf id))
    (.err (validationFailed ("invalid query filter: " ++ field ++ " format")))

def validateQueryFilters (f : AuditFilters) : Except Failure Unit := do
  checkSafeID "actorId" f.actorID
  checkSafeID "subjectId" f.subjectID
  checkSafeID "traceId" f.traceID
  require (f.eventType.length ≤ maxMetadataIDLen)
    (.err (validationFailed "invalid query filter: eventType too long"))

def errRowScopeAllUnsupported : Err :=
  ⟨.notImplemented, .internal, "audit ledger: RowScopeAll is not supported on this read path", []⟩

def validateVisibility (vis : RowVisibility) : Except Failure Unit := do
  plainError vis.validate
  require (vis.scope ≠ .all) (.err errRowScopeAllUnsupported)

def validateQueryArgs (t : Bytes) (vis : RowVisibility) (filters : AuditFilters)
    (params : ListParams) : Except Failure Unit := do
  validateQueryTenant t
  validateQueryFilters filters
  validateVisibility vis
  require (params.sort ≠ [])
    (.err (validationFailed "audit ledger: query requires a non-empty sort"))

def tenantMatches (entryTenant queryTenant : Bytes) : Bool :=
  entryTenant = queryTenant || entryTenant = []

def matchesFilters (e : Entry) (f : AuditFilters) : Bool :=
  (f.eventType = [] || e.eventType = f.eventType) &&
  (f.actorID = [] || e.actorID = f.actorID) &&
  (f.subjectID = [] || e.subjectID = f.subjectID) &&
  (f.traceID = [] || e.traceID = f.traceID) &&
  (f.since = 0 || f.since ≤ e.timestamp) &&
  (f.upTo = 0 || e.timestamp ≤ f.upTo)

def compareEntryField (a b : Entry) (field : String) : Ordering :=
  if field = "timestamp" then compare a.timestamp b.timestamp
  else if field = "id" then compare a.id b.id
  else .eq

def entryFieldValue (e : Entry) (field : String) : Value :=
  if field = "timestamp" then .time e.timestamp
  else if field = "id" then .string e.id
  else .string []

def errEntryNotFound : Err :=
  ⟨.notFound, .auditLedgerNotFound, "audit ledger: entry not found", []⟩

namespace MemStore

def Iteration (s : MemStore) (iteration : List Bytes) : Prop :=
  iteration.Nodup ∧ ∀ t, t ∈ iteration ↔ t ∈ s.chains

def matching (s : MemStore) (iteration : List Bytes) (t : Bytes) : List Entry :=
  ((scan s.chains iteration).filter fun c ↦ tenantMatches c.1 t).flatMap fun c ↦ c.2.entries

def query (sf : SortFunc) (tt : TimeText) (s : MemStore) (iteration : List Bytes) (t : Bytes)
    (vis : RowVisibility) (filters : AuditFilters) (params : ListParams) :
    Except Failure (List Entry) := do
  validateQueryArgs t vis filters params
  let candidates := (s.matching iteration t).filter fun e ↦
    matchesFilters e filters && vis.allows e.actorID
  applyCursor tt (sortItems sf candidates params.sort compareEntryField) params entryFieldValue

def getByID (s : MemStore) (iteration : List Bytes) (t : Bytes) (vis : RowVisibility) (id : Bytes) :
    Except Failure Entry := do
  validateQueryTenant t
  validateVisibility vis
  match (s.matching iteration t).find? fun e ↦ e.id = id with
  | none => .error (.err errEntryNotFound)
  -- an entry out of sight is answered like one that is not there
  | some e => if vis.allows e.actorID then .ok e else .error (.err errEntryNotFound)

end MemStore

end GoCell.Audit
