import GoCell.Foundation.Checks
import GoCell.Kernel.Values

namespace GoCell.Envelope

open Foundation Kernel

/-- The context values that the outbox reads or writes; `scope` is the one of `tenant.WithScope`. -/
inductive CtxKey
  | requestID
  | correlationID
  | traceID
  | traceParent
  | spanID
  | actorID
  | subjectID
  | tenantID
  | sessionID
  | scope
  deriving DecidableEq

def Context : Type := CtxKey → Option String

variable (ctx : Context)

def Context.with (key : CtxKey) (value : String) : Context :=
  Function.update ctx key (some value)

structure ObservabilityMetadata where
  traceID : SafeID := ""
  traceParent : String := ""
  requestID : SafeID := ""
  correlationID : SafeID := ""
  deriving DecidableEq

structure PrincipalMetadata where
  actorID : SafeID := ""
  subjectID : SafeID := ""
  tenantID : SafeID := ""
  sessionID : SafeID := ""
  deriving DecidableEq

def isHexDigit (c : Char) : Bool := ('0' ≤ c && c ≤ '9') || ('a' ≤ c && c ≤ 'f')

variable (cs : List Char)

def isHex : Bool := cs.all isHexDigit

def allZero : Bool := cs.all fun c ↦ c = '0'

def validW3CTraceID : Bool := cs.length = 32 && isHex cs && !allZero cs

def validW3CSpanID : Bool := cs.length = 16 && isHex cs && !allZero cs

variable (value : String)

def validTraceParent : Bool :=
  let cs := value.toList
  cs.length = 55 && cs[2]? = some '-' && cs[35]? = some '-' && cs[52]? = some '-' &&
    cs.take 2 ≠ ['f', 'f'] && isHex (cs.take 2) && isHex (cs.drop 53) &&
    validW3CTraceID ((cs.drop 3).take 32) && validW3CSpanID ((cs.drop 36).take 16)

def traceIDFromTraceParent : String :=
  if validTraceParent value then String.ofList ((value.toList.drop 3).take 32) else ""

def validateSafeID (message field : String) (id : SafeID) : Except Err Unit :=
  require (safeIDValid id) (validationFailed message [("field", .string field)])

def validateObservabilitySafeID (field : String) (id : SafeID) : Except Err Unit :=
  validateSafeID "outbox: observability field invalid" field id

def validatePrincipalSafeID (field : String) (id : SafeID) : Except Err Unit :=
  validateSafeID "outbox: principal field invalid" field id

def errTraceParent : Err :=
  validationFailed "outbox: observability.traceParent is not a valid W3C traceparent"

def ObservabilityMetadata.validate (o : ObservabilityMetadata) : Except Err Unit := do
  validateObservabilitySafeID "traceId" o.traceID
  require (o.traceParent = "" || validTraceParent o.traceParent) errTraceParent
  validateObservabilitySafeID "requestId" o.requestID
  validateObservabilitySafeID "correlationId" o.correlationID

def PrincipalMetadata.validate (p : PrincipalMetadata) : Except Err Unit := do
  validatePrincipalSafeID "actorId" p.actorID
  validatePrincipalSafeID "subjectId" p.subjectID
  validatePrincipalSafeID "tenantId" p.tenantID
  validatePrincipalSafeID "sessionId" p.sessionID

def toLower (s : String) : String := String.ofList (s.toList.map Char.toLower)

def traceParentFromContextIDs : String :=
  match ctx .traceID, ctx .spanID with
  | some traceID, some spanID =>
    if validW3CTraceID traceID.toList && validW3CSpanID spanID.toList then
      "00-" ++ toLower traceID ++ "-" ++ toLower spanID ++ "-01"
    else ""
  | _, _ => ""

def contextObservability : ObservabilityMetadata where
  requestID := (ctx .requestID).getD ""
  correlationID := (ctx .correlationID).getD ""
  traceID := (ctx .traceID).getD ""
  traceParent :=
    match (ctx .traceParent).filter validTraceParent with
    | some traceParent => traceParent
    | none => traceParentFromContextIDs ctx

def contextPrincipal : PrincipalMetadata where
  actorID := (ctx .actorID).getD ""
  subjectID := (ctx .subjectID).getD ""
  tenantID :=
    match ctx .tenantID with
    | some id => id
    | none => (ctx .scope).getD ""
  sessionID := (ctx .sessionID).getD ""

def withContextMetadata (key : CtxKey) : Context :=
  if value ≠ "" ∧ value.utf8ByteSize ≤ maxMetadataIDLen ∧ isSafeID value = true ∧
      (ctx key).getD "" = "" then ctx.with key value
  else ctx

def withTraceParentMetadata : Context :=
  if validTraceParent value = true ∧ (ctx .traceParent).getD "" = "" then
    let ctx := ctx.with .traceParent value
    if (ctx .traceID).getD "" = "" then ctx.with .traceID (traceIDFromTraceParent value) else ctx
  else ctx

def ObservabilityMetadata.restoreToContext (o : ObservabilityMetadata) (ctx : Context) : Context :=
  let ctx := withContextMetadata ctx o.requestID .requestID
  let ctx := withContextMetadata ctx o.correlationID .correlationID
  let ctx := withContextMetadata ctx o.traceID .traceID
  withTraceParentMetadata ctx o.traceParent

def PrincipalMetadata.restoreToContext (p : PrincipalMetadata) (ctx : Context) : Context :=
  let ctx := withContextMetadata ctx p.actorID .actorID
  let ctx := withContextMetadata ctx p.subjectID .subjectID
  let ctx := withContextMetadata ctx p.tenantID .tenantID
  withContextMetadata ctx p.sessionID .sessionID

def clearAmbientPrincipal : Context :=
  (((ctx.with .actorID "").with .subjectID "").with .tenantID "").with .sessionID ""

end GoCell.Envelope
