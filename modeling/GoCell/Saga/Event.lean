import GoCell.Kernel.Json
import GoCell.Saga.Status

namespace GoCell.Saga

open Foundation Kernel

/-- A journal event kind; `unknown` is any byte outside the declared range. -/
inductive EventKind
  | stepStarted
  | stepCompleted
  | stepFailed
  | stepCompensated
  | compensationStarted
  | sagaSucceeded
  | sagaFailed
  | sagaCompensated
  | sagaExpired
  | stepCompensationFailed
  | sagaCompensationFailed
  | unknown
  deriving DecidableEq

def EventKind.valid (k : EventKind) : Bool := k ≠ .unknown

def EventKind.isStepKind : EventKind → Bool
  | .stepStarted | .stepCompleted | .stepFailed | .stepCompensated | .stepCompensationFailed =>
    true
  | _ => false

def EventKind.isTerminal : EventKind → Bool
  | .sagaSucceeded | .sagaFailed | .sagaCompensated | .sagaExpired | .sagaCompensationFailed =>
    true
  | _ => false

def terminalEventKind : Status → Option EventKind
  | .succeeded => some .sagaSucceeded
  | .failed => some .sagaFailed
  | .compensated => some .sagaCompensated
  | .expired => some .sagaExpired
  | .compensationFailed => some .sagaCompensationFailed
  | _ => none

theorem terminalEventKind_isTerminal {s : Status} {k : EventKind}
    (h : terminalEventKind s = some k) : s.isTerminal = true ∧ k.isTerminal = true := by
  cases s <;> simp only [terminalEventKind, Option.some.injEq, reduceCtorEq] at h <;>
    subst h <;> exact ⟨rfl, rfl⟩

structure Event where
  version : ℕ := 0
  globalSeq : ℕ := 0
  kind : EventKind
  stepName : SafeID := ""
  payload : Bytes := []
  createdAt : Time := 0
  deriving DecidableEq

def maxPayloadBytes : ℕ := 64 * 1024

def validateObjectOrNull (payload : Bytes) : Except Err Unit := do
  if payload.isEmpty then return
  require (jsonValid payload)
    (validationFailed "saga journal: event payload is not valid JSON")
  let trimmed := trimSpace payload
  require (trimmed.isEmpty || trimmed.head? = some 0x7b || trimmed = asciiBytes "null")
    (validationFailed "saga journal: event payload must be a JSON object or null")

def Event.validateStepName (e : Event) : Except Err Unit := do
  if e.kind.isStepKind then
    require (e.stepName ≠ "") (validationFailed "saga journal: step event missing StepName")
    require (safeIDValid e.stepName)
      (validationFailed "saga journal: step event has invalid StepName")

def Event.validateForAppend (e : Event) : Except Err Unit := do
  require e.kind.valid (validationFailed "saga journal: event has invalid Kind")
  require (!e.kind.isTerminal)
    (validationFailed
      "saga journal: terminal event must be written via MarkTerminal, not Append")
  require (e.payload.length ≤ maxPayloadBytes)
    (validationFailed "saga journal: event payload exceeds MaxPayloadBytes")
  e.validateStepName
  validateObjectOrNull e.payload

theorem validateForAppend_kind {e : Event} {u : Unit} (h : e.validateForAppend = .ok u) :
    e.kind.valid = true ∧ e.kind.isTerminal = false := by
  simp only [Event.validateForAppend, bind_ok, require_ok, Bool.not_eq_true'] at h
  obtain ⟨_, hvalid, _, hterm, -⟩ := h
  exact ⟨hvalid, hterm⟩

end GoCell.Saga
