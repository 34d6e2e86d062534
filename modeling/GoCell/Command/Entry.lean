import GoCell.Envelope.Entry
import GoCell.Foundation.Tables

namespace GoCell.Command

open Foundation Kernel

/-- `command.Status`, a `uint8`: `other` is a value that none of the constants has. -/
inductive Status
  | pending
  | sent
  | delivered
  | succeeded
  | failed
  | expired
  | canceled
  | other (code : ℕ)
  deriving DecidableEq

namespace Status

def valid : Status → Bool
  | .other _ => false
  | _ => true

def toText : Status → String
  | .other 0 => "invalid"
  | .pending => "pending"
  | .sent => "sent"
  | .delivered => "delivered"
  | .succeeded => "succeeded"
  | .failed => "failed"
  | .expired => "expired"
  | .canceled => "canceled"
  | .other code => "status(" ++ toString code ++ ")"

def isTerminal : Status → Bool
  | .succeeded | .failed | .expired | .canceled => true
  | _ => false

def validTransitions : Status → List Status
  | .pending => [.sent, .failed, .expired, .canceled]
  | .sent => [.delivered, .succeeded, .failed, .expired, .canceled]
  | .delivered => [.succeeded, .failed, .expired, .canceled]
  | _ => []

def canTransitionTo (s target : Status) : Bool := target ∈ s.validTransitions

theorem not_terminal_of_canTransitionTo {s target : Status}
    (h : s.canTransitionTo target = true) : s.isTerminal = false := by
  cases s <;> first | rfl | simp [canTransitionTo, validTransitions] at h

theorem not_canTransitionTo_self (s : Status) : s.canTransitionTo s = false := by
  cases s <;> simp [canTransitionTo, validTransitions]

end Status

def transition (source target : Status) : Except Err Unit :=
  require (source.canTransitionTo target) (validationFailed "command: invalid status transition")

inductive TimeoutPhase
  | scheduleToSend
  | sendToComplete
  | overall

structure Timeouts where
  scheduleToSend : Duration := 0
  sendToComplete : Duration := 0
  overallDeadline : Duration := 0
  deriving DecidableEq

/-- What a metadata map holds. -/
abbrev Metadata := Table String String

/-- An entry. `callerMap` tells apart the Go maps in which callers keep the metadata; it is `none`
for an entry without a map and where `Enqueue` made the map. -/
structure Entry where
  id : String
  deviceID : String
  commandType : String
  payload : Bytes
  status : Status := .pending
  metadata : Metadata := ∅
  callerMap : Option ℕ := none
  timeouts : Timeouts := {}
  attempt : ℤ := 0
  createdAt : Time
  sentAt : Option Time := none
  deliveredAt : Option Time := none
  completedAt : Option Time := none
  deriving DecidableEq

namespace Entry

variable (e : Entry)

/-- `Entry.DeadlineFor`; Go's zero time where the phase has no deadline. -/
def deadlineFor : TimeoutPhase → Time
  | .scheduleToSend =>
    if e.timeouts.scheduleToSend ≤ 0 then 0 else e.createdAt + e.timeouts.scheduleToSend
  | .sendToComplete =>
    match e.sentAt with
    | none => 0
    | some t => if e.timeouts.sendToComplete ≤ 0 then 0 else t + e.timeouts.sendToComplete
  | .overall =>
    if e.timeouts.overallDeadline ≤ 0 then 0 else e.createdAt + e.timeouts.overallDeadline

def validateBaseFields : Except Err Unit := do
  require (e.id ≠ "") (validationFailed "command: entry missing ID")
  require (e.deviceID ≠ "") (validationFailed "command: entry missing DeviceID")
  require (e.commandType ≠ "") (validationFailed "command: entry missing CommandType")
  require (!e.payload.isEmpty) (validationFailed "command: entry missing Payload")

def validateStatus : Except Err Unit := do
  require e.status.valid (validationFailed "command: entry has invalid Status")
  require (e.status = .pending) (validationFailed "command: new entry must have Pending status")

def validateTimestamps : Except Err Unit := do
  require (e.createdAt ≠ 0) (validationFailed "command: entry missing CreatedAt")
  require (e.sentAt.isNone && e.deliveredAt.isNone && e.completedAt.isNone)
    (validationFailed ("command: new entry must not have phase timestamps " ++
      "(SentAt/DeliveredAt/CompletedAt)"))
  require (e.attempt = 0) (validationFailed "command: new entry must have Attempt=0")

def validateTimeouts : Except Err Unit := do
  require (0 ≤ e.timeouts.scheduleToSend)
    (validationFailed "command: ScheduleToSend timeout must be non-negative")
  require (0 ≤ e.timeouts.sendToComplete)
    (validationFailed "command: SendToComplete timeout must be non-negative")
  require (0 ≤ e.timeouts.overallDeadline)
    (validationFailed "command: OverallDeadline timeout must be non-negative")

end Entry

def metadataSize (m : Metadata) : ℕ :=
  (m.entries.map fun kv ↦ kv.1.utf8ByteSize + kv.2.utf8ByteSize).sum

def validateMetadata (m : Metadata) : Except Err Unit := do
  Envelope.checkLimit "command: metadata key count exceeds max" "count" m.entries.length
    Envelope.maxMetadataKeys
  m.entries.forM fun kv ↦ do
    Envelope.checkLimit "command: metadata key length exceeds max" "length" kv.1.utf8ByteSize
      Envelope.maxMetadataKeyLen
    Envelope.checkLimit "command: metadata value length exceeds max" "length" kv.2.utf8ByteSize
      Envelope.maxMetadataValueLen
  Envelope.checkLimit "command: metadata total size exceeds max" "total" (metadataSize m)
    Envelope.maxMetadataTotalSize

namespace Entry

def validateNew (e : Entry) : Except Err Unit := do
  e.validateBaseFields
  e.validateStatus
  e.validateTimestamps
  e.validateTimeouts
  validateMetadata e.metadata

structure New (e : Entry) : Prop where
  status : e.status = .pending
  sentAt : e.sentAt = none
  deliveredAt : e.deliveredAt = none
  completedAt : e.completedAt = none
  attempt : e.attempt = 0
  scheduleToSend : 0 ≤ e.timeouts.scheduleToSend
  sendToComplete : 0 ≤ e.timeouts.sendToComplete
  overallDeadline : 0 ≤ e.timeouts.overallDeadline

theorem validateNew_ok {e : Entry} (h : e.validateNew = .ok ()) : e.New := by
  simp only [validateNew, validateStatus, validateTimestamps, validateTimeouts, check_ok,
    require_ok, Bool.and_eq_true, Option.isNone_iff_eq_none, decide_eq_true_eq] at h
  obtain ⟨-, ⟨-, hstatus⟩, ⟨-, ⟨⟨hsent, hdelivered⟩, hcompleted⟩, hattempt⟩, ⟨hschedule, hsend,
    hoverall⟩, -⟩ := h
  exact ⟨hstatus, hsent, hdelivered, hcompleted, hattempt, hschedule, hsend, hoverall⟩

/-- The entry in the status `target`, with the timestamps and the counter that go with it. -/
def moved (e : Entry) (target : Status) (now : Time) : Entry :=
  match target with
  | .sent => { e with sentAt := some now, attempt := e.attempt + 1, status := .sent }
  | .delivered => { e with deliveredAt := some now, status := .delivered }
  | .succeeded => { e with completedAt := some now, status := .succeeded }
  | .failed => { e with completedAt := some now, status := .failed }
  | .expired => { e with completedAt := some now, status := .expired }
  | .canceled => { e with completedAt := some now, status := .canceled }
  | _ => { e with status := target }

section

variable (e : Entry) (target : Status) (now : Time)
include e target now

@[simp] theorem moved_id :
    (e.moved target now).id = e.id := by cases target <;> rfl

@[simp] theorem moved_deviceID :
    (e.moved target now).deviceID = e.deviceID := by cases target <;> rfl

@[simp] theorem moved_metadata :
    (e.moved target now).metadata = e.metadata := by cases target <;> rfl

@[simp] theorem moved_status :
    (e.moved target now).status = target := by cases target <;> rfl

end

end Entry

/-- What `AdvanceCommand` asks of the timestamps before it changes the entry. -/
def checkPhase (e : Entry) (now : Time) : Status → Except Err Unit
  | .sent => require (e.sentAt.all fun t ↦ t ≤ now)
      (validationFailed "command: advance now precedes previous SentAt (clock skew?)")
  | .delivered => require e.sentAt.isSome
      (validationFailed "command: cannot transition to Delivered without SentAt")
  | _ => .ok ()

def advanceCommand (e : Entry) (target : Status) (now : Time) : Except Err Entry := do
  require (target ≠ .pending) (validationFailed
    "command: AdvanceCommand does not support transitions to Pending; use ResetForRetry")
  transition e.status target
  checkPhase e now target
  return e.moved target now

variable {target : Status}

theorem advanceCommand_ok {e e' : Entry} {now : Time} :
    advanceCommand e target now = .ok e' ↔
      (target ≠ .pending ∧ e.status.canTransitionTo target = true ∧
        checkPhase e now target = .ok ()) ∧ e' = e.moved target now := by
  simp only [advanceCommand, check_ok, transition, require_ok, decide_eq_true_eq, pure, Except.pure,
    Except.ok.injEq, and_assoc]
  exact Iff.rfl.and (Iff.rfl.and (Iff.rfl.and eq_comm))

theorem advanceCommand_sent {e : Entry} (hstatus : e.status = .pending) (hsent : e.sentAt = none)
    (now : Time) : advanceCommand e .sent now = .ok (e.moved .sent now) := by
  refine advanceCommand_ok.2 ⟨⟨nofun, ?_, ?_⟩, rfl⟩
  · rw [hstatus]
    rfl
  · rw [checkPhase, hsent]
    rfl

structure ExpiryTransition where
  commandID : String
  source : Status
  target : Status
  reason : String
  deriving DecidableEq

/-- `!dl.IsZero() && now.After(dl)` for the deadline of a phase. -/
def elapsed (e : Entry) (phase : TimeoutPhase) (now : Time) : Bool :=
  e.deadlineFor phase ≠ 0 && e.deadlineFor phase < now

def checkExpiry (e : Entry) (now : Time) : Option ExpiryTransition :=
  if elapsed e .overall now then some ⟨e.id, e.status, .expired, "phase_overall_deadline"⟩
  else if elapsed e .sendToComplete now then
    some ⟨e.id, e.status, .expired, "phase_send_to_complete"⟩
  else if elapsed e .scheduleToSend now then
    some ⟨e.id, e.status, .expired, "phase_schedule_to_send"⟩
  else none

def sweepOnce (entries : List Entry) (now : Time) : List ExpiryTransition :=
  entries.filterMap fun e ↦ if e.status.isTerminal then none else checkExpiry e now

end GoCell.Command
