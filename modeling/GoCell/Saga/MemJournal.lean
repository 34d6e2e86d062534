import GoCell.Foundation.Runs
import GoCell.Foundation.Tables
import GoCell.Saga.Event

namespace GoCell.Saga

open Foundation Kernel

def errInstanceNotFound : Err :=
  ⟨.notFound, .sagaNotFound, "saga journal: instance not found", []⟩

def errDuplicateInstance : Err :=
  ⟨.conflict, .sagaDuplicateInstance, "saga journal: instance already enqueued", []⟩

def errStaleLease : Err :=
  ⟨.conflict, .sagaStaleLease, "saga journal: stale lease on append", []⟩

def errInvalidTerminalStatus : Err := validationFailed "saga journal: invalid terminal status"

def errNonPositiveBatchSize : Err :=
  validationFailed "saga journal: ClaimPending batchSize must be positive"

def errNonPositiveLeaseDuration : Err :=
  validationFailed "saga journal: leaseDuration must be positive"

def errNonPositiveLimit : Err :=
  validationFailed "saga journal: LoadSince limit must be positive"

def errNegativeGlobalSeq : Err :=
  validationFailed "saga journal: LoadSince afterGlobalSeq must not be negative"

def errEventPhase : Err :=
  validationFailed "saga journal: event kind not allowed in current phase"

structure InstanceRow where
  inst : Instance
  currentVersion : ℕ := 0
  leaseID : SafeID := ""
  leaseExpiresAt : Time := 0
  deriving DecidableEq

structure GlobalEvent where
  globalSeq : ℕ
  instanceID : SafeID
  event : Event
  deriving DecidableEq

structure ClaimedInstance where
  inst : Instance
  leaseID : SafeID
  deriving DecidableEq

structure MemJournal where
  instances : Table SafeID InstanceRow := ∅
  events : Table SafeID (List Event) := ∅
  globalSeq : ℕ := 0
  globalLog : List GlobalEvent := []
  deriving DecidableEq

def fenced (row : InstanceRow) (leaseID : SafeID) (now : Time) : Bool :=
  row.leaseID ≠ "" && row.leaseID = leaseID && !decide (row.leaseExpiresAt < now)

theorem fenced_iff {row : InstanceRow} {leaseID : SafeID} {now : Time} :
    fenced row leaseID now = true ↔
      row.leaseID ≠ "" ∧ row.leaseID = leaseID ∧ now ≤ row.leaseExpiresAt := by
  simp [fenced, and_assoc]

/-- The status projection of `Append`: an instance advanced by a non-terminal event kind. -/
def applyProjection (inst : Instance) (kind : EventKind) (now : Time) : Except Err Instance :=
  match kind with
  | .stepStarted | .stepCompleted | .stepFailed =>
    match inst.status with
    | .pending => advanceSaga inst .running now
    | .running => .ok inst
    | _ => .error errEventPhase
  | .compensationStarted => advanceSaga inst .compensating now
  | .stepCompensated | .stepCompensationFailed =>
    if inst.status = .compensating then .ok inst else .error errEventPhase
  | _ => .ok inst

namespace MemJournal

variable (m : MemJournal)

def row (id : SafeID) : Option InstanceRow := m.instances.lookup id

def log (id : SafeID) : List Event := (m.events.lookup id).getD []

def addInstance (inst : Instance) : MemJournal :=
  { m with
    instances := m.instances.insert inst.id { inst := inst }
    events := m.events.insert inst.id [] }

def enqueue (inst : Instance) : MemJournal × Except Err Unit :=
  if (m.row inst.id).isSome then (m, .error errDuplicateInstance)
  else match inst.validateNew with
    | .error e => (m, .error e)
    | .ok () => (m.addInstance inst, .ok ())

def appendLocked (row : InstanceRow) (id : SafeID) (e : Event) : MemJournal :=
  let stamped := { e with version := row.currentVersion + 1, globalSeq := m.globalSeq + 1 }
  { instances := m.instances.insert id { row with currentVersion := row.currentVersion + 1 }
    events := m.events.insert id (m.log id ++ [stamped])
    globalSeq := m.globalSeq + 1
    globalLog := m.globalLog ++ [⟨m.globalSeq + 1, id, stamped⟩] }

variable (now : Time) (id leaseID : SafeID)

def checkAppend (event : Event) : Except Err InstanceRow :=
  match m.row id with
  | none => .error errInstanceNotFound
  | some row => do
    require (fenced row leaseID now) errStaleLease
    event.validateForAppend
    let inst ← applyProjection row.inst event.kind now
    return { row with inst := inst }

def append (event : Event) : MemJournal × Except Err ℕ :=
  match m.checkAppend now id leaseID event with
  | .error e => (m, .error e)
  | .ok row =>
    (m.appendLocked row id
      { kind := event.kind, stepName := event.stepName, payload := event.payload,
        createdAt := now }, .ok (row.currentVersion + 1))

def load (id : SafeID) : Except Err (List Event) :=
  if (m.row id).isSome then .ok (m.log id) else .error errInstanceNotFound

def claimable (row : InstanceRow) : Bool :=
  !row.inst.status.isTerminal && (row.leaseID = "" || row.leaseExpiresAt < now)

/-- The comparison of `ClaimPending`'s sort: by start time, then by identifier. -/
def claimedBefore (a b : SafeID × InstanceRow) : Bool :=
  if a.2.inst.startedAt = b.2.inst.startedAt then a.1 < b.1
  else a.2.inst.startedAt < b.2.inst.startedAt

def candidates (batchSize : ℤ) : List (SafeID × InstanceRow) :=
  selectFirst m.instances (fun _ row ↦ claimable now row)
    (fun a b ↦ claimedBefore b a = false) batchSize.toNat

def leaseTo (leaseID : SafeID) (expiresAt : Time) (row : InstanceRow) : InstanceRow :=
  { row with leaseID := leaseID, leaseExpiresAt := expiresAt }

def leaseAll (claimed : List (SafeID × InstanceRow)) (leaseID : SafeID)
    (expiresAt : Time) : MemJournal :=
  { m with
    instances := modifyAll m.instances (claimed.map Prod.fst) (leaseTo leaseID expiresAt) }

/-- `ClaimPending`; `uuid` is what `NewUUID` returns if it is called. -/
def claimPending (uuid : Except Err SafeID) (batchSize : ℤ)
    (leaseDuration : Duration) : MemJournal × Except Err (List ClaimedInstance × SafeID) :=
  if batchSize ≤ 0 then (m, .error errNonPositiveBatchSize)
  else if leaseDuration ≤ 0 then (m, .error errNonPositiveLeaseDuration)
  else
    if (m.candidates now batchSize).isEmpty then (m, .ok ([], ""))
    else match uuid with
      | .error e => (m, .error e)
      | .ok leaseID =>
        (m.leaseAll (m.candidates now batchSize) leaseID (now + leaseDuration),
          .ok ((m.candidates now batchSize).map fun c ↦ ⟨c.2.inst, leaseID⟩, leaseID))

def extendLease (id : SafeID) (expiresAt : Time) : MemJournal :=
  { m with instances := modify m.instances id fun row ↦ { row with leaseExpiresAt := expiresAt } }

def heartbeat (leaseDuration : Duration) : MemJournal × Except Err Bool :=
  if leaseDuration ≤ 0 then (m, .error errNonPositiveLeaseDuration)
  else match m.row id with
    | none => (m, .ok false)
    | some row =>
      if fenced row leaseID now then (m.extendLease id (now + leaseDuration), .ok true)
      else (m, .ok false)

def checkTerminal (row : InstanceRow) (final : Status) (now : Time) :
    Except Err (EventKind × Instance) := do
  require final.isTerminal errInvalidTerminalStatus
  match terminalEventKind final with
  | none => .error errInvalidTerminalStatus
  | some kind => do
    let inst ← advanceSaga row.inst final now
    return (kind, inst)

def releaseLease (id : SafeID) : MemJournal :=
  { m with instances := modify m.instances id fun row ↦ { row with leaseID := "" } }

def markTerminal (final : Status) : MemJournal × Except Err Bool :=
  match m.row id with
  | none => (m, .ok false)
  | some row =>
    if fenced row leaseID now then
      match checkTerminal row final now with
      | .error e => (m, .error e)
      | .ok (kind, inst) =>
        ((m.appendLocked { row with inst := inst } id
          { kind := kind, createdAt := now }).releaseLease id, .ok true)
    else (m, .ok false)

/-- `LoadSince`: the global log is dense from one, so the cursor is an index into it. -/
def loadSince (afterGlobalSeq limit : ℤ) : Except Err (List GlobalEvent) := do
  require (0 < limit) errNonPositiveLimit
  require (0 ≤ afterGlobalSeq) errNegativeGlobalSeq
  return (m.globalLog.drop afterGlobalSeq.toNat).take limit.toNat

def headSeq : ℕ := m.globalSeq

variable {m} {now : Time} {id leaseID : SafeID}

@[simp, grind =] theorem row_appendLocked (m : MemJournal) (row : InstanceRow) (id j : SafeID)
    (e : Event) :
    (m.appendLocked row id e).row j =
      if j = id then some { row with currentVersion := row.currentVersion + 1 } else m.row j :=
  lookup_insert_if _ _ _ _

@[simp, grind =] theorem log_appendLocked (m : MemJournal) (row : InstanceRow) (id j : SafeID)
    (e : Event) :
    (m.appendLocked row id e).log j =
      if j = id then
        m.log j ++ [{ e with version := row.currentVersion + 1, globalSeq := m.globalSeq + 1 }]
      else m.log j := by
  simp only [log, appendLocked, lookup_insert_if]
  split_ifs with h
  · rw [h, Option.getD_some]
  · rfl

@[simp, grind =] theorem row_releaseLease (m : MemJournal) (id j : SafeID) :
    (m.releaseLease id).row j =
      if j = id then (m.row j).map fun row ↦ { row with leaseID := "" } else m.row j :=
  lookup_modify _ _ _ _

@[simp, grind =] theorem log_releaseLease (m : MemJournal) (id j : SafeID) :
    (m.releaseLease id).log j = m.log j := rfl

@[simp, grind =] theorem row_extendLease (m : MemJournal) (id j : SafeID) (t : Time) :
    (m.extendLease id t).row j =
      if j = id then (m.row j).map fun row ↦ { row with leaseExpiresAt := t } else m.row j :=
  lookup_modify _ _ _ _

@[simp, grind =] theorem log_extendLease (m : MemJournal) (id j : SafeID) (t : Time) :
    (m.extendLease id t).log j = m.log j := rfl

@[simp, grind =] theorem row_addInstance (m : MemJournal) (inst : Instance) (j : SafeID) :
    (m.addInstance inst).row j = if j = inst.id then some { inst := inst } else m.row j :=
  lookup_insert_if _ _ _ _

@[simp, grind =] theorem log_addInstance (m : MemJournal) (inst : Instance) (j : SafeID) :
    (m.addInstance inst).log j = if j = inst.id then [] else m.log j := by
  simp only [log, addInstance, lookup_insert_if]
  split_ifs <;> rfl

theorem mem_candidates {batchSize : ℤ} {row : InstanceRow}
    (h : (id, row) ∈ m.candidates now batchSize) :
    m.row id = some row ∧ claimable now row = true :=
  mem_selectFirst h

theorem candidates_nodup (m : MemJournal) (now : Time) (batchSize : ℤ) :
    ((m.candidates now batchSize).map Prod.fst).Nodup :=
  selectFirst_keys_nodup _ _ _ _

@[simp, grind =] theorem row_leaseAll (m : MemJournal) (now : Time) (batchSize : ℤ)
    (leaseID j : SafeID) (t : Time) :
    (m.leaseAll (m.candidates now batchSize) leaseID t).row j =
      if j ∈ (m.candidates now batchSize).map Prod.fst then (m.row j).map (leaseTo leaseID t)
      else m.row j :=
  lookup_modifyAll _ (m.candidates_nodup now batchSize) _ _

theorem enqueue_cases (m : MemJournal) (inst : Instance) :
    (∃ e, m.enqueue inst = (m, .error e)) ∨ (m.row inst.id = none ∧ inst.validateNew = .ok () ∧
        m.enqueue inst = (m.addInstance inst, .ok ())) := by
  unfold enqueue
  cases hrow : m.row inst.id with
  | some row => exact .inl ⟨_, rfl⟩
  | none =>
    cases hnew : inst.validateNew with
    | error e => exact .inl ⟨e, rfl⟩
    | ok u => exact .inr ⟨rfl, rfl, rfl⟩

theorem append_cases (m : MemJournal) (now : Time) (id leaseID : SafeID) (event : Event) :
    (∃ e, m.append now id leaseID event = (m, .error e)) ∨
      ∃ row inst, m.row id = some row ∧ fenced row leaseID now = true ∧
        event.validateForAppend = .ok () ∧ applyProjection row.inst event.kind now = .ok inst ∧
        m.append now id leaseID event = (m.appendLocked { row with inst := inst } id
            { kind := event.kind, stepName := event.stepName, payload := event.payload,
              createdAt := now }, .ok (row.currentVersion + 1)) := by
  unfold append
  cases hcheck : m.checkAppend now id leaseID event with
  | error e => exact .inl ⟨e, rfl⟩
  | ok row' =>
    right
    unfold checkAppend at hcheck
    cases hrow : m.row id with
    | none => simp [hrow] at hcheck
    | some row =>
      simp only [hrow, bind_ok, require_ok, pure, Except.pure, Except.ok.injEq] at hcheck
      obtain ⟨_, hfenced, _, hvalid, inst, hproj, rfl⟩ := hcheck
      exact ⟨row, inst, rfl, hfenced, hvalid, hproj, rfl⟩

theorem claimPending_cases (m : MemJournal) (now : Time) (uuid : Except Err SafeID)
    (batchSize : ℤ) (leaseDuration : Duration) :
    (∃ e, m.claimPending now uuid batchSize leaseDuration = (m, .error e)) ∨
      m.claimPending now uuid batchSize leaseDuration = (m, .ok ([], "")) ∨
      ∃ leaseID, uuid = .ok leaseID ∧ 0 < leaseDuration ∧
        m.claimPending now uuid batchSize leaseDuration =
          (m.leaseAll (m.candidates now batchSize) leaseID (now + leaseDuration),
            .ok ((m.candidates now batchSize).map fun c ↦ ⟨c.2.inst, leaseID⟩, leaseID)) := by
  unfold claimPending
  split_ifs with hbatch hdur
  · exact .inl ⟨_, rfl⟩
  · exact .inl ⟨_, rfl⟩
  · exact .inr (.inl rfl)
  · cases uuid with
    | error e => exact .inl ⟨e, rfl⟩
    | ok leaseID => exact .inr (.inr ⟨leaseID, rfl, not_le.1 hdur, rfl⟩)

theorem heartbeat_cases (m : MemJournal) (now : Time) (id leaseID : SafeID)
    (leaseDuration : Duration) :
    (∃ r, m.heartbeat now id leaseID leaseDuration = (m, r) ∧ r ≠ .ok true) ∨
      ∃ row, m.row id = some row ∧ fenced row leaseID now = true ∧ 0 < leaseDuration ∧
        m.heartbeat now id leaseID leaseDuration =
          (m.extendLease id (now + leaseDuration), .ok true) := by
  unfold heartbeat
  split_ifs with hdur
  · exact .inl ⟨_, rfl, by simp⟩
  · cases hrow : m.row id with
    | none => exact .inl ⟨_, rfl, by simp⟩
    | some row =>
      by_cases hfenced : fenced row leaseID now = true
      · exact .inr ⟨row, rfl, hfenced, not_le.1 hdur, if_pos hfenced⟩
      · exact .inl ⟨_, if_neg hfenced, by simp⟩

theorem checkTerminal_ok {row : InstanceRow} {final : Status} {kind : EventKind} {inst : Instance} :
    checkTerminal row final now = .ok (kind, inst) ↔
      terminalEventKind final = some kind ∧ advanceSaga row.inst final now = .ok inst := by
  cases final <;>
    simp [checkTerminal, terminalEventKind, Status.isTerminal, bind_ok, pure, Except.pure,
      require, and_comm]

theorem markTerminal_cases (m : MemJournal) (now : Time) (id leaseID : SafeID) (final : Status) :
    (∃ r, m.markTerminal now id leaseID final = (m, r) ∧ r ≠ .ok true) ∨
      ∃ row kind inst, m.row id = some row ∧ fenced row leaseID now = true ∧
        terminalEventKind final = some kind ∧ advanceSaga row.inst final now = .ok inst ∧
        m.markTerminal now id leaseID final = ((m.appendLocked { row with inst := inst } id
            { kind := kind, createdAt := now }).releaseLease id, .ok true) := by
  unfold markTerminal
  cases hrow : m.row id with
  | none => exact .inl ⟨_, rfl, by simp⟩
  | some row =>
    by_cases hfenced : fenced row leaseID now = true
    · simp only [hfenced, if_true]
      cases hcheck : checkTerminal row final now with
      | error e => exact .inl ⟨_, rfl, by simp⟩
      | ok p =>
        obtain ⟨kind, inst⟩ := p
        obtain ⟨hkind, hinst⟩ := checkTerminal_ok.1 hcheck
        exact .inr ⟨row, kind, inst, rfl, hfenced, hkind, hinst, rfl⟩
    · exact .inl ⟨_, if_neg hfenced, by simp⟩

end MemJournal

/-- A call of the `Journal` interface. `uuid` is what `NewUUID` returns if the call mints a
lease. -/
inductive Call
  | enqueue (inst : Instance)
  | append (id leaseID : SafeID) (event : Event)
  | load (id : SafeID)
  | claimPending (uuid : Except Err SafeID) (batchSize : ℤ) (leaseDuration : Duration)
  | heartbeat (id leaseID : SafeID) (leaseDuration : Duration)
  | markTerminal (id leaseID : SafeID) (final : Status)

inductive Reply
  | enqueued
  | version (n : ℕ)
  | events (log : List Event)
  | claimed (instances : List ClaimedInstance) (leaseID : SafeID)
  | held (ok : Bool)
  | failed (e : Err)
  deriving DecidableEq

def Reply.of {α : Type} (r : Except Err α) (reply : α → Reply) : Reply :=
  match r with
  | .ok a => reply a
  | .error e => .failed e

def Reply.refused : Reply → Bool
  | .failed _ | .held false => true
  | _ => false

namespace MemJournal

def call (m : MemJournal) : Time × Call → MemJournal × Reply
  | (_, .enqueue inst) => let r := m.enqueue inst; (r.1, .of r.2 fun _ ↦ .enqueued)
  | (now, .append id leaseID event) =>
    let r := m.append now id leaseID event; (r.1, .of r.2 .version)
  | (_, .load id) => (m, .of (m.load id) .events)
  | (now, .claimPending uuid batchSize leaseDuration) =>
    let r := m.claimPending now uuid batchSize leaseDuration
    (r.1, .of r.2 fun c ↦ .claimed c.1 c.2)
  | (now, .heartbeat id leaseID leaseDuration) =>
    let r := m.heartbeat now id leaseID leaseDuration; (r.1, .of r.2 .held)
  | (now, .markTerminal id leaseID final) =>
    let r := m.markTerminal now id leaseID final; (r.1, .of r.2 .held)

end MemJournal

end GoCell.Saga
