import GoCell.Saga.MemJournal

namespace GoCell.Saga

open Foundation Kernel

def pgInterval (d : Duration) : Duration := d.tdiv 1000 * 1000

def errSchemaShape (message : String) : Err := ⟨.internal, .pgSchemaShape, message, []⟩

def statusToInt16 : Status → ℤ
  | .pending => 1
  | .running => 2
  | .compensating => 3
  | .succeeded => 4
  | .failed => 5
  | .compensated => 6
  | .expired => 7
  | .compensationFailed => 8
  | .unknown => 0

def statusFromInt16 : ℤ → Option Status
  | 1 => some .pending
  | 2 => some .running
  | 3 => some .compensating
  | 4 => some .succeeded
  | 5 => some .failed
  | 6 => some .compensated
  | 7 => some .expired
  | 8 => some .compensationFailed
  | _ => none

def kindToInt16 : EventKind → ℤ
  | .stepStarted => 1
  | .stepCompleted => 2
  | .stepFailed => 3
  | .stepCompensated => 4
  | .compensationStarted => 5
  | .sagaSucceeded => 6
  | .sagaFailed => 7
  | .sagaCompensated => 8
  | .sagaExpired => 9
  | .stepCompensationFailed => 10
  | .sagaCompensationFailed => 11
  | .unknown => 0

def kindFromInt16 : ℤ → Option EventKind
  | 1 => some .stepStarted
  | 2 => some .stepCompleted
  | 3 => some .stepFailed
  | 4 => some .stepCompensated
  | 5 => some .compensationStarted
  | 6 => some .sagaSucceeded
  | 7 => some .sagaFailed
  | 8 => some .sagaCompensated
  | 9 => some .sagaExpired
  | 10 => some .stepCompensationFailed
  | 11 => some .sagaCompensationFailed
  | _ => none

theorem statusFromInt16_statusToInt16 {s : Status} (h : s.valid = true) :
    statusFromInt16 (statusToInt16 s) = some s := by
  cases s <;> first | rfl | cases h

theorem kindFromInt16_kindToInt16 {k : EventKind} (h : k.valid = true) :
    kindFromInt16 (kindToInt16 k) = some k := by
  cases k <;> first | rfl | cases h

def nullableStepName (s : SafeID) : Option SafeID := if s = "" then none else some s

@[simp] theorem getD_nullableStepName (s : SafeID) : (nullableStepName s).getD "" = s := by
  unfold nullableStepName
  split_ifs with h
  · exact h.symm
  · rfl

/-- A row of `saga_instances` without its key `id`; `none` is `NULL`. -/
structure SagaInstanceRow where
  definitionID : SafeID
  status : ℤ
  currentVersion : ℕ := 0
  leaseID : Option SafeID := none
  leaseExpiresAt : Option Time := none
  startedAt : Time
  updatedAt : Time
  deriving DecidableEq

def SagaInstanceRow.checked (r : SagaInstanceRow) : Bool :=
  1 ≤ r.status && r.status ≤ 8 && r.leaseID.isNone == r.leaseExpiresAt.isNone

def SagaInstanceRow.afterAppend (newStatus : Status) (now : Time) (r : SagaInstanceRow) :
    SagaInstanceRow :=
  { r with
    currentVersion := r.currentVersion + 1
    status := statusToInt16 newStatus
    updatedAt := pgTime now }

def SagaInstanceRow.terminal (finalStatus : Status) (now : Time) (r : SagaInstanceRow) :
    SagaInstanceRow :=
  { r with
    status := statusToInt16 finalStatus
    currentVersion := r.currentVersion + 1
    leaseID := none
    leaseExpiresAt := none
    updatedAt := pgTime now }

structure SagaEventRow where
  instanceID : SafeID
  version : ℕ
  kind : ℤ
  stepName : Option SafeID
  payload : Bytes
  createdAt : Time
  globalSeq : ℕ
  deriving DecidableEq

def SagaEventRow.checked (e : SagaEventRow) : Bool :=
  1 ≤ e.kind && e.kind ≤ 11 && 1 ≤ e.version

/-- The two tables, and the last value of the `global_seq` identity column. `saga_events` is in
the order of insertion. -/
structure PGJournal where
  sagaInstances : Table SafeID SagaInstanceRow := ∅
  sagaEvents : List SagaEventRow := []
  globalSeq : ℕ := 0

/-- The columns that `selectInstanceLocked` scans; `lease` is `none` unless both are set. -/
structure LockedRow where
  status : Status
  currentVersion : ℕ
  lease : Option (SafeID × Time)
  startedAt : Time
  updatedAt : Time

namespace LockedRow

def fenced (row : LockedRow) (leaseID : SafeID) (now : Time) : Bool :=
  match row.lease with
  | none => false
  | some (held, expiresAt) => held = leaseID && !decide (expiresAt < now)

def workingInstance (row : LockedRow) (id : SafeID) : Instance where
  id := id
  definitionID := ""
  status := row.status
  currentStep := 0
  startedAt := row.startedAt
  updatedAt := some row.updatedAt
  completedAt := none

end LockedRow

def projectAppend (inst : Instance) (kind : EventKind) (now : Time) : Except Err Status :=
  match kind with
  | .stepStarted | .stepCompleted | .stepFailed =>
    match inst.status with
    | .pending => (advanceSaga inst .running now).map fun _ ↦ .running
    | .running => .ok inst.status
    | _ => .error errEventPhase
  | .compensationStarted => (advanceSaga inst .compensating now).map fun _ ↦ .compensating
  | .stepCompensated | .stepCompensationFailed =>
    if inst.status = .compensating then .ok inst.status else .error errEventPhase
  | _ => .ok inst.status

namespace PGJournal

def transact {α : Type} (p : PGJournal) (body : Except Err (PGJournal × α)) :
    PGJournal × Except Err α :=
  match body with
  | .ok (p', a) => (p', .ok a)
  | .error e => (p, .error e)

variable (p : PGJournal)

def selectInstanceLocked (id : SafeID) : Except Err (Option LockedRow) :=
  match p.sagaInstances.lookup id with
  | none => .ok none
  | some r =>
    match statusFromInt16 r.status with
    | none => .error (errSchemaShape "saga journal: instance row has invalid status")
    | some status =>
      let lease := r.leaseID.bind fun leaseID ↦ r.leaseExpiresAt.map fun t ↦ (leaseID, t)
      .ok (some ⟨status, r.currentVersion, lease, r.startedAt, r.updatedAt⟩)

/-- `UPDATE saga_instances SET ... WHERE id = .. AND lease_id = ..`, with the table's checks. -/
def updateFenced (id leaseID : SafeID) (set : SagaInstanceRow → SagaInstanceRow)
    (message : String) : Except Err PGJournal :=
  match p.sagaInstances.lookup id with
  | none => .ok p
  | some r =>
    if r.leaseID = some leaseID then do
      require (set r).checked (errPGQuery message)
      return { p with sagaInstances := p.sagaInstances.insert id (set r) }
    else .ok p

def updateInstanceAfterAppend (newStatus : Status) (now : Time)
    (id leaseID : SafeID) : Except Err PGJournal :=
  p.updateFenced id leaseID (.afterAppend newStatus now)
    "saga journal: Append update projection failed"

def updateInstanceTerminal (finalStatus : Status) (now : Time)
    (id leaseID : SafeID) : Except Err PGJournal :=
  p.updateFenced id leaseID (.terminal finalStatus now) "saga journal: MarkTerminal update failed"

/-- `INSERT INTO saga_events`, with the primary key, the foreign key and the table's checks. -/
def insertEvent (id : SafeID) (version : ℕ) (kind : EventKind) (stepName : SafeID)
    (payload : Bytes) (now : Time) (message : String) : Except Err PGJournal := do
  let e : SagaEventRow :=
    { instanceID := id, version := version, kind := kindToInt16 kind
      stepName := nullableStepName stepName, payload := payload, createdAt := pgTime now
      globalSeq := p.globalSeq + 1 }
  require (e.checked && (p.sagaInstances.lookup id).isSome &&
    p.sagaEvents.all fun e' ↦ !(e'.instanceID = id && e'.version = version)) (errPGQuery message)
  return { p with sagaEvents := p.sagaEvents ++ [e], globalSeq := p.globalSeq + 1 }

variable (now : Time)

def enqueue (inst : Instance) : PGJournal × Except Err Unit :=
  p.transact do
    inst.validateNew
    let r : SagaInstanceRow :=
      { definitionID := inst.definitionID, status := statusToInt16 inst.status
        startedAt := pgTime inst.startedAt, updatedAt := pgTime now }
    require r.checked (errPGQuery "saga journal: Enqueue failed")
    -- ON CONFLICT (id) DO NOTHING: no affected row means a duplicate
    require (p.sagaInstances.lookup inst.id).isNone errDuplicateInstance
    return ({ p with sagaInstances := p.sagaInstances.insert inst.id r }, ())

variable (id leaseID : SafeID)

def append (event : Event) : PGJournal × Except Err ℕ :=
  p.transact do
    match ← p.selectInstanceLocked id with
    | none => throw errInstanceNotFound
    | some row =>
      require (row.fenced leaseID now) errStaleLease
      event.validateForAppend
      let newStatus ← projectAppend (row.workingInstance id) event.kind now
      let p₁ ← p.updateInstanceAfterAppend newStatus now id leaseID
      let p₂ ← p₁.insertEvent id (row.currentVersion + 1) event.kind event.stepName event.payload
        now "saga journal: Append insert event failed"
      return (p₂, row.currentVersion + 1)

/-- A scanned row of `selectEvents`, which does not read the `global_seq` column. -/
def scanEvent (e : SagaEventRow) : Except Err Event :=
  match kindFromInt16 e.kind with
  | none => .error (errSchemaShape "saga journal: Load encountered invalid event kind")
  | some kind =>
    .ok { version := e.version, kind := kind, stepName := e.stepName.getD "",
          payload := e.payload, createdAt := e.createdAt }

def selectEvents (id : SafeID) : List SagaEventRow :=
  (p.sagaEvents.filter (·.instanceID = id)).insertionSort fun a b ↦ a.version ≤ b.version

def load (id : SafeID) : Except Err (List Event) := do
  let events ← (p.selectEvents id).mapM scanEvent
  require (!events.isEmpty || (p.sagaInstances.lookup id).isSome) errInstanceNotFound
  return events

def eligible (r : SagaInstanceRow) : Bool :=
  r.status ∈ ([1, 2, 3] : List ℤ) &&
    (r.leaseID.isNone || r.leaseExpiresAt.any fun t ↦ t < pgTime now)

def pickedBefore (a b : SafeID × SagaInstanceRow) : Prop :=
  a.2.startedAt < b.2.startedAt ∨ (a.2.startedAt = b.2.startedAt ∧ a.1 ≤ b.1)

instance : DecidableRel pickedBefore := fun _ _ ↦ inferInstanceAs (Decidable (_ ∨ _))

def picked (batchSize : ℤ) : List (SafeID × SagaInstanceRow) :=
  selectFirst p.sagaInstances (fun _ r ↦ eligible now r) pickedBefore batchSize.toNat

def scanClaimed (leaseID : SafeID) (c : SafeID × SagaInstanceRow) : Except Err ClaimedInstance :=
  match statusFromInt16 c.2.status with
  | none => .error (errSchemaShape "saga journal: ClaimPending encountered invalid status")
  | some status =>
    .ok ⟨{ id := c.1, definitionID := c.2.definitionID, status := status, currentStep := 0,
           startedAt := c.2.startedAt, updatedAt := some c.2.updatedAt, completedAt := none },
      leaseID⟩

def claimPending (leaseID : SafeID) (batchSize : ℤ)
    (leaseDuration : Duration) : PGJournal × Except Err (List ClaimedInstance × SafeID) :=
  p.transact do
    require (0 < batchSize) errNonPositiveBatchSize
    require (0 < leaseDuration) errNonPositiveLeaseDuration
    let expiresAt := pgTime now + pgInterval leaseDuration
    let picked := p.picked now batchSize
    let updated := modifyAll p.sagaInstances (picked.map Prod.fst) fun r ↦
      { r with leaseID := some leaseID, leaseExpiresAt := some expiresAt }
    let claimed ← (picked.insertionSort pickedBefore).mapM (scanClaimed leaseID)
    return ({ p with sagaInstances := updated },
      if claimed.isEmpty then ([], "") else (claimed, leaseID))

def heartbeat (leaseDuration : Duration) : PGJournal × Except Err Bool :=
  p.transact do
    require (0 < leaseDuration) errNonPositiveLeaseDuration
    match p.sagaInstances.lookup id with
    | none => return (p, false)
    | some r =>
      if r.leaseID = some leaseID && r.leaseExpiresAt.any fun t ↦ pgTime now ≤ t then
        let r' := { r with leaseExpiresAt := some (pgTime now + pgInterval leaseDuration) }
        return ({ p with sagaInstances := p.sagaInstances.insert id r' }, true)
      else return (p, false)

def markTerminal (finalStatus : Status) : PGJournal × Except Err Bool :=
  p.transact do
    match ← p.selectInstanceLocked id with
    | none => return (p, false)
    | some row =>
      if row.fenced leaseID now then
        require finalStatus.isTerminal errInvalidTerminalStatus
        match terminalEventKind finalStatus with
        | none => throw errInvalidTerminalStatus
        | some kind =>
          let _ ← advanceSaga (row.workingInstance id) finalStatus now
          let p₁ ← p.updateInstanceTerminal finalStatus now id leaseID
          let p₂ ← p₁.insertEvent id (row.currentVersion + 1) kind "" [] now
            "saga journal: MarkTerminal insert event failed"
          return (p₂, true)
      else return (p, false)

/-- One call, with the instant that the journal's clock shows during it. A lease that could not
be minted stops the call before its query. -/
def call : Time × Call → PGJournal × Reply
  | (now, .enqueue inst) => let r := p.enqueue now inst; (r.1, .of r.2 fun _ ↦ .enqueued)
  | (now, .append id leaseID event) =>
    let r := p.append now id leaseID event; (r.1, .of r.2 .version)
  | (_, .load id) => (p, .of (p.load id) .events)
  | (now, .claimPending (.ok leaseID) batchSize leaseDuration) =>
    let r := p.claimPending now leaseID batchSize leaseDuration
    (r.1, .of r.2 fun c ↦ .claimed c.1 c.2)
  | (_, .claimPending (.error e) _ _) => (p, .failed e)
  | (now, .heartbeat id leaseID leaseDuration) =>
    let r := p.heartbeat now id leaseID leaseDuration; (r.1, .of r.2 .held)
  | (now, .markTerminal id leaseID final) =>
    let r := p.markTerminal now id leaseID final; (r.1, .of r.2 .held)

end PGJournal

end GoCell.Saga
