import GoCell.Kernel.Timestamps
import GoCell.Saga.Definition
import GoCell.Saga.MemJournal

namespace GoCell.Saga

open Foundation Kernel

def errFoldEventMismatch (stepName : SafeID) : Err :=
  ⟨.internal, .internal, "saga coordinator: replayed events inconsistent with state machine",
    [("instanceId", .string stepName)]⟩

def errFoldUnknownKind : Err :=
  ⟨.internal, .sagaFoldUnknownKind,
    "saga coordinator: foldEvents saw an unhandled journal event kind", []⟩

/-- The loop of `foldEvents`, from the cursor and the state reached so far. -/
def foldEventsFrom (cursor : ℕ) (prevState : Bytes) : List Event → Except Err (ℕ × Bytes)
  | [] => .ok (cursor, prevState)
  | e :: events =>
    match e.kind with
    | .stepCompleted => foldEventsFrom (cursor + 1) e.payload events
    | .stepFailed => .error (errFoldEventMismatch e.stepName)
    | .unknown => .error errFoldUnknownKind
    | _ => foldEventsFrom cursor prevState events

variable (events : List Event)

def foldEvents : Except Err (ℕ × Bytes) := foldEventsFrom 0 [] events

def shouldCompensate (d : Definition) : Bool :=
  d.steps.any (·.hasCompensate) && events.any (·.kind = .stepCompleted)

structure CommittedStepEntry where
  name : SafeID
  payload : Bytes
  deriving DecidableEq

def compensatedNames : List SafeID :=
  (events.filter fun e ↦ e.kind = .stepCompensated ∨ e.kind = .stepCompensationFailed).map
    Event.stepName

def priorFailureCount : ℕ :=
  (events.filter (·.kind = .stepCompensationFailed)).length

def collectCommittedSteps : List CommittedStepEntry :=
  (events.filter fun e ↦ e.kind = .stepCompleted ∧ e.stepName ∉ compensatedNames events).map
    fun e ↦ ⟨e.stepName, e.payload⟩

/-- The index `stepByName`: of two steps with one name the later one is kept. -/
def Definition.stepByName (d : Definition) (name : SafeID) : Option Step :=
  d.steps.reverse.find? (·.name = name)

/-- What the executor reports for a step; a failure comes with the payload that
`failurePayload` makes of its error. -/
inductive Outcome
  | succeeded (newState : Bytes)
  | failed (reason : Bytes)
  | expired
  | canceled
  | leaseLost
  deriving DecidableEq

structure CommitStepArgs where
  step : Step
  /-- The new state of the step, or the payload for the error that it failed with. -/
  result : Except Bytes Bytes
  isLastStep : Bool

def commitStepFailed (j : MemJournal) (now later : Time) (id leaseID : SafeID) (step : Step)
    (reason : Bytes) : Except Err MemJournal :=
  let appended := j.append now id leaseID
    { kind := .stepFailed, stepName := step.name, payload := reason }
  appended.2.bind fun _ ↦
    let marked := appended.1.markTerminal later id leaseID .failed
    marked.2.map fun _ ↦ marked.1

def commitStepCompleted (j : MemJournal) (now later : Time) (id leaseID : SafeID) (step : Step)
    (newState : Bytes) (isLastStep : Bool) (emit : Except Err Unit) : Except Err MemJournal :=
  let appended := j.append now id leaseID
    { kind := .stepCompleted, stepName := step.name, payload := newState }
  appended.2.bind fun _ ↦ emit.bind fun _ ↦
    if isLastStep then
      let marked := appended.1.markTerminal later id leaseID .succeeded
      marked.2.map fun _ ↦ marked.1
    else .ok appended.1

/-- `commitStep`: the journal that the transaction commits, or the error that rolls it back. The
clock shows `now` at the append and `later` at the terminal mark; `emit` is the result of writing
the message to the outbox. -/
def commitStep (j : MemJournal) (now later : Time) (id leaseID : SafeID) (a : CommitStepArgs)
    (emit : Except Err Unit) : Except Err MemJournal :=
  match a.result with
  | .error reason => commitStepFailed j now later id leaseID a.step reason
  | .ok newState => commitStepCompleted j now later id leaseID a.step newState a.isLastStep emit

def CommitStepArgs.event (a : CommitStepArgs) : Event :=
  match a.result with
  | .error reason => { kind := .stepFailed, stepName := a.step.name, payload := reason }
  | .ok newState => { kind := .stepCompleted, stepName := a.step.name, payload := newState }

def CommitStepArgs.closes (a : CommitStepArgs) : Option Status :=
  match a.result with
  | .error _ => some .failed
  | .ok _ => if a.isLastStep then some .succeeded else none

theorem commitStep_ok {j j' : MemJournal} {now later : Time} {id leaseID : SafeID}
    {a : CommitStepArgs} {emit : Except Err Unit}
    (h : commitStep j now later id leaseID a emit = .ok j') :
    let appended := j.append now id leaseID a.event
    appended.2.isOk = true ∧ j' = match a.closes with
      | some final => (appended.1.markTerminal later id leaseID final).1
      | none => appended.1 := by
  obtain ⟨step, result, isLastStep⟩ := a
  cases result with
  | error =>
    obtain ⟨v, hv, h⟩ := bind_ok.1 h
    refine ⟨by rw [CommitStepArgs.event, hv]; rfl, ?_⟩
    obtain ⟨b, -, h⟩ := map_ok.1 h
    exact h.symm
  | ok =>
    obtain ⟨v, hv, h⟩ := bind_ok.1 h
    obtain ⟨u, -, h⟩ := bind_ok.1 h
    refine ⟨by rw [CommitStepArgs.event, hv]; rfl, ?_⟩
    cases isLastStep with
    | true =>
      obtain ⟨b, -, h⟩ := map_ok.1 h
      exact h.symm
    | false => exact (Except.ok.inj h).symm

/-- One `runCompensation` call: the log it was given, the committed steps still ahead of the reverse
walk and the number of errors. `attempted` are the `Compensate` calls that returned, with their
results; `undisturbed` says that every journal call found its lease valid and every append
succeeded. -/
structure Rollback where
  defn : Definition
  recovery : Bool
  events : List Event
  remaining : List CommittedStepEntry
  compensateErrors : ℕ
  attempted : List (SafeID × Bool) := []
  undisturbed : Bool := true
  deriving DecidableEq

def startRollback (d : Definition) (events : List Event) (recovery : Bool) : Rollback where
  defn := d
  recovery := recovery
  events := events
  remaining := (collectCommittedSteps events).reverse
  compensateErrors := priorFailureCount events

def Rollback.finalStatus (r : Rollback) : Status :=
  if 0 < r.compensateErrors then .compensationFailed else .compensated

/-- Counts a `Compensate` call, given the payload of its failure if it failed. -/
def Rollback.outcome (r : Rollback) (step : SafeID) (failure : Option Bytes) : Rollback :=
  { r with
    compensateErrors := if failure.isSome then r.compensateErrors + 1 else r.compensateErrors
    attempted := r.attempted ++ [(step, failure.isNone)] }

def compensatedPayload (step : SafeID) : Bytes :=
  asciiBytes "\x7b\"step\":\"" ++ asciiBytes step ++ asciiBytes "\"\x7d"

def compensationEvent (step : SafeID) (failure : Option Bytes) : Event :=
  match failure with
  | some reason => { kind := .stepCompensationFailed, stepName := step, payload := reason }
  | none => { kind := .stepCompensated, stepName := step, payload := compensatedPayload step }

/-- Where a `driveOne` call stands between two of its atomic actions. -/
inductive Pc
  | lookup
  | load (d : Definition)
  | execute (d : Definition) (events : List Event) (cursor : ℕ) (prevState : Bytes)
  | commit (a : CommitStepArgs)
  | startCompensation (d : Definition) (events : List Event) (reason : Bytes)
  | preflight (r : Rollback)
  | walk (r : Rollback)
  | record (r : Rollback) (step : SafeID) (failure : Option Bytes)
  | markTerminal (final : Status) (r : Option Rollback)
  | returned (r : Option Rollback)

structure Drive where
  ci : ClaimedInstance
  pc : Pc

abbrev DriveKey := SafeID × SafeID

/-- Coordinators over one journal. `leases` holds every lease id handed out so far, and
`compensated` every instance and step for which a `Compensate` call returned nil. -/
structure Coordinators where
  journal : MemJournal := {}
  now : Time := 0
  leases : List SafeID := []
  drives : Table DriveKey Drive := ∅
  compensated : List (SafeID × SafeID) := []

inductive DriveAction
  | lookup
  | load
  | execute (outcome : Outcome)
  | commit (later : Time) (emit : Except Err Unit)
  | startCompensation (txOk : Bool)
  | preflight (leaseDuration : Duration)
  | compensate (failure : Option Bytes)
  | record (txOk : Bool)
  | finishWalk
  | cancelWalk
  | markTerminal
  | heartbeat (leaseDuration : Duration)
  | crash

inductive Action
  | advanceClock (now : Time)
  | enqueue (inst : Instance)
  | tick (leaseID : SafeID) (batchSize : ℤ) (leaseDuration : Duration)
  | drive (key : DriveKey) (a : DriveAction)

namespace Coordinators

/-- The state after a drive action, which may change the journal and moves the drive to `pc`. -/
def resume (s : Coordinators) (k : DriveKey) (d : Drive) (j : MemJournal) (pc : Pc) :
    Coordinators :=
  { s with journal := j, drives := s.drives.insert k { d with pc := pc } }

variable (resolver : Resolver)

/-- `driveOne` up to its first journal call: the definition and the total timeout. -/
def afterLookup (now : Time) (inst : Instance) : Pc :=
  match resolver.lookup inst.definitionID with
  | none => .markTerminal .failed none
  | some d =>
    if 0 < d.timeout ∧ d.timeout < timeSub now inst.startedAt then .markTerminal .expired none
    else .load d

/-- `driveOne` after `Load`: recovery of a rollback, or the cursor of the next step. -/
def afterLoad (inst : Instance) (d : Definition) (loaded : Except Err (List Event)) : Pc :=
  match loaded with
  | .error _ => .returned none
  | .ok events =>
    if inst.status = .compensating then .preflight (startRollback d events true)
    else match foldEvents events with
      | .error _ => .markTerminal .failed none
      | .ok (cursor, prevState) =>
        if d.steps.length ≤ cursor then .markTerminal .succeeded none
        else .execute d events cursor prevState

def routeOutcome (d : Definition) (events : List Event) (cursor : ℕ) (nextStep : Step) :
    Outcome → Pc
  | .succeeded newState => .commit ⟨nextStep, .ok newState, cursor = d.steps.length - 1⟩
  | .failed reason =>
    if shouldCompensate events d then .startCompensation d events reason
    else .commit ⟨nextStep, .error reason, false⟩
  | .expired => .markTerminal .expired none
  | .canceled | .leaseLost => .returned none

def leaseValid (j : MemJournal) (now : Time) (k : DriveKey) : Bool :=
  (j.row k.1).any fun row ↦ fenced row k.2 now

variable (s : Coordinators)

def driveStep (k : DriveKey) (d : Drive) : DriveAction → Option Coordinators
  | .lookup =>
    match d.pc with
    | .lookup => some (s.resume k d s.journal (afterLookup resolver s.now d.ci.inst))
    | _ => none
  | .load =>
    match d.pc with
    | .load defn =>
      some (s.resume k d s.journal (afterLoad d.ci.inst defn (s.journal.load k.1)))
    | _ => none
  | .execute outcome =>
    match d.pc with
    | .execute defn events cursor _ => (defn.steps[cursor]?).map fun step ↦
      s.resume k d s.journal (routeOutcome defn events cursor step outcome)
    | _ => none
  | .commit later emit =>
    match d.pc with
    | .commit a =>
      if later < s.now then none
      else
        let j := (commitStep s.journal s.now later k.1 k.2 a emit).toOption.getD s.journal
        some ({ s with now := later }.resume k d j (.returned none))
    | _ => none
  | .startCompensation txOk =>
    match d.pc with
    | .startCompensation defn events reason =>
      let appended := s.journal.append s.now k.1 k.2
        { kind := .compensationStarted, payload := reason }
      if txOk ∧ appended.2.isOk then
        some (s.resume k d appended.1 (.preflight (startRollback defn events false)))
      else some (s.resume k d s.journal (.returned none))
    | _ => none
  | .preflight leaseDuration =>
    match d.pc with
    | .preflight r =>
      let beat := s.journal.heartbeat s.now k.1 k.2 leaseDuration
      match beat.2 with
      | .ok false => some (s.resume k d beat.1 (.returned none))
      | _ => some (s.resume k d beat.1
          (.walk { r with undisturbed := r.undisturbed && leaseValid s.journal s.now k }))
    | _ => none
  | .compensate failure =>
    match d.pc with
    | .walk r =>
      match r.remaining with
      | [] => none
      | cs :: rest =>
        match r.defn.stepByName cs.name with
        | none => some (s.resume k d s.journal (.walk { r with remaining := rest }))
        | some step =>
          if step.hasCompensate then
            some ({ s with
              compensated := if failure.isNone then (k.1, step.name) :: s.compensated
                else s.compensated }.resume k d s.journal
              (.record { r with remaining := rest } step.name failure))
          else some (s.resume k d s.journal (.walk { r with remaining := rest }))
    | _ => none
  | .record txOk =>
    match d.pc with
    | .record r step failure =>
      let appended := s.journal.append s.now k.1 k.2 (compensationEvent step failure)
      let recorded := txOk && appended.2.isOk
      some (s.resume k d (if recorded then appended.1 else s.journal)
        (.walk { r.outcome step failure with undisturbed := r.undisturbed && recorded }))
    | _ => none
  | .finishWalk =>
    match d.pc with
    | .walk r =>
      if r.remaining.isEmpty then
        some (s.resume k d s.journal (.markTerminal r.finalStatus (some r)))
      else none
    | _ => none
  | .cancelWalk =>
    match d.pc with
    | .walk _ => some (s.resume k d s.journal (.returned none))
    | _ => none
  | .markTerminal =>
    match d.pc with
    | .markTerminal final r =>
      some (s.resume k d (s.journal.markTerminal s.now k.1 k.2 final).1 (.returned (r.map fun r ↦
        { r with undisturbed := r.undisturbed && leaseValid s.journal s.now k })))
    | _ => none
  | .heartbeat leaseDuration =>
    some { s with journal := (s.journal.heartbeat s.now k.1 k.2 leaseDuration).1 }
  | .crash => some { s with drives := s.drives.erase k }

/-- `tickOnce`: claims a batch under a lease id never used before and starts a drive for each
claimed instance. -/
def tick (leaseID : SafeID) (batchSize : ℤ) (leaseDuration : Duration) : Option Coordinators :=
  if leaseID = "" ∨ leaseID ∈ s.leases then none
  else
    let claim := s.journal.claimPending s.now (.ok leaseID) batchSize leaseDuration
    match claim.2 with
    | .error _ => some s
    | .ok (claimed, _) => some { s with
        journal := claim.1
        leases := leaseID :: s.leases
        drives := claimed.foldl
          (fun drives ci ↦ drives.insert (ci.inst.id, leaseID) ⟨ci, .lookup⟩) s.drives }

def step : Action → Option Coordinators
  | .advanceClock now => if now < s.now then none else some { s with now := now }
  | .enqueue inst => some { s with journal := (s.journal.enqueue inst).1 }
  | .tick leaseID batchSize leaseDuration => s.tick leaseID batchSize leaseDuration
  | .drive k a => (s.drives.lookup k).bind fun d ↦ s.driveStep resolver k d a

end Coordinators

end GoCell.Saga
