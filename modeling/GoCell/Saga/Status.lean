import GoCell.Foundation.Checks
import GoCell.Kernel.Values

namespace GoCell.Saga

open Foundation Kernel

/-- A saga lifecycle status; `unknown` is any byte outside the declared range. -/
inductive Status
  | pending
  | running
  | compensating
  | succeeded
  | failed
  | compensated
  | expired
  | compensationFailed
  | unknown
  deriving DecidableEq

def Status.valid (s : Status) : Bool := s ≠ .unknown

def Status.isTerminal : Status → Bool
  | .succeeded | .failed | .compensated | .expired | .compensationFailed => true
  | _ => false

def statusTransitions : Status → List Status
  | .pending => [.running, .failed, .expired]
  | .running => [.succeeded, .compensating, .failed, .expired]
  | .compensating => [.compensated, .compensationFailed, .expired]
  | _ => []

def Status.canTransitionTo (s target : Status) : Bool := target ∈ statusTransitions s

def transition (src dst : Status) : Except Err Unit :=
  require (src.canTransitionTo dst) (validationFailed "saga: invalid status transition")

theorem terminal_has_no_transition {s : Status} (h : s.isTerminal = true) (t : Status) :
    s.canTransitionTo t = false := by
  cases s <;> simp_all [Status.isTerminal, Status.canTransitionTo, statusTransitions]

structure Instance where
  id : SafeID
  definitionID : SafeID
  status : Status
  currentStep : ℤ
  startedAt : Time
  updatedAt : Option Time
  completedAt : Option Time
  deriving DecidableEq

def newInstance (id definitionID : SafeID) (now : Time) : Instance where
  id := id
  definitionID := definitionID
  status := .pending
  currentStep := 0
  startedAt := now
  updatedAt := none
  completedAt := none

variable (i : Instance)

def Instance.validateIdentity : Except Err Unit := do
  require (i.id ≠ "") (validationFailed "saga: instance missing ID")
  require (safeIDValid i.id) (validationFailed "saga: instance has invalid ID")
  require (i.definitionID ≠ "") (validationFailed "saga: instance missing DefinitionID")
  require (safeIDValid i.definitionID)
    (validationFailed "saga: instance has invalid DefinitionID")

def Instance.validateInitialState : Except Err Unit := do
  require i.status.valid (validationFailed "saga: instance has invalid Status")
  require (i.status = .pending) (validationFailed "saga: new instance must have Pending status")
  require (i.currentStep = 0) (validationFailed "saga: new instance must have CurrentStep=0")
  require (i.startedAt ≠ 0) (validationFailed "saga: instance missing StartedAt")
  require (i.updatedAt = none && i.completedAt = none)
    (validationFailed "saga: new instance must not have UpdatedAt/CompletedAt timestamps")

def Instance.validateNew : Except Err Unit := do
  i.validateIdentity
  i.validateInitialState

theorem validateNew_fresh {i : Instance} {u : Unit} (h : i.validateNew = .ok u) :
    i.id ≠ "" ∧ i.status = .pending ∧ i.currentStep = 0 ∧ i.updatedAt = none ∧
      i.completedAt = none := by
  simp only [Instance.validateNew, Instance.validateIdentity, Instance.validateInitialState,
    bind_ok, require_ok, Bool.and_eq_true, decide_eq_true_eq] at h
  obtain ⟨_, ⟨_, hid, -⟩, _, -, _, hstatus, _, hstep, _, -, hupd, hcomp⟩ := h
  exact ⟨hid, hstatus, hstep, hupd, hcomp⟩

def guardMonotonic (now : Time) : Except Err Unit := do
  require (i.startedAt ≤ now)
    (validationFailed "saga: advance now precedes StartedAt (clock skew?)")
  require (i.updatedAt.all (· ≤ now))
    (validationFailed "saga: advance now precedes previous UpdatedAt (clock skew?)")

def advanceSaga (dst : Status) (now : Time) : Except Err Instance := do
  transition i.status dst
  guardMonotonic i now
  return { i with
    updatedAt := some now
    completedAt := if dst.isTerminal then some now else i.completedAt
    status := dst }

theorem advanceSaga_ok {i j : Instance} {dst : Status} {now : Time} :
    advanceSaga i dst now = .ok j ↔
      i.status.canTransitionTo dst = true ∧ i.startedAt ≤ now ∧ (∀ u ∈ i.updatedAt, u ≤ now) ∧
        j = { i with
          updatedAt := some now
          completedAt := if dst.isTerminal then some now else i.completedAt
          status := dst } := by
  simp only [advanceSaga, transition, guardMonotonic, bind_ok, require_ok, pure, Except.pure,
    Except.ok.injEq, decide_eq_true_eq, Option.all_eq_true]
  constructor
  · rintro ⟨_, ht, _, ⟨_, hs, hu⟩, rfl⟩
    exact ⟨ht, hs, hu, rfl⟩
  · rintro ⟨ht, hs, hu, rfl⟩
    exact ⟨(), ht, (), ⟨(), hs, hu⟩, rfl⟩

end GoCell.Saga
