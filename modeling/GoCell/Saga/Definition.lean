import GoCell.Foundation.Tables
import GoCell.Saga.Status

namespace GoCell.Saga

open Foundation Kernel

structure RetryPolicy where
  maxAttempts : ℤ := 0
  baseInterval : Duration := 0
  maxInterval : Duration := 0
  deriving DecidableEq

def RetryPolicy.validate (p : RetryPolicy) : Except Err Unit := do
  require (0 ≤ p.maxAttempts) (validationFailed "saga retry policy: MaxAttempts must be >= 0"
    [("maxAttempts", .int p.maxAttempts)])
  require (0 ≤ p.baseInterval) (validationFailed "saga retry policy: BaseInterval must be >= 0"
    [("baseInterval", .duration p.baseInterval)])
  require (0 ≤ p.maxInterval) (validationFailed "saga retry policy: MaxInterval must be >= 0"
    [("maxInterval", .duration p.maxInterval)])
  require (!(0 < p.baseInterval && 0 < p.maxInterval && p.maxInterval < p.baseInterval))
    (validationFailed "saga retry policy: MaxInterval must be >= BaseInterval"
      [("baseInterval", .duration p.baseInterval), ("maxInterval", .duration p.maxInterval)])

/-- A saga step. What `Run` and `Compensate` compute is decided by a run's schedule; the step only
records whether each of the two functions is set. -/
structure Step where
  name : SafeID
  hasRun : Bool := true
  hasCompensate : Bool := false
  timeout : Duration := 0
  retryPolicy : RetryPolicy := {}
  deriving DecidableEq

structure Definition where
  id : SafeID
  steps : List Step
  timeout : Duration := 0
  retryPolicy : RetryPolicy := {}
  deriving DecidableEq

namespace Definition

def validateStep (d : Definition) (i : ℕ) (step : Step) : Except Err Unit := do
  let position := [("definitionId", .string d.id), ("stepIndex", .int i)]
  let stepDetails := position ++ [("stepName", .string step.name)]
  require (step.name ≠ "") (validationFailed "saga definition: step missing Name" position)
  require (safeIDValid step.name)
    (validationFailed "saga definition: invalid step Name" stepDetails)
  require step.hasRun (validationFailed "saga definition: step Run must not be nil" stepDetails)
  require (0 ≤ step.timeout)
    (validationFailed "saga definition: step Timeout must be >= 0" stepDetails)
  require step.retryPolicy.validate.isOk
    (validationFailed "saga definition: invalid step RetryPolicy" stepDetails)

def duplicateStepName (d : Definition) (name : SafeID) (firstIndex i : ℕ) : Err :=
  ⟨.conflict, .conflict, "saga definition: duplicate step Name",
    [("definitionId", .string d.id), ("stepName", .string name), ("firstIndex", .int firstIndex),
      ("duplicateIndex", .int i)]⟩

/-- The loop of `Validate` over the steps from index `i` on; `seen` holds the names before `i`. -/
def validateSteps (d : Definition) : List Step → ℕ → Table SafeID ℕ → Except Err Unit
  | [], _, _ => .ok ()
  | step :: steps, i, seen => do
    d.validateStep i step
    match seen.lookup step.name with
    | some prev => .error (d.duplicateStepName step.name prev i)
    | none => d.validateSteps steps (i + 1) (seen.insert step.name i)

def validate (d : Definition) : Except Err Unit := do
  require (d.id ≠ "") (validationFailed "saga definition: missing ID")
  require (safeIDValid d.id)
    (validationFailed "saga definition: invalid ID" [("id", .string d.id)])
  require (d.steps ≠ []) (validationFailed "saga definition: must have at least one step"
    [("definitionId", .string d.id)])
  require (0 ≤ d.timeout) (validationFailed "saga definition: Timeout must be >= 0"
    [("definitionId", .string d.id)])
  require d.retryPolicy.validate.isOk (validationFailed "saga definition: invalid RetryPolicy"
    [("definitionId", .string d.id)])
  d.validateSteps d.steps 0 ∅

theorem validateStep_name {d : Definition} {i : ℕ} {step : Step} {u : Unit}
    (h : d.validateStep i step = .ok u) : step.name ≠ "" ∧ safeIDValid step.name = true := by
  simp only [validateStep, bind_ok, require_ok, decide_eq_true_eq] at h
  obtain ⟨_, hname, _, hvalid, -⟩ := h
  exact ⟨hname, hvalid⟩

theorem validateSteps_names {d : Definition} {steps : List Step} {i : ℕ} {seen : Table SafeID ℕ}
    {u : Unit} (h : d.validateSteps steps i seen = .ok u) :
    (∀ s ∈ steps, s.name ≠ "" ∧ safeIDValid s.name = true) ∧ (steps.map Step.name).Nodup ∧
      ∀ s ∈ steps, seen.lookup s.name = none := by
  induction steps generalizing i seen with
  | nil => simp
  | cons step steps ih =>
    obtain ⟨_, hstep, h⟩ := bind_ok.1 h
    cases hseen : seen.lookup step.name with
    | some prev => simp [hseen] at h
    | none =>
      simp only [hseen] at h
      obtain ⟨hvalid, hnodup, hfresh⟩ := ih h
      have hne : ∀ s ∈ steps, s.name ≠ step.name := by
        intro s hs heq
        have := hfresh s hs
        rw [lookup_insert_if, if_pos heq] at this
        cases this
      refine ⟨?_, ?_, ?_⟩
      · exact List.forall_mem_cons.2 ⟨validateStep_name hstep, hvalid⟩
      · rw [List.map_cons, List.nodup_cons]
        refine ⟨fun hmem ↦ ?_, hnodup⟩
        obtain ⟨s, hs, heq⟩ := List.mem_map.1 hmem
        exact hne s hs heq
      · refine List.forall_mem_cons.2 ⟨hseen, fun s hs ↦ ?_⟩
        have := hfresh s hs
        rwa [lookup_insert_if, if_neg (hne s hs)] at this

theorem validate_ok {d : Definition} {u : Unit} (h : d.validate = .ok u) :
    d.steps ≠ [] ∧ (d.steps.map Step.name).Nodup ∧
      ∀ s ∈ d.steps, s.name ≠ "" ∧ safeIDValid s.name = true := by
  simp only [validate, bind_ok, require_ok, decide_eq_true_eq] at h
  obtain ⟨_, -, _, -, _, hsteps, _, -, _, -, hnames⟩ := h
  obtain ⟨hvalid, hnodup, -⟩ := validateSteps_names hnames
  exact ⟨hsteps, hnodup, hvalid⟩

end Definition

structure Resolver where
  lookup : SafeID → Option Definition
  validated : ∀ id d, lookup id = some d → d.validate = .ok ()

def duplicateDefinitionID (id : SafeID) : Err :=
  ⟨.conflict, .conflict, "saga registry: duplicate definition ID", [("definitionId", .string id)]⟩

/-- `NewInMemoryRegistry`, from a registry that already holds some of the definitions. -/
def registerAll : List Definition → Table SafeID Definition → Except Err (Table SafeID Definition)
  | [], registry => .ok registry
  | d :: defs, registry => do
    d.validate
    require (registry.lookup d.id).isNone (duplicateDefinitionID d.id)
    registerAll defs (registry.insert d.id d)

def newInMemoryRegistry (defs : List Definition) : Except Err (Table SafeID Definition) :=
  registerAll defs ∅

theorem registerAll_validated {defs : List Definition} {registry final : Table SafeID Definition}
    (hreg : ∀ id d, registry.lookup id = some d → d.validate = .ok ())
    (h : registerAll defs registry = .ok final) :
    ∀ id d, final.lookup id = some d → d.validate = .ok () := by
  induction defs generalizing registry with
  | nil =>
    cases h
    exact hreg
  | cons e defs ih =>
    obtain ⟨_, hvalid, h⟩ := bind_ok.1 h
    obtain ⟨_, -, h⟩ := bind_ok.1 h
    refine ih (fun id d hd ↦ ?_) h
    rw [lookup_insert_if] at hd
    split_ifs at hd with hid
    · cases hd
      exact hvalid
    · exact hreg id d hd

def inMemoryResolver {defs : List Definition} {registry : Table SafeID Definition}
    (h : newInMemoryRegistry defs = .ok registry) : Resolver where
  lookup id := registry.lookup id
  validated := registerAll_validated (by simp) h

end GoCell.Saga
