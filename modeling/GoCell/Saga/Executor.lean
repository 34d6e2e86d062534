import GoCell.Saga.RetryPolicy

namespace GoCell.Saga.Executor

open Foundation Kernel List Option

inductive Outcome
  | succeeded
  | failed
  | expired
  | canceled
  | leaseLost
  deriving DecidableEq

/-- The cause of a cancelled run context, as `errors.Is` tells causes apart. -/
inductive Cause
  | leaseLost
  | deadlineExceeded
  | other
  deriving DecidableEq

inductive ExecutorError
  | leaseLost
  | stepTimeout
  | observed (err : Err)
  deriving DecidableEq

structure Result where
  outcome : Outcome
  newState : Option Bytes := none
  err : Option ExecutorError := none
  attempts : ℕ
  deriving DecidableEq

/-- What happens around one call. `recorded` is the cause of the run context whenever it is read,
four times for each attempt; `run`, `timedOut` and `sleep` are, for each attempt, the result of
`Run` (a panic is an error), whether the timer of the step has cancelled its context, and the error
of the wait after it. -/
structure Scenario where
  preflight : Except Err Bool
  run : ℕ → Except Err Bytes
  recorded : ℕ → Option Cause
  timedOut : ℕ → Bool
  sleep : ℕ → Option Err
  recorded_mono : ∀ k c, recorded k = some c → recorded (k + 1) = some c
  sleep_canceled : ∀ attempt err, sleep attempt = some err → recorded (4 * attempt + 3) ≠ none

/-- `cause` is what the run context holds when this is called. -/
def classifyCanceled (cause : Option Cause) (observedErr : Err) (attempt : ℕ) : Result :=
  match cause with
  | some .leaseLost => { outcome := .leaseLost, err := some .leaseLost, attempts := attempt }
  | some .deadlineExceeded =>
    { outcome := .expired, err := some (.observed observedErr), attempts := attempt }
  | _ => { outcome := .canceled, err := some (.observed observedErr), attempts := attempt }

def Cause.err : Cause → Err
  | .leaseLost => ⟨.internal, .internal, "saga executor: lease lost", []⟩
  | .deadlineExceeded => ⟨.internal, .internal, "context deadline exceeded", []⟩
  | .other => ⟨.internal, .internal, "context canceled", []⟩

/-- `none` asks for a retry. -/
def runAttempt (policy : ResolvedPolicy) (s : Scenario) (attempt : ℕ) : Option Result :=
  match s.recorded (4 * attempt) with
  | some cause => some (classifyCanceled (s.recorded (4 * attempt + 1)) cause.err attempt)
  | none =>
    if s.timedOut attempt then
      some { outcome := .expired, err := some .stepTimeout, attempts := attempt }
    else
      match s.run attempt with
      | .ok newState =>
        some { outcome := .succeeded, newState := some newState, attempts := attempt }
      | .error err =>
        if policy.shouldRetry attempt then none
        else some { outcome := .failed, err := some (.observed err), attempts := attempt }

/-- The loop over the attempts, with the results of `Run` so far; `none` is fuel that ran out. -/
def attempts (policy : ResolvedPolicy) (s : Scenario) :
    ℕ → ℕ → List (Except Err Bytes) → Option (Result × List (Except Err Bytes))
  | 0, _, _ => none
  | fuel + 1, attempt, runs =>
    match runAttempt policy s attempt with
    | some result => some (result, runs ++ [s.run attempt])
    | none =>
      match s.sleep attempt with
      | some err =>
        some (classifyCanceled (s.recorded (4 * attempt + 3)) err attempt, runs ++ [s.run attempt])
      | none => attempts policy s fuel (attempt + 1) (runs ++ [s.run attempt])

def executeInner (step definition : RetryPolicy) (s : Scenario) (fuel : ℕ) :
    Option (Result × List (Except Err Bytes)) :=
  match s.preflight with
  | .ok false => some ({ outcome := .leaseLost, err := some .leaseLost, attempts := 0 }, [])
  | _ => attempts (resolvePolicy step definition) s fuel 1 []

section

variable {policy : ResolvedPolicy} {s : Scenario}

structure Failed (s : Scenario) (attempt : ℕ) : Prop where
  run : ∃ err, s.run attempt = .error err
  live : s.recorded (4 * attempt) = none
  inTime : s.timedOut attempt = false

theorem runAttempt_none {attempt : ℕ} :
    runAttempt policy s attempt = none ↔ Failed s attempt ∧ (attempt : ℤ) < policy.maxAttempts := by
  unfold runAttempt
  constructor
  · intro h
    split at h
    · cases h
    · next hlive =>
      split at h
      · cases h
      · next htime =>
        split at h
        · cases h
        · next err hrun =>
          split at h
          · next hretry =>
            exact ⟨⟨⟨err, hrun⟩, hlive, Bool.not_eq_true _ ▸ htime⟩, of_decide_eq_true hretry⟩
          · cases h
  · rintro ⟨⟨⟨err, hrun⟩, hlive, htime⟩, hretry⟩
    simp [hlive, htime, hrun, ResolvedPolicy.shouldRetry, hretry]

inductive Ended (policy : ResolvedPolicy) (s : Scenario) (attempt : ℕ) : Result → Prop
  | canceled (cause : Cause) (err : Err) (after : s.recorded (4 * attempt) = some cause ∨
      Failed s attempt ∧ (attempt : ℤ) < policy.maxAttempts ∧ s.sleep attempt = some err ∧
        s.recorded (4 * attempt + 3) = some cause) :
      Ended policy s attempt (classifyCanceled (some cause) err attempt)
  | timedOut (hlive : s.recorded (4 * attempt) = none) (h : s.timedOut attempt = true) :
      Ended policy s attempt { outcome := .expired, err := some .stepTimeout, attempts := attempt }
  | succeeded (newState : Bytes) (hrun : s.run attempt = .ok newState)
      (hlive : s.recorded (4 * attempt) = none) (htime : s.timedOut attempt = false) :
      Ended policy s attempt
        { outcome := .succeeded, newState := some newState, attempts := attempt }
  | failed (err : Err) (hrun : s.run attempt = .error err) (h : Failed s attempt)
      (hlast : policy.maxAttempts ≤ attempt) :
      Ended policy s attempt
        { outcome := .failed, err := some (.observed err), attempts := attempt }

/-- The cause of the run context when the call is classified after the attempt: at the first check,
or after a wait that failed. -/
def CauseAtClassification (policy : ResolvedPolicy) (s : Scenario) (attempt : ℕ) (cause : Cause) :
    Prop :=
  s.recorded (4 * attempt) = some cause ∨
    Failed s attempt ∧ (attempt : ℤ) < policy.maxAttempts ∧ s.sleep attempt ≠ none ∧
      s.recorded (4 * attempt + 3) = some cause

theorem Ended.leaseLost {attempt : ℕ} {result : Result} (h : Ended policy s attempt result)
    (hcause : CauseAtClassification policy s attempt .leaseLost) : result.outcome = .leaseLost := by
  rcases hcause with hfirst | ⟨hfailed, hlt, hsleep, hlater⟩
  · cases h with
    | canceled _ _ after =>
      rcases after with hcause | ⟨hfailed, -⟩
      · cases hfirst.symm.trans hcause
        rfl
      · cases hfirst.symm.trans hfailed.live
    | timedOut hlive | succeeded _ _ hlive => cases hfirst.symm.trans hlive
    | failed _ _ hfailed => cases hfirst.symm.trans hfailed.live
  · cases h with
    | canceled _ _ after =>
      rcases after with hcause | ⟨-, -, -, hcause⟩
      · cases hcause.symm.trans hfailed.live
      · cases hlater.symm.trans hcause
        rfl
    | timedOut _ htime => cases htime.symm.trans hfailed.inTime
    | succeeded _ hrun =>
      obtain ⟨err, herr⟩ := hfailed.run
      cases hrun.symm.trans herr
    | failed _ _ _ hlast => exact absurd hlt (not_lt.2 hlast)

theorem ended_of_runAttempt {attempt : ℕ} {result : Result}
    (h : runAttempt policy s attempt = some result) : Ended policy s attempt result := by
  unfold runAttempt at h
  split at h
  · next cause hcause =>
    rw [s.recorded_mono _ _ hcause] at h
    cases h
    exact .canceled cause cause.err (.inl hcause)
  · next hlive =>
    split at h
    · next htime =>
      cases h
      exact .timedOut hlive htime
    · next htime =>
      rw [Bool.not_eq_true] at htime
      split at h
      · next newState hrun =>
        cases h
        exact .succeeded newState hrun hlive htime
      · next err hrun =>
        split at h
        · cases h
        · next hretry =>
          cases h
          refine .failed err hrun ⟨⟨err, hrun⟩, hlive, htime⟩ ?_
          exact not_lt.1 fun hlt ↦ hretry (decide_eq_true hlt)

/-- The loop ends at an attempt that is reached after failed ones only; `left` bounds the
retries. -/
theorem attempts_spec (left : ℕ) {attempt : ℕ} (runs : List (Except Err Bytes))
    (hleft : policy.maxAttempts ≤ attempt + left) :
    ∃ n result, (∀ fuel, left < fuel → attempts policy s fuel attempt runs =
        some (result, runs ++ (range' attempt (n + 1)).map s.run)) ∧
      Ended policy s (attempt + n) result ∧
      ∀ k, k < n → Failed s (attempt + k) ∧ (attempt + k : ℤ) < policy.maxAttempts := by
  induction left generalizing attempt runs with
  | zero =>
    obtain ⟨result, hattempt⟩ : ∃ result, runAttempt policy s attempt = some result := by
      rw [← isSome_iff_exists, isSome_iff_ne_none, ne_eq, runAttempt_none]
      omega
    refine ⟨0, result, fun fuel hfuel ↦ ?_, ended_of_runAttempt hattempt, fun k hk ↦ by omega⟩
    obtain ⟨fuel, rfl⟩ := Nat.exists_eq_succ_of_ne_zero (Nat.ne_of_gt hfuel)
    simp [attempts, hattempt]
  | succ left ih =>
    cases hattempt : runAttempt policy s attempt with
    | some result =>
      refine ⟨0, result, fun fuel hfuel ↦ ?_, ended_of_runAttempt hattempt, fun k hk ↦ by omega⟩
      obtain ⟨fuel, rfl⟩ := Nat.exists_eq_succ_of_ne_zero (Nat.ne_zero_of_lt hfuel)
      simp [attempts, hattempt]
    | none =>
      obtain ⟨hfailed, hlt⟩ := runAttempt_none.1 hattempt
      cases hsleep : s.sleep attempt with
      | some err =>
        obtain ⟨cause, hcause⟩ := ne_none_iff_exists'.1 (s.sleep_canceled attempt err hsleep)
        refine ⟨0, classifyCanceled (some cause) err attempt, fun fuel hfuel ↦ ?_,
          .canceled cause err (.inr ⟨hfailed, hlt, hsleep, hcause⟩), fun k hk ↦ by omega⟩
        obtain ⟨fuel, rfl⟩ := Nat.exists_eq_succ_of_ne_zero (Nat.ne_zero_of_lt hfuel)
        simp [attempts, hattempt, hsleep, hcause]
      | none =>
        obtain ⟨n, result, heq, hended, hbefore⟩ := ih (runs ++ [s.run attempt])
          (show policy.maxAttempts ≤ (attempt + 1 : ℕ) + left by push_cast at hleft ⊢; omega)
        refine ⟨n + 1, result, fun fuel hfuel ↦ ?_, ?_, fun k hk ↦ ?_⟩
        · obtain ⟨fuel, rfl⟩ := Nat.exists_eq_succ_of_ne_zero (Nat.ne_zero_of_lt hfuel)
          simp only [attempts, hattempt, hsleep]
          rw [heq fuel (by omega), append_assoc]
          rfl
        · rwa [Nat.add_assoc, Nat.add_comm 1 n] at hended
        · cases k with
          | zero => exact ⟨hfailed, by simpa using hlt⟩
          | succ k =>
            have hk' := hbefore k (by omega)
            rw [Nat.add_assoc, Nat.add_comm 1 k] at hk'
            push_cast at hk' ⊢
            exact ⟨hk'.1, by omega⟩

end

theorem executeInner_reports (step definition : RetryPolicy) (hstep : step.validate = .ok ())
    (hdefinition : definition.validate = .ok ()) (s : Scenario) :
    ∀ policy, policy = resolvePolicy step definition → ∃ result runs,
      (∀ fuel : ℕ, policy.maxAttempts ≤ fuel →
        executeInner step definition s fuel = some (result, runs)) ∧
      runs = (List.range' 1 runs.length).map s.run ∧ (runs.length : ℤ) ≤ policy.maxAttempts ∧
      result.attempts = runs.length ∧
      (result.outcome = .succeeded → ∃ newState, runs.getLast? = some (.ok newState) ∧
        result.newState = some newState ∧ s.recorded (4 * runs.length) = none ∧
        s.timedOut runs.length = false) ∧
      (s.preflight ≠ .ok false → ∀ cause, CauseAtClassification policy s runs.length cause →
        cause = .leaseLost → result.outcome = .leaseLost) ∧
      (result.outcome = .failed → (runs.length : ℤ) = policy.maxAttempts ∧
        ∀ run ∈ runs, ∃ err, run = .error err) := by
  rintro policy rfl
  have hpos : 0 < (resolvePolicy step definition).maxAttempts :=
    inherit_pos (RetryPolicy.validate_ok.1 hstep).1 (RetryPolicy.validate_ok.1 hdefinition).1
      (by decide)
  by_cases hpreflight : s.preflight = .ok false
  · refine ⟨⟨.leaseLost, none, some .leaseLost, 0⟩, [], fun fuel _ ↦ ?_, rfl, hpos.le, rfl,
      fun h ↦ ?_, fun h ↦ absurd hpreflight h, fun h ↦ ?_⟩
    · simp only [executeInner, hpreflight]
    · cases h
    · cases h
  have hinner : ∀ fuel, executeInner step definition s fuel =
      attempts (resolvePolicy step definition) s fuel 1 [] := by
    intro fuel
    unfold executeInner
    split
    · next hstale => exact absurd hstale hpreflight
    · rfl
  obtain ⟨n, result, heq, hended, hbefore⟩ := @attempts_spec (resolvePolicy step definition) s
    ((resolvePolicy step definition).maxAttempts.toNat - 1) 1 [] (by omega)
  have hlength : ((range' 1 (n + 1)).map s.run).length = 1 + n := by
    rw [length_map, length_range', Nat.add_comm]
  have hlast : ((range' 1 (n + 1)).map s.run).getLast? = some (s.run (1 + n)) := by
    rw [range'_concat, map_append, map_singleton, Nat.one_mul, getLast?_concat]
  have hbound : ((1 + n : ℕ) : ℤ) ≤ (resolvePolicy step definition).maxAttempts := by
    cases n with
    | zero => exact hpos
    | succ n =>
      have hlt := (hbefore n (Nat.lt_succ_self n)).2
      push_cast at hlt ⊢
      omega
  refine ⟨result, (range' 1 (n + 1)).map s.run, fun fuel hfuel ↦ ?_, ?_, ?_, ?_, ?_, ?_, ?_⟩
  · rw [hinner, heq fuel (by omega), nil_append]
  · rw [hlength, Nat.add_comm]
  · rw [hlength]
    exact hbound
  all_goals rw [hlength]
  · cases hended with
    | canceled cause => cases cause <;> rfl
    | _ => rfl
  · intro h
    cases hended with
    | canceled cause => cases cause <;> cases h
    | succeeded newState hrun hlive htime =>
      exact ⟨newState, hlast.trans (hrun ▸ rfl), rfl, hlive, htime⟩
    | timedOut | failed => cases h
  · rintro - cause hcause rfl
    exact hended.leaseLost hcause
  · intro h
    cases hended with
    | canceled cause => cases cause <;> cases h
    | succeeded | timedOut => cases h
    | failed err hrun hfailed hmax =>
      refine ⟨le_antisymm hbound hmax, fun run hmem ↦ ?_⟩
      obtain ⟨k, hk, rfl⟩ := mem_map.1 hmem
      rw [mem_range'_1] at hk
      rcases Nat.lt_or_ge k (1 + n) with hlt | hge
      · have := (hbefore (k - 1) (by omega)).1.run
        rwa [show 1 + (k - 1) = k by omega] at this
      · obtain rfl : k = 1 + n := by omega
        exact hfailed.run

def lostDuringRetry : Scenario where
  preflight := .ok true
  run := fun attempt ↦ if attempt = 1 then .error (validationFailed "busy") else .ok []
  recorded := fun k ↦ if 6 ≤ k then some .leaseLost else none
  timedOut := fun _ ↦ false
  sleep := fun _ ↦ none
  recorded_mono := by
    intro k c h
    split at h
    · next hk => rw [if_pos (by omega), h]
    · cases h
  sleep_canceled := fun _ _ h ↦ by cases h

theorem executeInner_reports_lost :
    ∃ result runs, (∀ fuel : ℕ, (3 : ℤ) ≤ fuel →
        executeInner { maxAttempts := 3 } {} lostDuringRetry fuel = some (result, runs)) ∧
      (runs.length : ℤ) ≤ 3 ∧ result.attempts = runs.length := by
  obtain ⟨result, runs, heq, -, hbound, hattempts, -⟩ :=
    executeInner_reports { maxAttempts := 3 } {} (by decide) (by decide) lostDuringRetry _ rfl
  exact ⟨result, runs, heq, hbound, hattempts⟩

end GoCell.Saga.Executor
