import GoCell.Consumer.ExponentialDelay
import GoCell.Saga.Definition

namespace GoCell.Saga

open Consumer Foundation Kernel

def defaultMaxAttempts : ℤ := 1

def defaultBaseInterval : ℤ := 100 * 1000000

def defaultMaxInterval : ℤ := 30 * 1000000000

structure ResolvedPolicy where
  maxAttempts : ℤ
  base : Duration
  max : Duration
  deriving DecidableEq

/-- Each field on its own: the step's value, else the definition's, else the default; zero is not
set. -/
def inherit (step definition fallback : ℤ) : ℤ :=
  if step ≠ 0 then step else if definition ≠ 0 then definition else fallback

def resolvePolicy (step definition : RetryPolicy) : ResolvedPolicy where
  maxAttempts := inherit step.maxAttempts definition.maxAttempts defaultMaxAttempts
  base := inherit step.baseInterval definition.baseInterval defaultBaseInterval
  max := inherit step.maxInterval definition.maxInterval defaultMaxInterval

def jitterDivisor : ℤ := 5

namespace ResolvedPolicy

/-- `attempt` is the number of attempts already made. -/
def shouldRetry (p : ResolvedPolicy) (attempt : ℤ) : Bool := attempt < p.maxAttempts

/-- The delay before the retry with the given number; `int64N n` is drawn from `[0, n)`. -/
def backoff (p : ResolvedPolicy) (attempt : ℤ) (int64N : ℤ → ℤ) : Duration :=
  let d := exponentialDelay p.base p.max attempt
  if d ≤ 0 then 0
  else wrapInt64 (d - d / jitterDivisor + int64N (d / jitterDivisor + 1))

end ResolvedPolicy

theorem RetryPolicy.validate_ok {p : RetryPolicy} : p.validate = .ok () ↔
    0 ≤ p.maxAttempts ∧ 0 ≤ p.baseInterval ∧ 0 ≤ p.maxInterval ∧
      (0 < p.baseInterval → 0 < p.maxInterval → p.baseInterval ≤ p.maxInterval) := by
  simp only [RetryPolicy.validate, bind_ok, require_ok, exists_const, decide_eq_true_eq,
    Bool.not_eq_true', Bool.and_eq_false_iff, decide_eq_false_iff_not, not_lt]
  refine and_congr_right fun _ ↦ and_congr_right fun _ ↦ and_congr_right fun _ ↦ ?_
  constructor
  · rintro ((hbase | hmax) | horder) hpos hpos'
    · exact absurd hpos (not_lt.2 hbase)
    · exact absurd hpos' (not_lt.2 hmax)
    · exact horder
  · intro horder
    rcases le_or_gt p.baseInterval 0 with hbase | hpos
    · exact .inl (.inl hbase)
    · rcases le_or_gt p.maxInterval 0 with hmax | hpos'
      · exact .inl (.inr hmax)
      · exact .inr (horder hpos hpos')

def RetryPolicy.InRange (p : RetryPolicy) : Prop :=
  InInt64 p.baseInterval ∧ InInt64 p.maxInterval

instance (p : RetryPolicy) : Decidable p.InRange := inferInstanceAs (Decidable (_ ∧ _))

section

variable {base base' max max' fallback : ℤ}

theorem inherit_pos (hbase : 0 ≤ base) (hbase' : 0 ≤ base') (h : 0 < fallback) :
    0 < inherit base base' fallback := by
  unfold inherit
  split
  · omega
  · split <;> omega

theorem inInt64_inherit (hbase : InInt64 base) (hbase' : InInt64 base') (h : InInt64 fallback) :
    InInt64 (inherit base base' fallback) := by
  unfold inherit
  split
  · exact hbase
  · split
    · exact hbase'
    · exact h

/-- Where the base comes from another policy than the maximum, it must not be above the maximum. -/
abbrev Compatible (base max base' max' : ℤ) : Prop :=
  (base ≠ 0 → max = 0 → base ≤ if max' = 0 then defaultMaxInterval else max') ∧
  (base = 0 → max ≠ 0 → (if base' = 0 then defaultBaseInterval else base') ≤ max) ∧
  (base = 0 → max = 0 → base' ≠ 0 → max' = 0 → base' ≤ defaultMaxInterval) ∧
  (base = 0 → max = 0 → base' = 0 → max' ≠ 0 → defaultBaseInterval ≤ max')

theorem inherit_le_iff (hbase : 0 ≤ base) (hmax : 0 ≤ max)
    (horder : 0 < base → 0 < max → base ≤ max)
    (hbase' : 0 ≤ base') (hmax' : 0 ≤ max') (horder' : 0 < base' → 0 < max' → base' ≤ max') :
    inherit base base' defaultBaseInterval ≤ inherit max max' defaultMaxInterval ↔
      Compatible base max base' max' := by
  unfold inherit Compatible
  have hdefault : defaultBaseInterval ≤ defaultMaxInterval := by decide
  by_cases hb : base = 0 <;> by_cases hm : max = 0 <;> by_cases hb' : base' = 0 <;>
    by_cases hm' : max' = 0 <;> simp only [hb, hm, hb', hm', ne_eq, not_true_eq_false,
      not_false_eq_true, if_true, if_false, true_implies, false_implies, and_true, true_and,
      iff_true] <;>
    omega

end

theorem ResolvedPolicy.backoff_mem {p : ResolvedPolicy} (hbase : 0 < p.base) (hmax : 0 < p.max)
    (hint : InInt64 p.max) {int64N : ℤ → ℤ} (hdrawn : ∀ k, 0 < k → 0 ≤ int64N k ∧ int64N k < k)
    (n : ℕ) : ∀ d, d = cappedDoubling p.base p.max n →
      d - d / 5 ≤ p.backoff n int64N ∧ p.backoff n int64N ≤ d := by
  rintro d rfl
  have hpos : 0 < cappedDoubling p.base p.max n := cappedDoubling_pos hbase hmax
  have hle : cappedDoubling p.base p.max n ≤ p.max := cappedDoubling_le
  simp only [backoff, exponentialDelay_eq hbase hint, if_neg (not_le.2 hpos), jitterDivisor]
  generalize cappedDoubling p.base p.max n = d at *
  obtain ⟨hlow, hhigh⟩ := hdrawn (d / 5 + 1) (by omega)
  have hbound : d < 2 ^ 63 := lt_of_le_of_lt hle hint.2
  rw [wrapInt64_of_inInt64 ⟨by omega, by omega⟩]
  have hmem : d - d / 5 ≤ d - d / 5 + int64N (d / 5 + 1) ∧
      d - d / 5 + int64N (d / 5 + 1) ≤ d := by omega
  exact hmem

theorem resolved_policy_iff (step definition : RetryPolicy) (hstep : step.validate = .ok ())
    (hdefinition : definition.validate = .ok ()) (hrange : step.InRange ∧ definition.InRange) :
    ∀ p, p = resolvePolicy step definition → ((1 ≤ p.maxAttempts ∧ 0 < p.base ∧ p.base ≤ p.max ∧
        ∀ (n : ℕ) (int64N : ℤ → ℤ), (∀ k, 0 < k → 0 ≤ int64N k ∧ int64N k < k) →
          ∀ d, d = cappedDoubling p.base p.max n →
            d - d / 5 ≤ p.backoff n int64N ∧ p.backoff n int64N ≤ d) ↔
      Compatible step.baseInterval step.maxInterval definition.baseInterval
        definition.maxInterval) := by
  rintro p rfl
  obtain ⟨hattempts, hbase, hmax, horder⟩ := RetryPolicy.validate_ok.1 hstep
  obtain ⟨hattempts', hbase', hmax', horder'⟩ := RetryPolicy.validate_ok.1 hdefinition
  have hpos : 0 < (resolvePolicy step definition).base := inherit_pos hbase hbase' (by decide)
  have hposMax : 0 < (resolvePolicy step definition).max := inherit_pos hmax hmax' (by decide)
  have hint : InInt64 (resolvePolicy step definition).max :=
    inInt64_inherit hrange.1.2 hrange.2.2 (by decide)
  have horder : (resolvePolicy step definition).base ≤ (resolvePolicy step definition).max ↔ _ :=
    inherit_le_iff hbase hmax horder hbase' hmax' horder'
  rw [← horder]
  constructor
  · exact fun h ↦ h.2.2.1
  · intro hle
    exact ⟨inherit_pos hattempts hattempts' (by decide), hpos, hle,
      fun n int64N hdrawn ↦ ResolvedPolicy.backoff_mem hpos hposMax hint hdrawn n⟩

theorem resolved_policy_inherited :
    (resolvePolicy { maxAttempts := 3 } { baseInterval := 1000000000 }).base ≤
        (resolvePolicy { maxAttempts := 3 } { baseInterval := 1000000000 }).max ∧
      3200000000 ≤ (resolvePolicy { maxAttempts := 3 } { baseInterval := 1000000000 }).backoff 2
        fun k ↦ k - 1 := by
  obtain ⟨-, -, hle, hbackoff⟩ := (resolved_policy_iff { maxAttempts := 3 }
    { baseInterval := 1000000000 } (by decide) (by decide) (by decide) _ rfl).2
    ⟨by decide, by decide, by decide, by decide⟩
  exact ⟨hle, (hbackoff 2 (fun k ↦ k - 1) (fun k hk ↦ by omega) 4000000000 (by decide)).1⟩

/-- A step that only sets a base of one minute has the default maximum of thirty seconds. -/
theorem resolved_base_above_max :
    ¬∀ step definition : RetryPolicy, step.validate = .ok () → definition.validate = .ok () →
      (resolvePolicy step definition).base ≤ (resolvePolicy step definition).max := by
  intro h
  exact absurd (h { baseInterval := 60000000000 } {} (by decide) (by decide)) (by decide)

end GoCell.Saga
