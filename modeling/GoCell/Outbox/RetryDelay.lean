import GoCell.Foundation.CappedDoubling
import GoCell.Kernel.Int64
import GoCell.Outbox.Relay

namespace GoCell.Outbox

open Foundation Kernel

/-- The shift by at most 30 places is as good as the doubling: the product fits into 64 bits and is
not cut short below the ceiling, or what 64 bits keep of it reaches the ceiling. -/
def ShiftExact (base ceiling : ℤ) (n : ℕ) : Prop :=
  (base * 2 ^ min n 30 < 2 ^ 63 ∧ (n ≤ 30 ∨ ceiling ≤ base * 2 ^ 30)) ∨
    (2 ^ 63 ≤ base * 2 ^ min n 30 ∧ ceiling ≤ base * 2 ^ min n 30 % 2 ^ 64 ∧
      base * 2 ^ min n 30 % 2 ^ 64 < 2 ^ 63)

instance (base ceiling : ℤ) (n : ℕ) : Decidable (ShiftExact base ceiling n) :=
  inferInstanceAs (Decidable (_ ∨ _))

section

variable {base ceiling d delay : ℤ} {n : ℕ}

theorem cappedDelay_spec (h : delay = cappedDelay d ceiling) :
    (d ≤ 0 ∧ delay = 0) ∨ (0 < d ∧ delay = min d ceiling) := by
  have heq : delay = if d ≤ 0 then (0 : ℤ) else if ceiling < d then ceiling else d := h
  split at heq
  · omega
  · split at heq <;> omega

theorem doubling_min (hbase : 0 < base) (n : ℕ) :
    0 < base * 2 ^ min n 30 ∧ base * 2 ^ min n 30 ≤ base * 2 ^ n :=
  ⟨doubling_pos hbase, doubling_le hbase.le (Nat.min_le_left n 30)⟩

section

variable (hbase : 0 < base) (hceiling : 0 < ceiling) (hint : ceiling < 2 ^ 63)
  (h : delay = cappedDelay (wrapInt64 (base * 2 ^ min n 30)) ceiling)
include hbase hceiling hint h

theorem cappedDelay_shift_iff :
    delay = cappedDoubling base ceiling n ↔ ShiftExact base ceiling n := by
  obtain ⟨hpos, hle⟩ := doubling_min hbase n
  have hdelay := cappedDelay_spec h
  rw [ShiftExact]
  by_cases hfits : base * 2 ^ min n 30 < 2 ^ 63
  · rw [wrapInt64_of_inInt64 ⟨by omega, hfits⟩] at hdelay
    rw [cappedDoubling]
    by_cases hn : n ≤ 30
    · rw [Nat.min_eq_left hn] at hfits hdelay hpos ⊢
      omega
    · have hlt : base * 2 ^ 30 < base * 2 ^ n :=
        Int.mul_lt_mul_of_pos_left (pow_lt_pow_right₀ (by decide) (by omega)) hbase
      rw [Nat.min_eq_right (by omega)] at hfits hdelay hpos ⊢
      omega
  · rw [cappedDoubling_eq_ceiling (show ceiling ≤ base * 2 ^ n by omega)]
    rw [wrapInt64_eq] at hdelay
    split at hdelay <;> omega

theorem cappedDelay_shift_le :
    0 ≤ delay ∧ delay ≤ cappedDoubling base ceiling n := by
  obtain ⟨hpos, hle⟩ := doubling_min hbase n
  have hdelay := cappedDelay_spec h
  rw [cappedDoubling]
  by_cases hfits : base * 2 ^ min n 30 < 2 ^ 63
  · rw [wrapInt64_of_inInt64 ⟨by omega, hfits⟩] at hdelay
    omega
  · omega

end

/-- A delay is `d` with a jitter of at most a quarter for every random number, when it is `d` itself
and the greatest sum fits. -/
theorem jittered_iff (hpos : 0 < d) (hle : delay ≤ d) (hint : d < 2 ^ 63) :
    (∀ rand : ℕ, ∃ j, 0 ≤ j ∧ j ≤ d / 4 ∧
      (if 0 < delay then wrapInt64 (delay + (rand : ℤ) % (delay / 4 + 1)) else delay) = d + j) ↔
    delay = d ∧ d + d / 4 < 2 ^ 63 := by
  constructor
  · intro h
    have hdelay : delay = d := by
      obtain ⟨j, hj, -, heq⟩ := h 0
      split at heq
      · rw [Int.natCast_zero, Int.zero_emod, add_zero,
          wrapInt64_of_inInt64 ⟨by omega, by omega⟩] at heq
        omega
      · omega
    subst hdelay
    refine ⟨rfl, ?_⟩
    -- the greatest jitter overflows first
    obtain ⟨j, hj, -, heq⟩ := h (delay / 4).toNat
    have hgreatest : ((delay / 4).toNat : ℤ) % (delay / 4 + 1) = delay / 4 := by
      rw [Int.toNat_of_nonneg (by omega)]
      exact Int.emod_eq_of_lt (by omega) (by omega)
    rw [if_pos hpos, hgreatest, wrapInt64_eq] at heq
    split at heq <;> omega
  · rintro ⟨rfl, hsum⟩ rand
    have hwidth : 0 < delay / 4 + 1 := by omega
    have hlt := Int.emod_lt_of_pos (rand : ℤ) hwidth
    have hnonneg := Int.emod_nonneg (rand : ℤ) hwidth.ne'
    refine ⟨(rand : ℤ) % (delay / 4 + 1), hnonneg, by omega, ?_⟩
    rw [if_pos hpos]
    exact wrapInt64_of_inInt64 ⟨by omega, by omega⟩

end

/-- The delay is the doubled base up to the maximum, with a jitter of at most a quarter of it, when
the shift is exact and the sum with the jitter still fits. -/
theorem retryDelay_exact_iff (r : Relay) (attempts : ℕ) (hbase : 0 < r.baseRetryDelay)
    (hmax : r.baseRetryDelay ≤ r.maxRetryDelay) (hint : r.maxRetryDelay < 2 ^ 63) :
    ∀ d, d = cappedDoubling r.baseRetryDelay r.maxRetryDelay attempts →
      ((∀ rand, ∃ j, 0 ≤ j ∧ j ≤ d / 4 ∧ r.retryDelay attempts rand = d + j) ↔
        ShiftExact r.baseRetryDelay r.maxRetryDelay attempts ∧ d + d / 4 < 2 ^ 63) := by
  rintro d rfl
  have hceiling : 0 < r.maxRetryDelay := lt_of_lt_of_le hbase hmax
  simp only [Relay.retryDelay, Int.shiftLeft_eq, one_mul]
  rw [← cappedDelay_shift_iff hbase hceiling hint rfl]
  exact jittered_iff (cappedDoubling_pos hbase hceiling)
    (cappedDelay_shift_le hbase hceiling hint rfl).2 (lt_of_le_of_lt cappedDoubling_le hint)

def defaultRelay : Relay where
  batchSize := 100
  maxAttempts := 5
  claimTTL := 60000000000
  baseRetryDelay := 5000000000
  maxRetryDelay := 300000000000
  reclaimBatchSize := 100
  sanitizeError := id

theorem retryDelay_exact_default : ∃ j, 0 ≤ j ∧ j ≤ 80000000000 / 4 ∧
    defaultRelay.retryDelay 4 7 = 80000000000 + j :=
  (retryDelay_exact_iff defaultRelay 4 (by decide) (by decide) (by decide) 80000000000
    (by decide)).2 ⟨by decide, by decide⟩ 7

/-- With a base of about seventeen seconds there is no delay at all after thirty attempts. -/
theorem retryDelay_vanishes :
    ¬∀ (r : Relay) (attempts rand : ℕ), 0 < r.baseRetryDelay →
      r.baseRetryDelay ≤ r.maxRetryDelay → r.maxRetryDelay < 2 ^ 63 →
        0 < r.retryDelay attempts rand := by
  intro h
  have hpos := h { defaultRelay with baseRetryDelay := 2 ^ 34 } 30 0 (by decide) (by decide)
    (by decide)
  have hzero : Relay.retryDelay { defaultRelay with baseRetryDelay := 2 ^ 34 } 30 0 = 0 := by
    decide
  rw [hzero] at hpos
  exact lt_irrefl _ hpos

end GoCell.Outbox
