import GoCell.Foundation.CappedDoubling
import GoCell.Kernel.Int64
import Mathlib.Data.Nat.Size

namespace GoCell.Consumer

open Foundation Kernel

/-- The greatest shift of the base that an `int64` holds; `Nat.size` is `bits.Len64`. -/
def maxSafeShift (base : Duration) : ℤ := 63 - (base.toNat.size : ℤ)

def exponentialDelay (base maxDelay : Duration) (attempt : ℤ) : Duration :=
  if base ≤ 0 then 0
  else if attempt < 0 then 0
  else if maxSafeShift base < attempt then maxDelay
  else
    let delay := wrapInt64 (base * wrapInt64 ((1 : ℤ) <<< attempt.toNat))
    if delay ≤ 0 ∨ maxDelay < delay then maxDelay else delay

section

variable {base maxDelay : ℤ} {n : ℕ}

theorem le_maxSafeShift_iff (hbase : 0 < base) :
    (n : ℤ) ≤ maxSafeShift base ↔ base * 2 ^ n < 2 ^ 63 := by
  obtain ⟨b, rfl⟩ := Int.eq_ofNat_of_zero_le hbase.le
  have hsize : n + b.size ≤ 63 ↔ b <<< n < 2 ^ 63 := by
    rw [← Nat.size_le, Nat.size_shiftLeft (by omega), add_comm]
  rw [Nat.shiftLeft_eq] at hsize
  have hcast : (b : ℤ) * 2 ^ n < 2 ^ 63 ↔ b * 2 ^ n < 2 ^ 63 := by
    rw [← Int.ofNat_lt, Int.natCast_mul, Int.natCast_pow, Int.natCast_pow]
    rfl
  rw [hcast, ← hsize, maxSafeShift]
  change (n : ℤ) ≤ 63 - (b.size : ℤ) ↔ _
  omega

theorem inInt64_of_le_maxSafeShift (hbase : 0 < base) (h : (n : ℤ) ≤ maxSafeShift base) :
    InInt64 ((1 : ℤ) <<< n) ∧ InInt64 (base * (1 : ℤ) <<< n) := by
  have hproduct := (le_maxSafeShift_iff hbase).1 h
  have hpower : (0 : ℤ) < 2 ^ n := pow_pos (by decide) n
  have hle : (2 : ℤ) ^ n ≤ base * 2 ^ n := le_mul_of_one_le_left hpower.le hbase
  rw [Int.shiftLeft_eq, one_mul]
  exact ⟨⟨by omega, by omega⟩, ⟨by omega, hproduct⟩⟩

theorem exponentialDelay_eq (hbase : 0 < base) (hmax : InInt64 maxDelay) (n : ℕ) :
    exponentialDelay base maxDelay n = cappedDoubling base maxDelay n := by
  have hpos : 0 < base * 2 ^ n := doubling_pos hbase
  rw [exponentialDelay, if_neg (not_le.2 hbase), if_neg (by omega)]
  by_cases hsafe : (n : ℤ) ≤ maxSafeShift base
  · obtain ⟨hpower, hproduct⟩ := inInt64_of_le_maxSafeShift hbase hsafe
    rw [if_neg (not_lt.2 hsafe), Int.toNat_natCast, wrapInt64_of_inInt64 hpower,
      wrapInt64_of_inInt64 hproduct, Int.shiftLeft_eq, one_mul]
    change (if base * 2 ^ n ≤ 0 ∨ maxDelay < base * 2 ^ n then maxDelay else base * 2 ^ n) = _
    split
    · next hcap => exact (min_eq_right (by omega)).symm
    · next hcap => exact (min_eq_left (by omega)).symm
  · have hover := (le_maxSafeShift_iff hbase).not.1 hsafe
    rw [if_pos (not_le.1 hsafe)]
    exact (min_eq_right (le_trans hmax.2.le (not_lt.1 hover))).symm

end

/-- The delay is the doubled base up to the maximum, and no step of its computation overflows. -/
theorem exponentialDelay_exact (base maxDelay : ℤ) (hbase : 0 < base ∧ InInt64 base)
    (hmax : 0 < maxDelay ∧ InInt64 maxDelay) (n : ℕ) :
    exponentialDelay base maxDelay n = cappedDoubling base maxDelay n ∧
      ((n : ℤ) ≤ maxSafeShift base → InInt64 ((1 : ℤ) <<< n) ∧ InInt64 (base * (1 : ℤ) <<< n)) :=
  ⟨exponentialDelay_eq hbase.1 hmax.2 n, inInt64_of_le_maxSafeShift hbase.1⟩

theorem exponentialDelay_exact_seconds :
    exponentialDelay 1000000000 30000000000 4 = cappedDoubling 1000000000 30000000000 4 ∧
      ((4 : ℤ) ≤ maxSafeShift 1000000000 →
        InInt64 ((1 : ℤ) <<< (4 : ℕ)) ∧ InInt64 (1000000000 * (1 : ℤ) <<< (4 : ℕ))) :=
  exponentialDelay_exact 1000000000 30000000000 (by decide) (by decide) 4

end GoCell.Consumer
