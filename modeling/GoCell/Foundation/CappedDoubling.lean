import Mathlib.Algebra.Order.Ring.Int

namespace GoCell.Foundation

variable {base ceiling : ℤ} {m n : ℕ}

def cappedDoubling (base ceiling : ℤ) (n : ℕ) : ℤ := min (base * 2 ^ n) ceiling

theorem doubling_le (hbase : 0 ≤ base) (h : m ≤ n) : base * 2 ^ m ≤ base * 2 ^ n :=
  Int.mul_le_mul_of_nonneg_left (pow_le_pow_right₀ (by decide) h) hbase

theorem doubling_pos (hbase : 0 < base) : 0 < base * 2 ^ n :=
  Int.mul_pos hbase (pow_pos (by decide) n)

theorem cappedDoubling_pos (hbase : 0 < base) (hceiling : 0 < ceiling) :
    0 < cappedDoubling base ceiling n := lt_min (doubling_pos hbase) hceiling

theorem cappedDoubling_mono (hbase : 0 ≤ base) (h : m ≤ n) :
    cappedDoubling base ceiling m ≤ cappedDoubling base ceiling n :=
  min_le_min_right ceiling (doubling_le hbase h)

theorem cappedDoubling_le : cappedDoubling base ceiling n ≤ ceiling := min_le_right _ _

theorem cappedDoubling_eq_ceiling (h : ceiling ≤ base * 2 ^ n) :
    cappedDoubling base ceiling n = ceiling := min_eq_right h

end GoCell.Foundation
