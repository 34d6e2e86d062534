import Mathlib.Algebra.Order.Ring.Int

namespace GoCell.Foundation

/-- The quotient that is nearest to `m / d`, of two the even one. -/
def nearestEven (m d : ℕ) : ℕ :=
  if d < 2 * (m % d) ∨ d = 2 * (m % d) ∧ m / d % 2 = 1 then m / d + 1 else m / d

/-- A natural number with 53 significant bits. -/
def round53 (m : ℕ) : ℕ :=
  if m < 2 ^ 53 then m else nearestEven m (2 ^ (m.log2 - 52)) * 2 ^ (m.log2 - 52)

/-- The value of an `int` that is converted to a `float64`. -/
def float64OfInt (n : ℤ) : ℤ := n.sign * round53 n.natAbs

theorem round53_of_le {m : ℕ} (h : m ≤ 2 ^ 53) : round53 m = m := by
  obtain h | rfl := h.lt_or_eq
  · exact if_pos h
  · rfl

theorem float64OfInt_of_natAbs_le {n : ℤ} (h : n.natAbs ≤ 2 ^ 53) : float64OfInt n = n := by
  rw [float64OfInt, round53_of_le h, Int.sign_mul_natAbs]

end GoCell.Foundation
