import GoCell.Kernel.Values

namespace GoCell.Kernel

def InInt64 (n : ℤ) : Prop := -2 ^ 63 ≤ n ∧ n < 2 ^ 63

instance decidableInInt64 (n : ℤ) : Decidable (InInt64 n) := inferInstanceAs (Decidable (_ ∧ _))

theorem inInt64_wrapInt64 (n : ℤ) : InInt64 (wrapInt64 n) := by
  have hlow := @Int.le_bmod n (2 ^ 64) (by decide)
  have hhigh := @Int.bmod_lt n (2 ^ 64) (by decide)
  unfold InInt64 wrapInt64
  omega

theorem wrapInt64_of_inInt64 {n : ℤ} (h : InInt64 n) : wrapInt64 n = n := by
  unfold InInt64 at h
  exact Int.bmod_eq_of_le (by omega) (by omega)

theorem wrapInt64_eq {n : ℤ} : wrapInt64 n =
    if n % 2 ^ 64 < 2 ^ 63 then n % 2 ^ 64 else n % 2 ^ 64 - 2 ^ 64 := by
  rw [wrapInt64, Int.bmod_def]
  rfl

end GoCell.Kernel
