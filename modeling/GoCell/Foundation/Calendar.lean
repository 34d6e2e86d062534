import Mathlib.Algebra.Ring.Nat
import Mathlib.Tactic.Common

namespace GoCell.Foundation

/-- The Gregorian date of a day. Days and years are counted from March of the year -400 on; with
years from March to February a leap day is the last of its 4 and of its 400 years. -/
def civilDate (n : ℕ) : ℕ × ℕ × ℕ :=
  let c := min (n % 146097 / 36524) 3
  let r := n % 146097 - 36524 * c
  let y := min (r % 1461 / 365) 3
  let d := r % 1461 - 365 * y
  let m := (5 * d + 2) / 153
  (400 * (n / 146097) + 100 * c + 4 * (r / 1461) + y + m / 10, (m + 2) % 12 + 1,
    d - (153 * m + 2) / 5 + 1)

def civilDays (year month day : ℕ) : ℕ :=
  let m := (month + 9) % 12
  let y := year - m / 10
  146097 * (y / 400) + 36524 * (y % 400 / 100) + 1461 * (y % 100 / 4) + 365 * (y % 4) +
    (153 * m + 2) / 5 + day - 1

theorem year_parts {n c r y d : ℕ} (hc : c = min (n % 146097 / 36524) 3)
    (hr : r = n % 146097 - 36524 * c) (hy : y = min (r % 1461 / 365) 3)
    (hd : d = r % 1461 - 365 * y) :
    n = 146097 * (n / 146097) + 36524 * c + 1461 * (r / 1461) + 365 * y + d ∧ c ≤ 3 ∧
      r / 1461 ≤ 24 ∧ y ≤ 3 ∧ d ≤ 365 := by
  have hcentury : 36524 * c ≤ n % 146097 ∧ r ≤ 36524 := by omega
  have hyear : 365 * y ≤ r % 1461 ∧ d ≤ 365 := by omega
  omega

theorem civilDate_eq (n : ℕ) :
    ∃ e c q y d m, civilDate n = (400 * e + 100 * c + 4 * q + y + m / 10, (m + 2) % 12 + 1,
        d - (153 * m + 2) / 5 + 1) ∧
      n = 146097 * e + 36524 * c + 1461 * q + 365 * y + d ∧ c ≤ 3 ∧ q ≤ 24 ∧ y ≤ 3 ∧ m ≤ 11 ∧
      (153 * m + 2) / 5 ≤ d ∧ d < (153 * m + 2) / 5 + 31 := by
  obtain ⟨hn, hc, hq, hy, hd⟩ := year_parts (n := n) rfl rfl rfl rfl
  exact ⟨_, _, _, _, _, _, rfl, hn, hc, hq, hy, by omega, by omega, by omega⟩

theorem civilDays_civilDate (n : ℕ) :
    civilDays (civilDate n).1 (civilDate n).2.1 (civilDate n).2.2 = n := by
  obtain ⟨e, c, q, y, d, m, hdate, rfl, hc, hq, hy, hm, hd, -⟩ := civilDate_eq n
  have hmonth : ((m + 2) % 12 + 1 + 9) % 12 = m := by omega
  simp only [hdate, civilDays, hmonth, Nat.add_sub_cancel]
  have h₁ : (400 * e + 100 * c + 4 * q + y) / 400 = e := by omega
  have h₂ : (400 * e + 100 * c + 4 * q + y) % 400 / 100 = c := by omega
  have h₃ : (400 * e + 100 * c + 4 * q + y) % 100 / 4 = q := by omega
  have h₄ : (400 * e + 100 * c + 4 * q + y) % 4 = y := by omega
  rw [h₁, h₂, h₃, h₄]
  omega

/-- The days of the years 0 to 9999. -/
theorem civilDate_bounds {n : ℕ} (hfirst : 146037 ≤ n) (hlast : n < 3798462) :
    400 ≤ (civilDate n).1 ∧ (civilDate n).1 - 400 < 10 ^ 4 ∧ (civilDate n).2.1 < 10 ^ 2 ∧
      (civilDate n).2.2 < 10 ^ 2 := by
  obtain ⟨e, c, q, y, d, m, hdate, rfl, hc, hq, hy, hm, hd, hd'⟩ := civilDate_eq n
  have hlow : 400 ≤ 400 * e + 100 * c + 4 * q + y + m / 10 := by
    obtain rfl | he := e.eq_zero_or_pos <;> omega
  have hhigh : 400 * e + 100 * c + 4 * q + y + m / 10 < 10400 := by
    obtain rfl | he := Nat.eq_or_lt_of_le (show e ≤ 25 by omega) <;> omega
  simp only [hdate]
  exact ⟨hlow, by omega, by omega, by omega⟩

end GoCell.Foundation
