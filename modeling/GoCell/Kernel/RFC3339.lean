import GoCell.Foundation.Calendar
import GoCell.Kernel.JsonScalars
import Mathlib.Data.List.DropRight

namespace GoCell.Kernel

open Foundation List

def paddedDigits : ℕ → ℕ → Bytes
  | 0, _ => []
  | w + 1, n => paddedDigits w (n / 10) ++ [digit (n % 10)]

def readDigits (s : Bytes) : ℕ := s.foldl (fun n c ↦ 10 * n + (c.toNat - 0x30)) 0

/-- The end of the text, with the fraction of the second but for the zeros at its end. -/
def fractionText (ns : ℕ) : Bytes :=
  if ns = 0 then [0x5a] else 0x2e :: ((paddedDigits 9 ns).rdropWhile (· = 0x30) ++ [0x5a])

/-- An instant in UTC as `time.RFC3339Nano` has it, from the nanoseconds since the year 0. -/
def instantText (ns : ℕ) : Bytes :=
  let date := civilDate (ns / 86400000000000 + 146037)
  paddedDigits 4 (date.1 - 400) ++ 0x2d :: (paddedDigits 2 date.2.1 ++ 0x2d ::
    (paddedDigits 2 date.2.2 ++ 0x54 :: (paddedDigits 2 (ns / 3600000000000 % 24) ++ 0x3a ::
      (paddedDigits 2 (ns / 60000000000 % 60) ++ 0x3a :: (paddedDigits 2 (ns / 1000000000 % 60) ++
        fractionText (ns % 1000000000))))))

def readField (w : ℕ) (s : Bytes) : ℕ × Bytes := (readDigits (s.take w), s.drop (w + 1))

def readInstant (s : Bytes) : ℕ :=
  let (year, s) := readField 4 s
  let (month, s) := readField 2 s
  let (day, s) := readField 2 s
  let (hour, s) := readField 2 s
  let (minute, s) := readField 2 s
  let (second, s) := readField 2 s
  let days := civilDays (year + 400) month day - 146037
  (((days * 24 + hour) * 60 + minute) * 60 + second) * 1000000000 +
    readDigits ((s.dropLast ++ replicate 9 0x30).take 9)

/-- A byte that stands for itself in a JSON string and in a query. -/
def TimeByte (c : UInt8) : Prop := 0x20 ≤ c ∧ c < 0x80 ∧ c ≠ 0x22 ∧ c ≠ 0x5c

instance : DecidablePred TimeByte := fun _ ↦ inferInstanceAs (Decidable (_ ∧ _))

section Digits

variable (w n : ℕ)

theorem readDigits_paddedDigits : readDigits (paddedDigits w n) = n % 10 ^ w := by
  induction w generalizing n with
  | zero => exact (Nat.mod_one n).symm
  | succ w ih =>
    have hdigit : (digit (n % 10)).toNat - 0x30 = n % 10 := by
      rw [digit, UInt8.toNat_ofNat']
      omega
    rw [paddedDigits, readDigits, foldl_append, ← readDigits, ih, foldl_cons, foldl_nil, hdigit,
      pow_succ', Nat.mod_mul, Nat.add_comm]

theorem length_paddedDigits : (paddedDigits w n).length = w := by
  induction w generalizing n with
  | zero => rfl
  | succ w ih => rw [paddedDigits, length_append, ih, length_singleton]

theorem timeByte_paddedDigits : ∀ c ∈ paddedDigits w n, TimeByte c := by
  have hdigit : ∀ d < 10, TimeByte (digit d) := by decide
  induction w generalizing n with
  | zero => exact fun c hc ↦ absurd hc not_mem_nil
  | succ w ih =>
    exact forall_mem_append.2 ⟨ih _, forall_mem_singleton.2 (hdigit _ (Nat.mod_lt _ (by decide)))⟩

variable {w n} in
theorem readField_paddedDigits (h : n < 10 ^ w) (c : UInt8) (s : Bytes) :
    readField w (paddedDigits w n ++ c :: s) = (n, s) := by
  have hlen := length_paddedDigits w n
  rw [readField, take_left' hlen, ← drop_drop, drop_left' hlen, readDigits_paddedDigits,
    Nat.mod_eq_of_lt h]
  rfl

end Digits

theorem take_rdropWhile_append {α : Type} [DecidableEq α] (a : α) (l : List α) :
    (l.rdropWhile (· = a) ++ replicate l.length a).take l.length = l := by
  have hparts := rdropWhile_append_rtakeWhile (p := fun b ↦ decide (b = a)) (l := l)
  have hlast : l.rtakeWhile (· = a) = replicate (l.rtakeWhile (· = a)).length a :=
    eq_replicate_of_mem fun b hb ↦ by simpa using mem_rtakeWhile_imp hb
  have hlen := congrArg length hparts
  rw [length_append] at hlen
  rw [← hlen, take_length_add_append, take_replicate, Nat.min_eq_left (Nat.le_add_left _ _),
    ← hlast, hparts]

theorem fractionText_eq (ns : ℕ) (h : ns < 10 ^ 9) :
    ∃ c s, fractionText ns = c :: s ∧
      readDigits ((s.dropLast ++ replicate 9 0x30).take 9) = ns := by
  unfold fractionText
  split
  · next hzero => exact ⟨_, _, rfl, by rw [hzero]; rfl⟩
  · have htake := take_rdropWhile_append 0x30 (paddedDigits 9 ns)
    rw [length_paddedDigits] at htake
    refine ⟨_, _, rfl, ?_⟩
    rw [dropLast_concat, htake, readDigits_paddedDigits, Nat.mod_eq_of_lt h]

theorem readInstant_instantText {ns : ℕ} (h : ns < 3652425 * 86400000000000) :
    readInstant (instantText ns) = ns := by
  obtain ⟨hyear, hyear', hmonth, hday⟩ :=
    civilDate_bounds (Nat.le_add_left 146037 (ns / 86400000000000)) (by omega)
  have hhour : ns / 3600000000000 % 24 < 10 ^ 2 := by omega
  have hminute : ns / 60000000000 % 60 < 10 ^ 2 := by omega
  have hsecond : ns / 1000000000 % 60 < 10 ^ 2 := by omega
  obtain ⟨c, s, hfraction, hread⟩ := fractionText_eq (ns % 1000000000) (by omega)
  simp only [instantText, hfraction, readInstant, readField_paddedDigits hyear',
    readField_paddedDigits hmonth, readField_paddedDigits hday, readField_paddedDigits hhour,
    readField_paddedDigits hminute, readField_paddedDigits hsecond, hread,
    Nat.sub_add_cancel hyear, civilDays_civilDate, Nat.add_sub_cancel]
  omega

theorem timeByte_fractionText (ns : ℕ) : ∀ c ∈ fractionText ns, TimeByte c := by
  have hend : ∀ c ∈ [0x5a], TimeByte c := forall_mem_singleton.2 (by decide)
  unfold fractionText
  split
  · exact hend
  · refine forall_mem_cons.2 ⟨by decide, forall_mem_append.2 ⟨fun c hc ↦ ?_, hend⟩⟩
    have hsub := rdropWhile_prefix (· = (0x30 : UInt8)) (paddedDigits 9 ns)
    exact timeByte_paddedDigits _ _ c (hsub.subset hc)

theorem timeByte_instantText (ns : ℕ) : ∀ c ∈ instantText ns, TimeByte c := by
  have hdigits := timeByte_paddedDigits
  simp only [instantText, forall_mem_append, forall_mem_cons]
  exact ⟨hdigits _ _, by decide, hdigits _ _, by decide, hdigits _ _, by decide, hdigits _ _,
    by decide, hdigits _ _, by decide, hdigits _ _, timeByte_fractionText _⟩

end GoCell.Kernel
