import GoCell.Kernel.RFC3339

namespace GoCell.Kernel

structure TimeText where
  format : Time → Bytes
  parse : Bytes → Option Time
  parse_format (t : Time) : inYears t = true → parse (format t) = some t
  plain (t : Time) : inYears t = true → ∀ c ∈ format t, 0x20 ≤ c ∧ c ≠ 0x22 ∧ c ≠ 0x5c

def timeText (tt : TimeText) (t : Time) : Option Bytes :=
  if inYears t then some (0x22 :: (tt.format t ++ [0x22])) else none

theorem valueText_timeText {tt : TimeText} {t : Time} {text : Bytes}
    (h : timeText tt t = some text) (d : ℕ) : Scanner.ValueText d text := by
  unfold timeText at h
  split at h
  · next ht =>
    cases h
    exact (Scanner.stringBody_plains (tt.plain t ht)).quoted.value
  · cases h

/-- `Time.UnmarshalJSON`: the text between the quotes is not unquoted. -/
def decodeTime (tt : TimeText) (old : Time) (raw : Bytes) : Option Time :=
  if isNull raw then some old
  else if raw.head? = some 0x22 ∧ raw.tail.getLast? = some 0x22 then tt.parse raw.tail.dropLast
  else none

theorem decodeTime_timeText {tt : TimeText} {t : Time} {text : Bytes}
    (h : timeText tt t = some text) (old : Time) : decodeTime tt old text = some t := by
  unfold timeText at h
  split at h
  · next ht =>
    cases h
    unfold decodeTime
    rw [if_neg (by simp [isNull, Scanner.isSpace]), if_pos ⟨rfl, List.getLast?_concat⟩,
      List.tail_cons, List.dropLast_concat, tt.parse_format t ht]
  · cases h

theorem toNat_sinceYearZero {t : Time} (h : inYears t = true) :
    ((t + 366 * nanosPerDay).toNat : ℤ) = t + 366 * nanosPerDay ∧
      (t + 366 * nanosPerDay).toNat < 3652425 * 86400000000000 := by
  rw [inYears, Bool.and_eq_true, decide_eq_true_eq, decide_eq_true_eq, nanosPerDay] at h
  simp only [Time, nanosPerDay] at t h ⊢
  omega

/-- `time.RFC3339Nano` in UTC. Only the texts that it writes are read. -/
def rfc3339Nano : TimeText where
  format t := instantText (t + 366 * nanosPerDay).toNat
  parse s :=
    if instantText (readInstant s) = s then some (readInstant s - 366 * nanosPerDay) else none
  parse_format t ht := by
    obtain ⟨htime, hlt⟩ := toNat_sinceYearZero ht
    rw [readInstant_instantText hlt, if_pos rfl, htime, Int.add_sub_cancel]
  plain t _ c hc :=
    have ⟨hlow, _, hplain⟩ := timeByte_instantText _ c hc
    ⟨hlow, hplain⟩

example : rfc3339Nano.format (unixEpoch + 1709209805250000000) =
    asciiBytes "2024-02-29T12:30:05.25Z" := by decide

end GoCell.Kernel
