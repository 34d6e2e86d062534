import GoCell.Kernel.Int64
import GoCell.Kernel.JsonScalars

namespace GoCell.Kernel

open Foundation List Option

def digitValue (c : UInt8) : Option ℕ := if 0x30 ≤ c ∧ c ≤ 0x39 then some (c.toNat - 0x30) else none

def parseDigits (s : Bytes) : Option ℕ :=
  if s = [] then none else (s.mapM digitValue).map fun ds ↦ Nat.ofDigits 10 ds.reverse

def parseInt (s : Bytes) : Option ℤ :=
  let n : Option ℤ :=
    match s with
    | [] => none
    | c :: rest =>
      if c = 0x2b then (parseDigits rest).map fun n : ℕ ↦ (n : ℤ)
      else if c = 0x2d then (parseDigits rest).map fun n : ℕ ↦ -(n : ℤ)
      else (parseDigits s).map fun n : ℕ ↦ (n : ℤ)
  n.filter fun n ↦ InInt64 n

def isNumeric (c : UInt8) : Bool := (0x30 ≤ c && c ≤ 0x39) || c = 0x2b || c = 0x2d

theorem isNumeric_of_parseDigits {s : Bytes} {n : ℕ} (h : parseDigits s = some n) :
    ∀ c ∈ s, isNumeric c = true := by
  intro c hc
  unfold parseDigits at h
  split at h
  · cases h
  · obtain ⟨ds, hds, -⟩ := map_eq_some_iff.1 h
    obtain ⟨d, -, hd⟩ := mem_of_mapM_some hds hc
    unfold digitValue at hd
    split at hd
    · next hdigit => simp [isNumeric, hdigit]
    · cases hd

theorem isNumeric_of_parseInt {s : Bytes} {n : ℤ} (h : parseInt s = some n) :
    ∀ c ∈ s, isNumeric c = true := by
  have hparsed := (filter_eq_some_iff.1 h).1
  cases s with
  | nil => cases hparsed
  | cons =>
    simp only at hparsed
    split at hparsed
    · next hplus =>
      obtain ⟨m, hm, -⟩ := map_eq_some_iff.1 hparsed
      exact forall_mem_cons.2 ⟨by rw [hplus]; rfl, isNumeric_of_parseDigits hm⟩
    · split at hparsed
      · next hminus =>
        obtain ⟨m, hm, -⟩ := map_eq_some_iff.1 hparsed
        exact forall_mem_cons.2 ⟨by rw [hminus]; rfl, isNumeric_of_parseDigits hm⟩
      · obtain ⟨m, hm, -⟩ := map_eq_some_iff.1 hparsed
        exact isNumeric_of_parseDigits hm

theorem digitValue_digit : ∀ d < 10, digitValue (digit d) = some d := by decide

theorem parseDigits_decimalNat (n : ℕ) : parseDigits (decimalNat n) = some n := by
  unfold decimalNat
  split
  · next h => rw [h]; rfl
  · next h =>
    have hne : (Nat.digits 10 n).reverse.map digit ≠ [] := by
      simpa using Nat.digits_ne_nil_iff_ne_zero.2 h
    have hlt : ∀ d ∈ (Nat.digits 10 n).reverse, d < 10 := by
      intro d hd
      exact Nat.digits_lt_base (by norm_num) (mem_reverse.1 hd)
    rw [parseDigits, if_neg hne, mapM_value_digit digitValue_digit hlt, map_some, reverse_reverse,
      Nat.ofDigits_digits]

theorem isNumeric_decimalNat (n : ℕ) : ∀ c ∈ decimalNat n, isNumeric c = true :=
  isNumeric_of_parseDigits (parseDigits_decimalNat n)

theorem parseInt_decimal {n : ℤ} (h : InInt64 n) : parseInt (decimal n) = some n := by
  unfold decimal
  split
  · next hneg =>
    have habs : -(n.natAbs : ℤ) = n := by omega
    simp only [parseInt, parseDigits_decimalNat, map_some, habs]
    simp [h]
  · next hpos =>
    have habs : (n.natAbs : ℤ) = n := by omega
    obtain ⟨d, ds, htext, hd⟩ := head_decimalNat n.natAbs
    have hplus : digit d ≠ 0x2b := by interval_cases d <;> decide
    have hparsed := parseDigits_decimalNat n.natAbs
    rw [htext] at hparsed ⊢
    simp only [parseInt, hplus, digit_ne_minus hd, if_false, hparsed, map_some, habs]
    simp [h]

def isLeadingDigit (c : UInt8) : Bool := 0x31 ≤ c && c ≤ 0x39

theorem digit_of_digitValue {c : UInt8} {d : ℕ} (h : digitValue c = some d) :
    digit d = c ∧ d < 10 ∧ (isLeadingDigit c = true ↔ d ≠ 0) := by
  unfold digitValue at h
  split at h
  · next hdigit =>
    cases h
    have hlow : 0x30 ≤ c.toNat := UInt8.le_iff_toNat_le.1 hdigit.1
    have hhigh : c.toNat ≤ 0x39 := UInt8.le_iff_toNat_le.1 hdigit.2
    have hc : digit (c.toNat - 0x30) = c := by
      rw [digit, Nat.add_sub_cancel' hlow, UInt8.ofNat_toNat]
    refine ⟨hc, by omega, ?_⟩
    simp only [isLeadingDigit, Bool.and_eq_true, decide_eq_true_eq, UInt8.le_iff_toNat_le]
    change 0x31 ≤ c.toNat ∧ c.toNat ≤ 0x39 ↔ _
    omega
  · cases h

theorem map_digit_of_mapM {s : Bytes} {ds : List ℕ} (h : s.mapM digitValue = some ds) :
    ds.map digit = s ∧ ∀ d ∈ ds, d < 10 := by
  induction s generalizing ds with
  | nil =>
    cases h
    exact ⟨rfl, fun _ h ↦ absurd h not_mem_nil⟩
  | cons c s ih =>
    simp only [List.mapM_cons, Option.bind_eq_bind, Option.bind_eq_some_iff, Option.pure_def,
      Option.some.injEq] at h
    obtain ⟨d, hd, ds, hds, rfl⟩ := h
    obtain ⟨hmap, hlt⟩ := ih hds
    obtain ⟨hdigit, hd', -⟩ := digit_of_digitValue hd
    exact ⟨by rw [map_cons, hdigit, hmap], forall_mem_cons.2 ⟨hd', hlt⟩⟩

theorem decimalNat_of_parseDigits {c : UInt8} {s : Bytes} {n : ℕ}
    (h : parseDigits (c :: s) = some n) (hc : isLeadingDigit c = true) :
    decimalNat n = c :: s := by
  rw [parseDigits, if_neg (cons_ne_nil c s)] at h
  obtain ⟨ds, hds, rfl⟩ := map_eq_some_iff.1 h
  obtain ⟨hmap, hlt⟩ := map_digit_of_mapM hds
  cases ds with
  | nil => cases hmap
  | cons d ds =>
    have hd : d ≠ 0 := by
      simp only [List.mapM_cons, Option.bind_eq_bind, Option.bind_eq_some_iff, Option.pure_def,
        some.injEq, cons.injEq] at hds
      obtain ⟨d', hd', _, -, rfl, -⟩ := hds
      exact (digit_of_digitValue hd').2.2.1 hc
    have hdigits : Nat.digits 10 (Nat.ofDigits 10 (d :: ds).reverse) = (d :: ds).reverse := by
      refine Nat.digits_ofDigits 10 (by norm_num) _ (fun e he ↦ hlt e (mem_reverse.1 he)) ?_
      intro _
      simpa using hd
    have hpos : Nat.ofDigits 10 (d :: ds).reverse ≠ 0 := by
      intro hzero
      rw [hzero, Nat.digits_zero] at hdigits
      simp at hdigits
    rw [decimalNat, if_neg hpos, hdigits, reverse_reverse, hmap]

theorem decimal_parseInt_iff {s : Bytes} {n : ℤ} (h : parseInt s = some n) (hpos : 0 < n) :
    decimal n = s ↔ ∃ c ∈ s.head?, isLeadingDigit c = true := by
  have hdecimal : decimal n = decimalNat n.natAbs := if_neg (by omega)
  constructor
  · rintro rfl
    obtain ⟨d, ds, htext, hd, hlt, -⟩ := decimalNat_of_pos (n := n.natAbs) (by omega)
    rw [hdecimal, htext]
    refine ⟨digit d, rfl, ?_⟩
    exact (digit_of_digitValue (digitValue_digit _ hlt)).2.2.2 (by omega)
  · rintro ⟨c, hhead, hc⟩
    cases s with
    | nil => cases hhead
    | cons b rest =>
      obtain rfl : b = c := some.inj hhead
      have hparsed := (filter_eq_some_iff.1 h).1
      have hplus : b ≠ 0x2b := by
        rintro rfl
        exact absurd hc (by decide)
      have hminus : b ≠ 0x2d := by
        rintro rfl
        exact absurd hc (by decide)
      simp only [hplus, hminus, if_false] at hparsed
      obtain ⟨m, hm, rfl⟩ := map_eq_some_iff.1 hparsed
      rw [hdecimal, Int.natAbs_natCast, decimalNat_of_parseDigits hm hc]

def nanosPerSecond : ℤ := 1000000000

def unixToInternal : ℤ := 62135596800

def timeUnix (sec : ℤ) : Time := wrapInt64 (sec + unixToInternal) * nanosPerSecond

def unixSeconds (t : Time) : ℤ := wrapInt64 (t / nanosPerSecond - unixToInternal)

/-- `Time.Sub`, which saturates. -/
def timeSub (t u : Time) : Duration :=
  if InInt64 (t - u) then t - u else if t < u then -2 ^ 63 else 2 ^ 63 - 1

theorem lt_timeSub_iff {t u : Time} {d : Duration} (hmin : -2 ^ 63 ≤ d) (hmax : d < 2 ^ 63 - 1) :
    d < timeSub t u ↔ d < t - u := by
  simp only [timeSub, InInt64, Time, Duration] at *
  split_ifs <;> omega

theorem inInt64_unixSeconds (t : Time) : InInt64 (unixSeconds t) := inInt64_wrapInt64 _

theorem unixSeconds_timeUnix {n : ℤ} (h : InInt64 n) : unixSeconds (timeUnix n) = n := by
  rw [unixSeconds, timeUnix, Int.mul_ediv_cancel _ (by decide), wrapInt64, wrapInt64,
    Int.bmod_sub_bmod, Int.add_sub_cancel]
  exact wrapInt64_of_inInt64 h

end GoCell.Kernel
