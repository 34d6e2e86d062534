import GoCell.Kernel.Encodings
import GoCell.Kernel.JsonDecode
import Mathlib.Data.Nat.Digits.Lemmas

namespace GoCell.Kernel

open Foundation Scanner List

def digit (n : ℕ) : UInt8 := UInt8.ofNat (0x30 + n)

def decimalNat (n : ℕ) : Bytes :=
  if n = 0 then [digit 0] else (Nat.digits 10 n).reverse.map digit

def decimal (n : ℤ) : Bytes := if n < 0 then 0x2d :: decimalNat n.natAbs else decimalNat n.natAbs

/-- A `[]byte` as `encoding/json` writes it; `none` is the nil slice. -/
def bytesText : Option Bytes → Bytes
  | none => asciiBytes "null"
  | some b => 0x22 :: (base64 b ++ [0x22])

theorem utf8Valid_of_isHexDigest {h : Bytes} (hhex : isHexDigest h = true) :
    utf8Valid h = true := by
  rw [isHexDigest, Bool.and_eq_true, all_eq_true] at hhex
  exact utf8Valid_of_ascii fun c hc ↦ isLowerHex_lt (hhex.2 c hc)

theorem length_quote_lowerHex {b : Bytes} (h : ∀ c ∈ b, isLowerHex c = true) :
    (quote b).length = b.length + 2 := by
  have hescape : ∀ c, isLowerHex c = true → escapeRune (some [c]) = [c] := by
    have hbyte : ∀ n < 256, isLowerHex (UInt8.ofNat n) = true →
        escapeRune (some [UInt8.ofNat n]) = [UInt8.ofNat n] := by decide +kernel
    intro c hc
    simpa [hc] using hbyte c.toNat c.toNat_lt
  have hrunes : ∀ n, b.length ≤ n → (runesFrom n b).flatMap escapeRune = b := by
    induction b with
    | nil =>
      intro n _
      cases n <;> rfl
    | cons c b ih =>
      intro n hn
      obtain ⟨hc, hb⟩ := forall_mem_cons.1 h
      cases n with
      | zero => simp at hn
      | succ n =>
        simp only [runesFrom, decodeRune, isLowerHex_lt hc, if_true, flatMap_cons, hescape c hc]
        rw [ih hb n (by simpa using hn), singleton_append]
  simp [quote, runes, hrunes _ le_rfl]

section Decimal

theorem digit_inj {m n : ℕ} (hm : m < 10) (hn : n < 10) (h : digit m = digit n) : m = n := by
  have hnat := congrArg UInt8.toNat h
  simp only [digit, UInt8.toNat_ofNat'] at hnat
  omega

theorem isDigit_digit {n : ℕ} (h : n < 10) : isDigit (digit n) = true := by
  interval_cases n <;> rfl

theorem digit_ne_minus {n : ℕ} (h : n < 10) : digit n ≠ 0x2d := by
  interval_cases n <;> decide

theorem decimalNat_of_pos {n : ℕ} (h : n ≠ 0) :
    ∃ (d : ℕ) (ds : List ℕ),
      decimalNat n = digit d :: ds.map digit ∧ 0 < d ∧ d < 10 ∧ ∀ e ∈ ds, e < 10 := by
  have hne : (Nat.digits 10 n).reverse ≠ [] := by
    rw [ne_eq, reverse_eq_nil_iff]
    exact Nat.digits_ne_nil_iff_ne_zero.2 h
  obtain ⟨d, ds, heq⟩ := exists_cons_of_ne_nil hne
  have hmem : ∀ e ∈ d :: ds, e < 10 := by
    intro e he
    rw [← heq, mem_reverse] at he
    exact Nat.digits_lt_base (by norm_num) he
  have hlast : Nat.digits 10 n = ds.reverse ++ [d] := by
    rw [← reverse_reverse (Nat.digits 10 n), heq, reverse_cons]
  have hpos : d ≠ 0 := by
    have hd := Nat.getLast_digit_ne_zero 10 h
    simpa only [hlast, getLast_append_singleton] using hd
  refine ⟨d, ds, ?_, by omega, hmem d mem_cons_self,
    fun e he ↦ hmem e (mem_cons_of_mem d he)⟩
  rw [decimalNat, if_neg h, heq, map_cons]

theorem decimalNat_inj {m n : ℕ} (h : decimalNat m = decimalNat n) : m = n := by
  have hzero : ∀ {k : ℕ}, k ≠ 0 → decimalNat 0 ≠ decimalNat k := by
    intro k hk heq
    obtain ⟨d, ds, hd, hpos, hlt, -⟩ := decimalNat_of_pos hk
    rw [hd] at heq
    have hdigit := digit_inj (by norm_num) hlt (cons.inj heq).1
    omega
  by_cases hm : m = 0
  · subst hm
    by_contra hn
    exact hzero (Ne.symm hn) h
  · by_cases hn : n = 0
    · subst hn
      exact absurd h.symm (hzero hm)
    · rw [decimalNat, decimalNat, if_neg hm, if_neg hn, map_reverse, map_reverse, reverse_inj] at h
      apply Nat.digits_inj_iff.1
      refine map_inj_of_mem (fun a ha b hb ↦ ?_) h
      exact digit_inj (Nat.digits_lt_base (by norm_num) ha) (Nat.digits_lt_base (by norm_num) hb)

theorem head_decimalNat (n : ℕ) : ∃ d ds, decimalNat n = digit d :: ds ∧ d < 10 := by
  by_cases h : n = 0
  · exact ⟨0, [], by rw [decimalNat, if_pos h], by norm_num⟩
  · obtain ⟨d, ds, hd, -, hlt, -⟩ := decimalNat_of_pos h
    exact ⟨d, _, hd, hlt⟩

theorem decimal_inj {m n : ℤ} (h : decimal m = decimal n) : m = n := by
  have hsign : ∀ (k l : ℕ), 0x2d :: decimalNat k ≠ decimalNat l := by
    intro k l heq
    obtain ⟨d, ds, hd, hlt⟩ := head_decimalNat l
    rw [hd] at heq
    exact digit_ne_minus hlt (cons.inj heq).1.symm
  unfold decimal at h
  split at h
  · split at h
    · have habs := decimalNat_inj (cons.inj h).2
      omega
    · exact absurd h (hsign _ _)
  · split at h
    · exact absurd h.symm (hsign _ _)
    · have habs := decimalNat_inj h
      omega

theorem skips_of_isDigit {c : UInt8} (h : isDigit c = true) (s : Scanner) : s.skips c = false :=
  skips_hex (by rw [isHex, h]; rfl) s

theorem spans_digits (outer : List ParseState) {ds : List ℕ} (h : ∀ e ∈ ds, e < 10) :
    Spans outer (inside outer .digits) (ds.map digit) (inside outer .digits) := by
  induction ds with
  | nil => exact .nil _
  | cons d ds ih =>
    obtain ⟨hd, h⟩ := forall_mem_cons.1 h
    have hdigit := isDigit_digit hd
    refine .cons ?_ (skips_of_isDigit hdigit _) suffix_rfl (ih h)
    simp only [inside, Scanner.next, hdigit, if_true]

theorem spans_decimalNat (outer : List ParseState) (n : ℕ) {step : ScanStep}
    (hstep : step = .beginValue ∨ step = .neg) :
    ∃ last, ValueEnd last ∧ Spans outer (inside outer step) (decimalNat n) (inside outer last) := by
  by_cases hn : n = 0
  · subst hn
    refine ⟨.zero, by simp [ValueEnd], .single ?_ rfl suffix_rfl⟩
    obtain rfl | rfl := hstep <;> rfl
  · obtain ⟨d, ds, htext, hpos, hlt, hds⟩ := decimalNat_of_pos hn
    rw [htext]
    refine ⟨.digits, by simp [ValueEnd], .cons ?_ (skips_of_isDigit (isDigit_digit hlt) _)
      suffix_rfl (spans_digits outer hds)⟩
    obtain rfl | rfl := hstep <;> interval_cases d <;> rfl

theorem valueText_decimal (n : ℤ) (d : ℕ) : ValueText d (decimal n) := by
  intro outer _ _
  unfold decimal
  split
  · obtain ⟨last, hlast, hspans⟩ := spans_decimalNat outer n.natAbs (.inr rfl)
    exact ⟨last, hlast, .cons rfl rfl suffix_rfl hspans⟩
  · exact spans_decimalNat outer n.natAbs (.inl rfl)

theorem isNull_decimal (n : ℤ) : isNull (decimal n) = false := by
  unfold decimal
  split
  · rfl
  · obtain ⟨d, ds, hd, hlt⟩ := head_decimalNat n.natAbs
    rw [hd]
    interval_cases d <;> rfl

end Decimal

section Bytes

theorem bytesText_inj {x y : Option Bytes} (h : bytesText x = bytesText y) : x = y := by
  cases x with
  | none =>
    cases y with
    | none => rfl
    | some y => exact absurd (cons.inj h).1 (by decide)
  | some x =>
    cases y with
    | none => exact absurd (cons.inj h).1 (by decide)
    | some y => exact congrArg some (base64_inj (append_cancel_right (cons.inj h).2))

theorem valueText_bytesText (b : Option Bytes) (d : ℕ) : ValueText d (bytesText b) := by
  cases b with
  | none =>
    refine fun outer _ _ ↦ ⟨.endValue, by simp [ValueEnd], ?_⟩
    exact .cons rfl rfl suffix_rfl (.cons rfl rfl suffix_rfl
      (.cons rfl rfl suffix_rfl (.single rfl rfl suffix_rfl)))
  | some b => exact (stringBody_base64 b).quoted.value

end Bytes

end GoCell.Kernel
