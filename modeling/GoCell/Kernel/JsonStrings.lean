import GoCell.Kernel.JsonSpans

namespace GoCell.Kernel

open Scanner List

theorem decodeRune_append {s r rest : Bytes} (h : decodeRune s = some (r, rest)) (rest' : Bytes) :
    decodeRune (r ++ rest') = some (r, rest') := by
  cases s with
  | nil => cases h
  | cons a s =>
    simp only [decodeRune] at h
    split at h
    · next ha =>
      cases h
      simp only [cons_append, nil_append, decodeRune, ha, if_true]
    · next ha =>
      split at h
      · cases h
      · next n lo hi hrange =>
        split at h
        · next htail =>
          cases h
          have hlen : (s.take n).length = n := length_take_of_le htail.1
          have htake : (s.take n ++ rest').take n = s.take n := by
            rw [take_append_of_le_length hlen.ge, take_of_length_le hlen.le]
          have hdrop : (s.take n ++ rest').drop n = rest' := by
            rw [drop_append_of_le_length hlen.ge, drop_of_length_le hlen.le, nil_append]
          have hroom : n ≤ (s.take n ++ rest').length := by
            rw [length_append, hlen]
            exact Nat.le_add_right n _
          simp only [cons_append, decodeRune, ha, if_false, hrange, htake, hdrop]
          exact if_pos ⟨hroom, htail.2⟩
        · cases h

def Unquotes (text out : Bytes) : Prop :=
  text ≠ [] ∧ ∀ rest, unquoteStep (text ++ rest) = some (out, rest)

theorem unquotes_escape {e b : UInt8} (hu : e ≠ 0x75) (h : unquoteEscape e = some b) :
    Unquotes [0x5c, e] [b] := by
  refine ⟨by simp, fun rest ↦ ?_⟩
  simp only [cons_append, nil_append, unquoteStep, if_true, hu, if_false, h, Option.map_some]

theorem unquotes_unicode {d₁ d₂ d₃ d₄ : UInt8} {h₁ h₂ h₃ h₄ : ℕ} {out : Bytes}
    (hd₁ : hexValue d₁ = some h₁) (hd₂ : hexValue d₂ = some h₂) (hd₃ : hexValue d₃ = some h₃)
    (hd₄ : hexValue d₄ = some h₄)
    (hout : ∀ rest, unquoteRune (((h₁ * 16 + h₂) * 16 + h₃) * 16 + h₄) rest = (out, rest)) :
    Unquotes [0x5c, 0x75, d₁, d₂, d₃, d₄] out := by
  refine ⟨by simp, fun rest ↦ ?_⟩
  have hdigits : getu4 (0x5c :: 0x75 :: d₁ :: d₂ :: d₃ :: d₄ :: rest) =
      some (((h₁ * 16 + h₂) * 16 + h₃) * 16 + h₄, rest) := by
    simp [getu4, hd₁, hd₂, hd₃, hd₄]
  simp only [cons_append, nil_append, unquoteStep, if_true, hdigits, Option.map_some, hout]

theorem hexValue_hexDigit : ∀ b : UInt8, hexValue (hexDigit (b >>> 4)) = some (b >>> 4).toNat ∧
    hexValue (hexDigit (b &&& 0xf)) = some (b &&& 0xf).toNat :=
  forall_nibble (P := fun n ↦ hexValue (hexDigit n) = some n.toNat) (by decide)

theorem nibbles (b : UInt8) : (b >>> 4).toNat * 16 + (b &&& 0xf).toNat = b.toNat := by
  rw [UInt8.toNat_shiftRight, UInt8.toNat_and]
  change (b.toNat >>> 4) * 16 + (b.toNat &&& 2 ^ 4 - 1) = b.toNat
  rw [Nat.shiftRight_eq_div_pow, Nat.and_two_pow_sub_one_eq_mod]
  omega

section

variable {b : UInt8} (hb : b < 0x80)
include hb

theorem encodeRune_ascii : encodeRune b.toNat = [b] := by
  have hall : ∀ n < 128, encodeRune n = [UInt8.ofNat n] := by decide
  rw [hall b.toNat hb, UInt8.ofNat_toNat]

theorem unquotes_unicodeEscape : Unquotes (unicodeEscape b) [b] := by
  have hzero : hexValue 0x30 = some 0 := rfl
  refine unquotes_unicode hzero hzero (hexValue_hexDigit b).1 (hexValue_hexDigit b).2
    fun rest ↦ ?_
  have hrange : b.toNat < 0x80 := hb
  simp only [Nat.zero_mul, Nat.zero_add, nibbles]
  unfold unquoteRune
  rw [if_neg (by omega), encodeRune_ascii hb]

theorem unquotes_plain (hlow : 0x20 ≤ b) (hquote : b ≠ 0x22)
    (hback : b ≠ 0x5c) : Unquotes [b] [b] := by
  refine ⟨by simp, fun rest ↦ ?_⟩
  simp only [cons_append, nil_append, unquoteStep, hback, hquote, UInt8.not_lt.2 hlow,
    or_self, if_false, decodeRune, hb, if_true, Option.getD_some]

theorem unquotes_escapeByte : Unquotes (escapeByte b) [b] := by
  obtain ⟨e, he, htext, hescape⟩ | htext | ⟨htext, hlow, hquote, hback⟩ := escapeByte_cases b
  · exact htext ▸ unquotes_escape (fun hu ↦ absurd (hu ▸ he) (by decide)) hescape
  · exact htext ▸ unquotes_unicodeEscape hb
  · exact htext ▸ unquotes_plain hb hlow hquote hback

end

def Decoded (r : Bytes) : Prop := IsRune r ∧ ∀ rest, decodeRune (r ++ rest) = some (r, rest)

theorem decoded_of_decodeRune {s r rest : Bytes} (h : decodeRune s = some (r, rest)) : Decoded r :=
  ⟨(decodeRune_cases h).2, decodeRune_append h⟩

theorem unquotes_separator : ∀ c ∈ ([0xa8, 0xa9] : Bytes),
    Unquotes (separatorEscape c) [0xe2, 0x80, c] := by
  intro c hc
  simp only [mem_cons, not_mem_nil, or_false] at hc
  obtain rfl | rfl := hc <;> exact unquotes_unicode rfl rfl rfl rfl fun rest ↦ rfl

theorem unquotes_high {r : Bytes} (h : Decoded r) (hlen : 2 ≤ r.length)
    (hhigh : ∀ c ∈ r, 0x80 ≤ c) : Unquotes r r := by
  cases r with
  | nil => simp at hlen
  | cons a r =>
    refine ⟨by simp, fun rest ↦ ?_⟩
    have hplain := plain_of_high a (hhigh a mem_cons_self)
    have hdecode := h.2 rest
    rw [cons_append] at hdecode ⊢
    simp only [unquoteStep, hplain.2.1, hplain.2.2, UInt8.not_lt.2 hplain.1, or_self, if_false,
      hdecode, Option.getD_some]

theorem unquotes_escapeRune {r : Bytes} (h : Decoded r) : Unquotes (escapeRune (some r)) r := by
  obtain ⟨a, rfl, ha⟩ | ⟨hlen, hhigh⟩ := h.1
  · exact unquotes_escapeByte ha
  · unfold escapeRune
    split
    · next h => cases h
    · next a h =>
      cases h
      simp at hlen
    · next a b c heq =>
      cases heq
      split
      · next hseparator =>
        simp only [isSeparator, Bool.and_eq_true, Bool.or_eq_true, decide_eq_true_eq] at hseparator
        obtain ⟨⟨rfl, rfl⟩, hc⟩ := hseparator
        exact unquotes_separator c (by simpa using hc)
      · exact unquotes_high h hlen hhigh
    · next r' _ _ heq =>
      cases heq
      exact unquotes_high h hlen hhigh

theorem unquotes_escapeRune_getD {r : Option Bytes} (h : ∀ b ∈ r, Decoded b) :
    Unquotes (escapeRune r) (r.getD replacement) := by
  cases r with
  | none => exact unquotes_unicode rfl rfl rfl rfl fun rest ↦ rfl
  | some r => exact unquotes_escapeRune (h r rfl)

theorem unquoteFrom_runes {rs : List (Option Bytes)} (hrs : ∀ r ∈ rs, ∀ b ∈ r, Decoded b) {n : ℕ}
    (hn : (rs.flatMap escapeRune).length ≤ n) :
    unquoteFrom n (rs.flatMap escapeRune) = some (rs.flatMap (·.getD replacement)) := by
  induction rs generalizing n with
  | nil => cases n <;> rfl
  | cons r rs ih =>
    obtain ⟨hr, hrs⟩ := forall_mem_cons.1 hrs
    obtain ⟨hne, hstep⟩ := unquotes_escapeRune_getD hr
    obtain ⟨c, text, htext⟩ := exists_cons_of_ne_nil hne
    have hstep := hstep (rs.flatMap escapeRune)
    rw [flatMap_cons, htext, cons_append] at hn ⊢
    rw [htext, cons_append] at hstep
    simp only [length_cons, length_append] at hn
    cases n with
    | zero => omega
    | succ n =>
      simp only [unquoteFrom, hstep, Option.bind_eq_bind, Option.bind_some]
      rw [ih hrs (by omega)]
      rfl

theorem decoded_of_mem_runes {s b : Bytes} {r : Option Bytes} (hr : r ∈ runes s) (hb : b ∈ r) :
    Decoded b := by
  obtain ⟨t, rest, hdecode⟩ := decodeRune_of_mem_runesFrom (Option.mem_def.1 hb ▸ hr)
  exact decoded_of_decodeRune hdecode

def toValidUTF8 (s : Bytes) : Bytes := (runes s).flatMap (·.getD replacement)

theorem unquote_quote_eq (s : Bytes) : unquote (quote s) = some (toValidUTF8 s) := by
  rw [quote, unquote, if_pos ⟨rfl, getLast?_concat⟩, dropLast_concat,
    unquoteFrom_runes (fun r hr b hb ↦ decoded_of_mem_runes hr hb) (by simp), toValidUTF8]

theorem ne_nil_of_decoded {r : Bytes} (h : Decoded r) : r ≠ [] := by
  rintro rfl
  obtain ⟨a, ha, -⟩ | ⟨hlen, -⟩ := h.1
  · cases ha
  · simp at hlen

theorem runesFrom_flatten {rs : List Bytes} (hrs : ∀ r ∈ rs, Decoded r) {n : ℕ}
    (hn : rs.flatten.length ≤ n) : runesFrom n rs.flatten = rs.map some := by
  induction rs generalizing n with
  | nil => cases n <;> rfl
  | cons r rs ih =>
    obtain ⟨hr, hrest⟩ := forall_mem_cons.1 hrs
    obtain ⟨a, r', rfl⟩ := exists_cons_of_ne_nil (ne_nil_of_decoded hr)
    have hdecode := hr.2 rs.flatten
    rw [flatten_cons, length_append, length_cons] at hn
    rw [cons_append] at hdecode
    cases n with
    | zero => omega
    | succ n =>
      rw [flatten_cons, cons_append, runesFrom]
      simp only [hdecode, ih hrest (show rs.flatten.length ≤ n by omega), map_cons]

theorem utf8Valid_toValidUTF8 (s : Bytes) : utf8Valid (toValidUTF8 s) = true := by
  have hflatten : toValidUTF8 s = ((runes s).map (·.getD replacement)).flatten :=
    flatMap_def
  have hdecoded : ∀ r ∈ (runes s).map (·.getD replacement), Decoded r := by
    intro r hr
    obtain ⟨o, ho, rfl⟩ := mem_map.1 hr
    cases o with
    | none => exact decoded_of_decodeRune (s := replacement) rfl
    | some b => exact decoded_of_mem_runes ho rfl
  rw [utf8Valid, runes, hflatten, runesFrom_flatten hdecoded le_rfl, all_map]
  exact all_eq_true.2 fun _ _ ↦ rfl

theorem length_le_escapeRune (r : Bytes) : r.length ≤ (escapeRune (some r)).length := by
  have hbyte : ∀ b : UInt8, 1 ≤ (escapeByte b).length := by
    intro b
    unfold escapeByte unicodeEscape
    repeat' split
    all_goals simp
  unfold escapeRune
  split
  · next h => cases h
  · next a h =>
    cases h
    exact hbyte a
  · next a b c h =>
    cases h
    split <;> simp [separatorEscape]
  · next r' _ _ h =>
    cases h
    exact le_rfl

theorem length_le_quote (s : Bytes) : s.length ≤ (quote s).length := by
  have hrunes : ∀ n, s.length ≤ n → s.length ≤ ((runesFrom n s).flatMap escapeRune).length := by
    intro n hn
    fun_induction runesFrom n s with
    | case1 => exact Nat.zero_le _
    | case2 a rest => simp at hn
    | case3 n a rest r rest' hdecode ih =>
      have hlength := congrArg length (decodeRune_cases hdecode).1
      have hr := length_pos_iff.2 (ne_nil_of_decoded (decoded_of_decodeRune hdecode))
      have hescape := length_le_escapeRune r
      simp only [length_cons, length_append, flatMap_cons] at *
      have hrest := ih (by omega)
      omega
    | case4 n a rest hdecode ih =>
      have hrest := ih (Nat.le_of_succ_le_succ hn)
      have hescape : (escapeRune none).length = 6 := rfl
      simp only [length_cons, length_append, flatMap_cons] at *
      omega
  have hbody := hrunes s.length le_rfl
  rw [quote, length_cons, length_append, runes]
  omega

theorem runesFrom_of_valid {n : ℕ} {s : Bytes} (hn : s.length ≤ n)
    (h : (runesFrom n s).all Option.isSome = true) :
    ∃ rs : List Bytes, runesFrom n s = rs.map some ∧ rs.flatten = s ∧ ∀ r ∈ rs, Decoded r := by
  fun_induction runesFrom n s with
  | case1 => exact ⟨[], rfl, rfl, fun r hr ↦ absurd hr not_mem_nil⟩
  | case2 a rest => simp at hn
  | case3 n a rest r rest' hdecode ih =>
    obtain ⟨hsplit, -⟩ := decodeRune_cases hdecode
    have hr := ne_nil_of_decoded (decoded_of_decodeRune hdecode)
    have hlen : rest'.length ≤ n := by
      have := congrArg length hsplit
      have := length_pos_iff.2 hr
      simp only [length_cons, length_append] at *
      omega
    rw [all_cons, Bool.and_eq_true] at h
    obtain ⟨rs, hrs, hflat, hdecoded⟩ := ih hlen h.2
    refine ⟨r :: rs, by rw [hrs, map_cons], ?_, ?_⟩
    · rw [flatten_cons, hflat, hsplit]
    · exact forall_mem_cons.2 ⟨decoded_of_decodeRune hdecode, hdecoded⟩
  | case4 n a rest hdecode ih => simp at h

theorem toValidUTF8_eq_iff {s : Bytes} : toValidUTF8 s = s ↔ utf8Valid s = true := by
  constructor
  · intro h
    rw [← h]
    exact utf8Valid_toValidUTF8 s
  · intro h
    obtain ⟨rs, hrs, hflat, -⟩ := runesFrom_of_valid le_rfl h
    rw [toValidUTF8, runes, hrs, flatMap_map, flatMap_def]
    simpa only [Option.getD_some, map_id'] using hflat

theorem unquote_quote {s : Bytes} (h : utf8Valid s = true) : unquote (quote s) = some s := by
  rw [unquote_quote_eq, toValidUTF8_eq_iff.2 h]

theorem unquoteFrom_plain {text : Bytes} {n : ℕ} (hn : text.length ≤ n)
    (h : ∀ c ∈ text, c < 0x80 ∧ 0x20 ≤ c ∧ c ≠ 0x22 ∧ c ≠ 0x5c) :
    unquoteFrom n text = some text := by
  induction text generalizing n with
  | nil => cases n <;> rfl
  | cons c text ih =>
    obtain ⟨⟨hascii, hlow, hquote, hback⟩, h⟩ := forall_mem_cons.1 h
    cases n with
    | zero => simp at hn
    | succ n =>
      have hstep := (unquotes_plain hascii hlow hquote hback).2 text
      rw [singleton_append] at hstep
      simp only [unquoteFrom, hstep, Option.bind_eq_bind, Option.bind_some]
      rw [ih (Nat.le_of_succ_le_succ hn) h]
      rfl

theorem unquote_plain {text : Bytes} (h : ∀ c ∈ text, c < 0x80 ∧ 0x20 ≤ c ∧ c ≠ 0x22 ∧ c ≠ 0x5c) :
    unquote (0x22 :: (text ++ [0x22])) = some text := by
  rw [unquote, if_pos ⟨rfl, getLast?_concat⟩, dropLast_concat, unquoteFrom_plain (by simp) h]

/-- Escapes are told apart at the front of a text: one that is read back as the replacement
character is that character or a stray byte. -/
theorem escapeRune_append_inj {r r' : Option Bytes} (h : ∀ b ∈ r, Decoded b)
    (h' : ∀ b ∈ r', Decoded b) {text text' : Bytes}
    (heq : escapeRune r ++ text = escapeRune r' ++ text') : r = r' ∧ text = text' := by
  have hread := (unquotes_escapeRune_getD h).2 text
  rw [heq, (unquotes_escapeRune_getD h').2 text', Option.some.injEq, Prod.mk.injEq] at hread
  obtain ⟨hout, rfl⟩ := hread
  have hescape := append_cancel_right heq
  refine ⟨?_, rfl⟩
  cases r with
  | none =>
    cases r' with
    | none => rfl
    | some r' =>
      obtain rfl : r' = replacement := hout
      exact absurd hescape (by decide)
  | some r =>
    cases r' with
    | none =>
      obtain rfl : replacement = r := hout
      exact absurd hescape (by decide)
    | some r' => exact congrArg some hout.symm

theorem flatMap_escapeRune_inj {rs rs' : List (Option Bytes)}
    (h : ∀ r ∈ rs, ∀ b ∈ r, Decoded b) (h' : ∀ r ∈ rs', ∀ b ∈ r, Decoded b)
    (heq : rs.flatMap escapeRune = rs'.flatMap escapeRune) : rs = rs' := by
  induction rs generalizing rs' with
  | nil =>
    cases rs' with
    | nil => rfl
    | cons r' rs' =>
      have hne := (unquotes_escapeRune_getD (h' r' mem_cons_self)).1
      simp [hne] at heq
  | cons r rs ih =>
    obtain ⟨hr, h⟩ := forall_mem_cons.1 h
    cases rs' with
    | nil =>
      have hne := (unquotes_escapeRune_getD hr).1
      simp [hne] at heq
    | cons =>
      obtain ⟨hr', hrs'⟩ := forall_mem_cons.1 h'
      rw [flatMap_cons, flatMap_cons] at heq
      obtain ⟨hhead, htail⟩ := escapeRune_append_inj hr hr' heq
      rw [hhead, ih h hrs' htail]

/-- Strings are written alike exactly when their runes are, all stray bytes counting as one rune. -/
theorem quote_eq_iff {s t : Bytes} : quote s = quote t ↔ runes s = runes t := by
  constructor
  · intro h
    exact flatMap_escapeRune_inj (fun r hr b hb ↦ decoded_of_mem_runes hr hb)
      (fun r hr b hb ↦ decoded_of_mem_runes hr hb) (append_cancel_right (cons.inj h).2)
  · intro h
    rw [quote, quote, h]

theorem runes_inj {s t : Bytes} (ht : utf8Valid t = true) (h : runes s = runes t) : s = t := by
  have hs : utf8Valid s = true := by rwa [utf8Valid, h]
  have hunquote := unquote_quote hs
  rw [quote_eq_iff.2 h, unquote_quote ht] at hunquote
  exact (Option.some.inj hunquote).symm

end GoCell.Kernel
