import GoCell.Kernel.JsonText
import Mathlib.Data.List.Infix

namespace GoCell.Kernel

theorem forall_nibble {P : UInt8 → Prop} (h : ∀ n < 16, P (UInt8.ofNat n)) (b : UInt8) :
    P (b >>> 4) ∧ P (b &&& 0xf) := by
  have hdigit : ∀ c : UInt8, c.toNat < 16 → P c := by
    intro c hc
    have hp := h c.toNat hc
    rwa [UInt8.ofNat_toNat] at hp
  constructor
  · apply hdigit
    have hb := b.toNat_lt
    rw [UInt8.toNat_shiftRight]
    change b.toNat >>> 4 < 16
    rw [Nat.shiftRight_eq_div_pow]
    omega
  · apply hdigit
    rw [UInt8.toNat_and]
    exact Nat.lt_succ_of_le Nat.and_le_right

variable {c : UInt8} {text : Bytes}

namespace Scanner

/-- The scanner reads `text` from `s` to `s'` without leaving what is nested in `outer`, and no byte
of it is a blank between two tokens. -/
inductive Spans (outer : List ParseState) : Scanner → Bytes → Scanner → Prop
  | nil (s : Scanner) : Spans outer s [] s
  | cons {s s₁ s' : Scanner} {c : UInt8} {text : Bytes} (hnext : s.next c = some s₁)
      (hskips : s.skips c = false) (hinside : outer <:+ s₁.parseState)
      (hrest : Spans outer s₁ text s') : Spans outer s (c :: text) s'

namespace Spans

variable {outer : List ParseState} {s s₁ s' : Scanner} {text text' : Bytes}

theorem single (hnext : s.next c = some s') (hskips : s.skips c = false)
    (hinside : outer <:+ s'.parseState) : Spans outer s [c] s' :=
  cons hnext hskips hinside (nil s')

theorem append (h : Spans outer s text s₁) (h' : Spans outer s₁ text' s') :
    Spans outer s (text ++ text') s' := by
  induction h with
  | nil s => exact h'
  | cons hnext hskips hinside _ ih => exact cons hnext hskips hinside (ih h')

theorem weaken {outer' : List ParseState} (h : Spans outer' s text s')
    (hsuffix : outer <:+ outer') : Spans outer s text s' := by
  induction h with
  | nil s => exact nil s
  | cons hnext hskips hinside _ ih => exact cons hnext hskips (hsuffix.trans hinside) ih

end Spans

def ValueEnd (step : ScanStep) : Prop :=
  step ∈ [.endValue, .digits, .zero, .dotDigits, .expDigits, .literal []]

def isDelimiter (c : UInt8) : Prop := c = 0x2c ∨ c = 0x3a ∨ c = 0x7d ∨ c = 0x5d

theorem next_of_valueEnd {s : Scanner} (h : ValueEnd s.step) (hc : isDelimiter c) :
    s.next c = s.stateEndValue c := by
  simp only [ValueEnd, List.mem_cons, List.not_mem_nil, or_false] at h
  obtain h | h | h | h | h | h := h <;> obtain rfl | rfl | rfl | rfl := hc <;>
    simp [next, h, stateZero, isDigit]

def inside (outer : List ParseState) (step : ScanStep) : Scanner := ⟨step, outer, false⟩

section

variable {outer : List ParseState} {s : Scanner} {d : ℕ}

def StringBody (text : Bytes) : Prop :=
  ∀ outer, Spans outer (inside outer .inString) text (inside outer .inString)

theorem stringBody_nil : StringBody [] := fun _ ↦ .nil _

theorem StringBody.append {text text' : Bytes} (h : StringBody text) (h' : StringBody text') :
    StringBody (text ++ text') :=
  fun outer ↦ (h outer).append (h' outer)

theorem skips_inString (c : UInt8) (outer : List ParseState) :
    (inside outer .inString).skips c = false := by
  simp [skips, inside]

theorem next_inString (h : 0x20 ≤ c) (hquote : c ≠ 0x22) (hback : c ≠ 0x5c)
    (hs : s.step = .inString) : s.next c = some s := by
  simp only [next, hs, hquote, hback, if_false, UInt8.not_lt.2 h]

theorem stringBody_plain (h : 0x20 ≤ c) (hquote : c ≠ 0x22) (hback : c ≠ 0x5c) :
    StringBody [c] :=
  fun outer ↦ .single (next_inString h hquote hback rfl) (skips_inString c outer) List.suffix_rfl

theorem stringBody_escape {e : UInt8}
    (he : e ∈ ([0x62, 0x66, 0x6e, 0x72, 0x74, 0x5c, 0x2f, 0x22] : Bytes)) :
    StringBody [0x5c, e] := by
  intro outer
  have hspace : isSpace e = false := by
    have hall : ([0x62, 0x66, 0x6e, 0x72, 0x74, 0x5c, 0x2f, 0x22] : Bytes).all (!isSpace ·) := rfl
    simpa using List.all_eq_true.1 hall e he
  have hback : (inside outer .inString).next 0x5c = some (inside outer .inStringEsc) := rfl
  refine .cons hback (skips_inString _ outer) List.suffix_rfl ?_
  refine .single ?_ ?_ List.suffix_rfl
  · simp only [inside, next, stateInStringEsc, he, if_true, goto]
  · simp [skips, hspace]

theorem skips_hex (h : isHex c = true) (s : Scanner) : s.skips c = false := by
  have hspace : isSpace c = false := by
    rw [← Bool.not_eq_true]
    intro hspace
    simp only [isSpace, Bool.or_eq_true, decide_eq_true_eq] at hspace
    obtain ((rfl | rfl) | rfl) | rfl := hspace <;> cases h
  simp [skips, hspace]

theorem spans_hex (h : isHex c = true) (outer : List ParseState) (n : ℕ) :
    Spans outer (inside outer (.inStringEscU n)) [c]
      (inside outer (if n = 0 then .inString else .inStringEscU (n - 1))) := by
  refine .single ?_ (skips_hex h _) List.suffix_rfl
  simp only [inside, next, h, if_true, goto]

theorem stringBody_unicode {d₁ d₂ d₃ d₄ : UInt8} (h₁ : isHex d₁ = true) (h₂ : isHex d₂ = true)
    (h₃ : isHex d₃ = true) (h₄ : isHex d₄ = true) :
    StringBody [0x5c, 0x75, d₁, d₂, d₃, d₄] := by
  intro outer
  have hback : (inside outer .inString).next 0x5c = some (inside outer .inStringEsc) := rfl
  have hu : (inside outer .inStringEsc).next 0x75 = some (inside outer (.inStringEscU 3)) := rfl
  refine .cons hback (skips_inString _ outer) List.suffix_rfl ?_
  refine .cons hu rfl List.suffix_rfl ?_
  exact (spans_hex h₁ outer 3).append ((spans_hex h₂ outer 2).append
    ((spans_hex h₃ outer 1).append (spans_hex h₄ outer 0)))

theorem isHex_hexDigit : ∀ b : UInt8,
    isHex (hexDigit (b >>> 4)) = true ∧ isHex (hexDigit (b &&& 0xf)) = true :=
  forall_nibble (P := fun n ↦ isHex (hexDigit n) = true) (by decide)

theorem stringBody_unicodeEscape (b : UInt8) : StringBody (unicodeEscape b) :=
  stringBody_unicode rfl rfl (isHex_hexDigit b).1 (isHex_hexDigit b).2

theorem stringBody_separatorEscape (b : UInt8) : StringBody (separatorEscape b) :=
  stringBody_unicode rfl rfl rfl (isHex_hexDigit b).2

/-- A byte is escaped with a letter or with its code, or it stands for itself. -/
theorem escapeByte_cases (b : UInt8) :
    (∃ e ∈ ([0x62, 0x66, 0x6e, 0x72, 0x74, 0x5c, 0x2f, 0x22] : Bytes),
      escapeByte b = [0x5c, e] ∧ unquoteEscape e = some b) ∨ escapeByte b = unicodeEscape b ∨
        escapeByte b = [b] ∧ 0x20 ≤ b ∧ b ≠ 0x22 ∧ b ≠ 0x5c := by
  obtain ⟨v⟩ := b
  revert v
  decide +kernel

theorem stringBody_escapeByte (b : UInt8) : StringBody (escapeByte b) := by
  obtain ⟨e, he, htext, -⟩ | htext | ⟨htext, hlow, hquote, hback⟩ := escapeByte_cases b
  · exact htext ▸ stringBody_escape he
  · exact htext ▸ stringBody_unicodeEscape b
  · exact htext ▸ stringBody_plain hlow hquote hback

theorem plain_of_high (c : UInt8) (h : 0x80 ≤ c) : 0x20 ≤ c ∧ c ≠ 0x22 ∧ c ≠ 0x5c := by
  refine ⟨UInt8.le_trans (by decide) h, ?_, ?_⟩
  · rintro rfl
    exact absurd h (by decide)
  · rintro rfl
    exact absurd h (by decide)

theorem stringBody_plains (h : ∀ c ∈ text, 0x20 ≤ c ∧ c ≠ 0x22 ∧ c ≠ 0x5c) : StringBody text := by
  induction text with
  | nil => exact stringBody_nil
  | cons c text ih =>
    obtain ⟨⟨hlow, hquote, hback⟩, h⟩ := List.forall_mem_cons.1 h
    exact (stringBody_plain hlow hquote hback).append (ih h)

theorem stringBody_high (h : ∀ c ∈ text, 0x80 ≤ c) : StringBody text :=
  stringBody_plains fun c hc ↦ plain_of_high c (h c hc)

theorem high_of_tail {lo hi : UInt8} (hlo : 0x80 ≤ lo) :
    ∀ {tail : Bytes}, isTail lo hi tail = true → ∀ c ∈ tail, 0x80 ≤ c
  | b :: tail, h => by
    simp only [isTail, Bool.and_eq_true, decide_eq_true_eq, List.all_eq_true] at h
    rw [List.forall_mem_cons]
    exact ⟨UInt8.le_trans hlo h.1.1, fun c hc ↦ (h.2 c hc).1⟩

theorem high_of_acceptRange {a : UInt8} {n : ℕ} {lo hi : UInt8}
    (h : acceptRange a = some (n, lo, hi)) : 0x80 ≤ lo ∧ n ≠ 0 := by
  unfold acceptRange at h
  repeat' split at h
  all_goals cases h
  all_goals decide

def IsRune (r : Bytes) : Prop := (∃ a, r = [a] ∧ a < 0x80) ∨ (2 ≤ r.length ∧ ∀ c ∈ r, 0x80 ≤ c)

theorem decodeRune_cases {s r rest : Bytes} (h : decodeRune s = some (r, rest)) :
    s = r ++ rest ∧ IsRune r := by
  cases s with
  | nil => cases h
  | cons a s =>
    simp only [decodeRune] at h
    split at h
    · next ha =>
      cases h
      exact ⟨rfl, .inl ⟨a, rfl, ha⟩⟩
    · next ha =>
      split at h
      · cases h
      · next n lo hi hrange =>
        obtain ⟨hlo, hn⟩ := high_of_acceptRange hrange
        split at h
        · next htail =>
          cases h
          refine ⟨by simp, .inr ⟨?_, ?_⟩⟩
          · simp only [List.length_cons, List.length_take]
            omega
          · rw [List.forall_mem_cons]
            exact ⟨UInt8.not_lt.1 ha, high_of_tail hlo htail.2⟩
        · cases h

theorem decodeRune_of_mem_runesFrom {n : ℕ} {s r : Bytes} (h : some r ∈ runesFrom n s) :
    ∃ t rest, decodeRune t = some (r, rest) := by
  fun_induction runesFrom n s with
  | case1 | case2 => cases h
  | case3 n a rest r' rest' hdecode ih =>
    rw [List.mem_cons, Option.some.injEq] at h
    obtain rfl | h := h
    · exact ⟨_, _, hdecode⟩
    · exact ih h
  | case4 n a rest hdecode ih =>
    rw [List.mem_cons] at h
    obtain h | h := h
    · cases h
    · exact ih h

theorem isRune_of_mem_runesFrom {n : ℕ} {s r : Bytes} (h : some r ∈ runesFrom n s) : IsRune r := by
  obtain ⟨t, rest, hdecode⟩ := decodeRune_of_mem_runesFrom h
  exact (decodeRune_cases hdecode).2

theorem stringBody_escapeRune {r : Bytes} (h : IsRune r) : StringBody (escapeRune (some r)) := by
  obtain ⟨a, rfl, -⟩ | ⟨hlen, hhigh⟩ := h
  · exact stringBody_escapeByte a
  · unfold escapeRune
    split
    · next h => cases h
    · next a h =>
      cases h
      simp at hlen
    · next a b c h =>
      cases h
      split
      · exact stringBody_separatorEscape c
      · exact stringBody_high hhigh
    · next r' _ _ h =>
      cases h
      exact stringBody_high hhigh

theorem stringBody_runes (s : Bytes) : StringBody ((runes s).flatMap escapeRune) := by
  have hall : ∀ rs : List (Option Bytes), (∀ r, some r ∈ rs → IsRune r) →
      StringBody (rs.flatMap escapeRune) := by
    intro rs hrs
    induction rs with
    | nil => exact stringBody_nil
    | cons r rs ih =>
      rw [List.flatMap_cons]
      refine StringBody.append ?_ (ih fun r' hr' ↦ hrs r' (List.mem_cons_of_mem r hr'))
      cases r with
      | none => exact stringBody_unicode rfl rfl rfl rfl
      | some r => exact stringBody_escapeRune (hrs r List.mem_cons_self)
  exact hall (runes s) fun r hr ↦ isRune_of_mem_runesFrom hr

def StringText (text : Bytes) : Prop :=
  ∀ outer step, step ∈ [ScanStep.beginValue, .beginString, .beginStringOrEmpty] →
    Spans outer (inside outer step) text (inside outer .endValue)

theorem StringBody.quoted {body : Bytes} (h : StringBody body) :
    StringText (0x22 :: (body ++ [0x22])) := by
  intro outer step hstep
  have hopen : (inside outer step).next 0x22 = some (inside outer .inString) := by
    simp only [List.mem_cons, List.not_mem_nil, or_false] at hstep
    obtain rfl | rfl | rfl := hstep <;> rfl
  have hclose : Spans outer (inside outer .inString) [0x22] (inside outer .endValue) :=
    .single rfl (skips_inString _ outer) List.suffix_rfl
  exact .cons hopen rfl List.suffix_rfl ((h outer).append hclose)

theorem stringText_quote (s : Bytes) : StringText (quote s) := (stringBody_runes s).quoted

/-- A text that is a JSON value nested at most `d` deep, without blanks between its tokens. -/
def ValueText (d : ℕ) (text : Bytes) : Prop :=
  ∀ outer, outer ≠ [] → outer.length + d ≤ maxNestingDepth →
    ∃ step, ValueEnd step ∧ Spans outer (inside outer .beginValue) text (inside outer step)

theorem ValueText.mono {d' : ℕ} (h : ValueText d text) (hd : d ≤ d') :
    ValueText d' text :=
  fun outer hne hlen ↦ h outer hne (by omega)

theorem StringText.value (h : StringText text) : ValueText d text :=
  fun outer _ _ ↦ ⟨.endValue, by simp [ValueEnd], h outer .beginValue (by simp)⟩

section

variable {step : ScanStep} (h : ValueEnd step)
include h

theorem next_comma :
    (inside (.objectValue :: outer) step).next 0x2c =
      some (inside (.objectKey :: outer) .beginString) :=
  next_of_valueEnd h (.inl rfl)

theorem next_brace (hne : outer ≠ []) :
    (inside (.objectValue :: outer) step).next 0x7d = some (inside outer .endValue) := by
  refine (next_of_valueEnd h (.inr (.inr (.inl rfl)))).trans ?_
  cases outer with
  | nil => exact absurd rfl hne
  | cons p ps => rfl

theorem next_brace_top :
    (inside [.objectValue] step).next 0x7d = some ⟨.endTop, [], true⟩ :=
  next_of_valueEnd h (.inr (.inr (.inl rfl)))

end

/-- The members of an object that `objectText` writes: strings as keys, values nested at most `d`
deep. -/
def MemberTexts (d : ℕ) (ms : List (Bytes × Bytes)) : Prop :=
  ∀ m ∈ ms, StringText m.1 ∧ ValueText d m.2

theorem next_colon : (inside (.objectKey :: outer) .endValue).next 0x3a =
    some (inside (.objectValue :: outer) .beginValue) := rfl

section

variable (outer) {key value : Bytes} (hkey : StringText key) (hvalue : ValueText d value)
  (hlen : outer.length + 1 + d ≤ maxNestingDepth) {begin : ScanStep}
  (hbegin : begin ∈ [ScanStep.beginValue, .beginString, .beginStringOrEmpty])
include hkey hvalue hlen hbegin

theorem spans_member :
    ∃ step, ValueEnd step ∧ Spans (.objectKey :: outer) (inside (.objectKey :: outer) begin) key
        (inside (.objectKey :: outer) .endValue) ∧
      Spans (.objectValue :: outer) (inside (.objectValue :: outer) .beginValue) value
        (inside (.objectValue :: outer) step) := by
  obtain ⟨step, hend, hspans⟩ := hvalue (.objectValue :: outer) (List.cons_ne_nil _ _) hlen
  exact ⟨step, hend, hkey (.objectKey :: outer) begin hbegin, hspans⟩

theorem spans_key_value :
    ∃ step, ValueEnd step ∧ Spans outer (inside (.objectKey :: outer) begin) (key ++ 0x3a :: value)
      (inside (.objectValue :: outer) step) := by
  obtain ⟨step, hend, hkey, hvalue⟩ := spans_member outer hkey hvalue hlen hbegin
  have hkey' := hkey.weaken (List.suffix_cons ParseState.objectKey outer)
  have hvalue' := hvalue.weaken (List.suffix_cons ParseState.objectValue outer)
  exact ⟨step, hend, hkey'.append (.cons next_colon rfl (List.suffix_cons _ _) hvalue')⟩

end

theorem spans_memberTail {ms : List (Bytes × Bytes)} (hms : MemberTexts d ms) (hne : outer ≠ [])
    (hlen : outer.length + 1 + d ≤ maxNestingDepth) {step : ScanStep} (hstep : ValueEnd step) :
    Spans outer (inside (.objectValue :: outer) step) (memberTail ms) (inside outer .endValue) := by
  induction ms generalizing step with
  | nil => exact .single (next_brace hstep hne) rfl List.suffix_rfl
  | cons m ms ih =>
    obtain ⟨hm, hms⟩ := List.forall_mem_cons.1 hms
    obtain ⟨step', hend, hspans⟩ := spans_key_value outer hm.1 hm.2 hlen
      (by simp : ScanStep.beginString ∈ _)
    have htail := hspans.append (ih hms hend)
    rw [List.append_assoc, List.cons_append] at htail
    exact .cons (next_comma hstep) rfl (List.suffix_cons _ _) htail

theorem next_open (outer : List ParseState) (h : outer.length + 1 ≤ maxNestingDepth) :
    (inside outer .beginValue).next 0x7b =
      some (inside (.objectKey :: outer) .beginStringOrEmpty) := by
  show (inside outer .beginValue).pushParseState .beginStringOrEmpty .objectKey = _
  exact if_pos h

theorem valueText_object {ms : List (Bytes × Bytes)} (hms : MemberTexts d ms) :
    ValueText (d + 1) (objectText ms) := by
  intro outer hne hlen
  refine ⟨.endValue, by simp [ValueEnd], ?_⟩
  have hopen := next_open outer (by omega)
  cases ms with
  | nil =>
    refine .cons hopen rfl (List.suffix_cons _ _) (.single ?_ rfl List.suffix_rfl)
    cases outer with
    | nil => exact absurd rfl hne
    | cons p ps => rfl
  | cons m ms =>
    obtain ⟨hm, hms⟩ := List.forall_mem_cons.1 hms
    obtain ⟨step, hend, hspans⟩ := spans_key_value outer hm.1 hm.2 (by omega)
      (by simp : ScanStep.beginStringOrEmpty ∈ _)
    have htail := hspans.append (spans_memberTail hms hne (by omega) hend)
    rw [List.append_assoc, List.cons_append] at htail
    exact .cons hopen rfl (List.suffix_cons _ _) htail

end

end Scanner

namespace Slicer

open Scanner List Option

variable {d : ℕ} {z : Slicer}

theorem scanner_next {z' : Slicer} (h : z.next c = some z') :
    z.scanner.next c = some z'.scanner := by
  unfold Slicer.next at h
  cases hs : z.scanner.next c with
  | none => simp [hs] at h
  | some s =>
    simp only [hs, bind_eq_bind, bind_some] at h
    repeat' split at h
    all_goals cases h
    all_goals rfl

theorem scanner_foldlM {z' : Slicer} (h : text.foldlM Slicer.next z = some z') :
    text.foldlM Scanner.next z.scanner = some z'.scanner := by
  induction text generalizing z with
  | nil =>
    cases h
    rfl
  | cons c text ih =>
    simp only [foldlM_cons, bind_eq_bind, bind_eq_some_iff] at h ⊢
    obtain ⟨z₁, hz₁, h⟩ := h
    exact ⟨z₁.scanner, scanner_next hz₁, ih h⟩

theorem suffix_unique {p q r : ParseState} (hq : [p] <:+ [q]) (hr : [p] <:+ [r]) : [q] = [r] :=
  (hq.eq_of_length rfl).symm.trans (hr.eq_of_length rfl)

theorem next_inside {p : ParseState} {s : Scanner} (hz : [p] <:+ z.scanner.parseState)
    (hnext : z.scanner.next c = some s) (hskips : z.scanner.skips c = false)
    (hs : [p] <:+ s.parseState) :
    z.next c = some { z with scanner := s, slot := z.slot ++ [c] } := by
  simp only [Slicer.next, hnext, bind_eq_bind, bind_some, hskips]
  -- the brackets and the delimiters of the object itself would change what both stacks end with
  split
  · next h => simp [h] at hz
  · next h h' => exact absurd (suffix_unique (h ▸ hz) (h' ▸ hs)) (by decide)
  · next h h' => exact absurd (suffix_unique (h ▸ hz) (h' ▸ hs)) (by decide)
  · next h h' => simp [h'] at hs
  · rfl
  · rfl

theorem foldlM_spans {p : ParseState} {s s' : Scanner} (h : Spans [p] s text s')
    (hs : [p] <:+ s.parseState) (hz : z.scanner = s) :
    text.foldlM Slicer.next z = some { z with scanner := s', slot := z.slot ++ text } := by
  induction h generalizing z with
  | nil s =>
    subst hz
    simp
  | cons hnext hskips hinside hrest ih =>
    subst hz
    rw [foldlM_cons, next_inside hs hnext hskips hinside, bind_eq_bind, bind_some, ih hinside rfl]
    simp

theorem foldlM_member {key value : Bytes} (hkey : StringText key) (hvalue : ValueText d value)
    (hlen : 1 + d ≤ maxNestingDepth) {begin : ScanStep}
    (hbegin : begin ∈ [ScanStep.beginValue, .beginString, .beginStringOrEmpty])
    (ms : List (Bytes × Bytes)) (rest : Bytes) :
    ∃ step, ValueEnd step ∧ (key ++ 0x3a :: (value ++ rest)).foldlM Slicer.next
          { scanner := inside [.objectKey] begin, members := ms } =
        rest.foldlM Slicer.next
          { scanner := inside [.objectValue] step, members := ms, key := key, slot := value } := by
  obtain ⟨step, hend, hkey, hvalue⟩ := spans_member [] hkey hvalue hlen hbegin
  refine ⟨step, hend, ?_⟩
  rw [foldlM_append, foldlM_spans hkey suffix_rfl rfl, bind_eq_bind, bind_some, foldlM_cons]
  have hcolon : Slicer.next { scanner := inside [.objectKey] .endValue, members := ms, slot := key }
      0x3a = some { scanner := inside [.objectValue] .beginValue, members := ms, key := key } := rfl
  rw [nil_append, hcolon, bind_eq_bind, bind_some, foldlM_append,
    foldlM_spans hvalue suffix_rfl rfl]
  rfl

section

variable {ms : List (Bytes × Bytes)} (hms : MemberTexts d ms) (hlen : 1 + d ≤ maxNestingDepth)
include hms hlen

theorem foldlM_memberTail {step : ScanStep} (hstep : ValueEnd step)
    (done : List (Bytes × Bytes)) (key value : Bytes) :
    (memberTail ms).foldlM Slicer.next
        { scanner := inside [.objectValue] step, members := done, key := key, slot := value } =
      some { scanner := ⟨.endTop, [], true⟩, members := done ++ (key, value) :: ms } := by
  induction ms generalizing step done key value with
  | nil =>
    rw [memberTail, foldlM_cons]
    simp only [Slicer.next, next_brace_top hstep]
    rfl
  | cons m ms ih =>
    obtain ⟨hm, hms⟩ := forall_mem_cons.1 hms
    obtain ⟨step', hend, hmember⟩ := foldlM_member hm.1 hm.2 hlen
      (by simp : ScanStep.beginString ∈ _) (done ++ [(key, value)]) (memberTail ms)
    have hcomma : Slicer.next
        { scanner := inside [.objectValue] step, members := done, key := key, slot := value } 0x2c =
        some { scanner := inside [.objectKey] .beginString,
               members := done ++ [(key, value)] } := by
      simp only [Slicer.next, next_comma hstep]
      rfl
    rw [memberTail, foldlM_cons, hcomma, bind_eq_bind, bind_some, hmember,
      ih hms hend, append_assoc, cons_append, nil_append]

theorem foldlM_objectText :
    ∃ z, (objectText ms).foldlM Slicer.next {} = some z ∧ z.members = ms ∧
      z.scanner = ⟨.endTop, [], true⟩ := by
  cases ms with
  | nil => exact ⟨_, rfl, rfl, rfl⟩
  | cons m ms =>
    obtain ⟨hm, hms⟩ := forall_mem_cons.1 hms
    obtain ⟨step, hend, hmember⟩ := foldlM_member hm.1 hm.2 hlen
      (by simp : ScanStep.beginStringOrEmpty ∈ _) [] (memberTail ms)
    have hopen : Slicer.next {} 0x7b =
        some { scanner := inside [.objectKey] .beginStringOrEmpty } := by
      simp only [Slicer.next, Scanner.reset]
      rw [show Scanner.next ⟨.beginValue, [], false⟩ 0x7b = _ from next_open [] (by decide)]
      rfl
    refine ⟨{ scanner := ⟨.endTop, [], true⟩, members := m :: ms }, ?_, rfl, rfl⟩
    rw [objectText, foldlM_cons, hopen, bind_eq_bind, bind_some, hmember,
      foldlM_memberTail hms hlen hend]
    rfl

end

end Slicer

open Scanner

variable {d : ℕ}

section

variable {ms : List (Bytes × Bytes)} (hms : MemberTexts d ms) (hlen : 1 + d ≤ maxNestingDepth)
include hms hlen

theorem members_objectText : members (objectText ms) = some ms := by
  obtain ⟨z, hz, hmembers, -⟩ := Slicer.foldlM_objectText hms hlen
  have hhead : ∃ rest, (objectText ms).dropWhile isSpace = 0x7b :: rest := by
    cases ms <;> exact ⟨_, rfl⟩
  obtain ⟨rest, hhead⟩ := hhead
  simp only [members, hhead, if_true, hz, Option.map_some, hmembers]

theorem jsonValid_objectText : jsonValid (objectText ms) = true := by
  obtain ⟨z, hz, -, hscanner⟩ := Slicer.foldlM_objectText hms hlen
  have hrun := Slicer.scanner_foldlM hz
  simp only [jsonValid]
  rw [show (objectText ms).foldlM Scanner.next reset = some z.scanner from hrun, hscanner]
  rfl

end

end GoCell.Kernel
