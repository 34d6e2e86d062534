import GoCell.Kernel.JsonSpans

namespace GoCell.Kernel

variable {s' : Scanner}

namespace Scanner

def nestingFrom : Scanner → Bytes → ℕ
  | _, [] => 0
  | s, c :: rest =>
    match s.next c with
    | none => 0
    | some s' => max s'.parseState.length (nestingFrom s' rest)

/-- What holds in every step the scanner reaches: an object that may be empty is open, and the rest
of a literal is letters. -/
def Reached (s : Scanner) : Prop :=
  match s.step with
  | .beginStringOrEmpty => s.parseState ≠ []
  | .literal rest => ∀ b ∈ rest, 0x61 ≤ b ∧ b ≤ 0x7a
  | _ => True

/-- `t` reads inside `outer`, without the blanks, what `s` reads as a text of its own: it may still
be at the last byte of a value that `s` has left. -/
structure Lifted (outer : List ParseState) (s t : Scanner) : Prop where
  stack : t.parseState = s.parseState ++ outer
  endTop : t.endTop = false
  reached : s.Reached
  step : (s.endTop = false ∧ s.step ≠ .endTop ∧ t.step = s.step) ∨
    ((s.step = .endValue ∧ s.endTop = false ∨ s.step = .endTop ∧ s.parseState = []) ∧
      ValueEnd t.step)

def Follows (outer : List ParseState) (a b : Option Scanner) : Prop :=
  ∀ s', a = some s' → s'.parseState.length + outer.length ≤ maxNestingDepth →
    ∃ t', b = some t' ∧ Lifted outer s' t'

variable {outer : List ParseState} {s t : Scanner} {c : UInt8}

namespace Follows

theorem none (b : Option Scanner) : Follows outer none b := fun _ h ↦ by cases h

theorem ite {p : Prop} [Decidable p] {a b a' b' : Option Scanner} (h : Follows outer a b)
    (h' : Follows outer a' b') : Follows outer (if p then a else a') (if p then b else b') := by
  split
  · exact h
  · exact h'

end Follows

/-- Both scanners are in the same place of the text, one of them inside `outer`. -/
structure Nested (outer : List ParseState) (s t : Scanner) : Prop where
  stack : t.parseState = s.parseState ++ outer
  endTop : s.endTop = false
  endTop' : t.endTop = false

namespace Nested

section

variable (h : Nested outer s t) {step : ScanStep}

include h

theorem goto (a : (step == .endTop) = false) (b : Reached { s with step := step }) :
    Follows outer (s.goto step) (t.goto step) := by
  rintro s' ⟨⟩ -
  exact ⟨_, rfl, h.stack, h.endTop', b, .inl ⟨h.endTop, ne_of_beq_false a, rfl⟩⟩

theorem stay (hstep : s.step ≠ .endTop) (heq : t.step = s.step) (hreached : s.Reached) :
    Follows outer (some s) (some t) := by
  rintro s' ⟨⟩ -
  exact ⟨t, rfl, h.stack, h.endTop', hreached, .inl ⟨h.endTop, hstep, heq⟩⟩

theorem push (p : ParseState) (a : (step == .endTop) = false)
    (b : Reached { s with step := step, parseState := p :: s.parseState }) :
    Follows outer (s.pushParseState step p) (t.pushParseState step p) := by
  intro s' hs' hlen
  unfold pushParseState at hs'
  split at hs'
  · cases hs'
    have hroom : t.parseState.length + 1 ≤ maxNestingDepth := by
      rw [h.stack, List.length_append]
      simp only [List.length_cons] at hlen
      omega
    refine ⟨_, if_pos hroom, ?_, h.endTop', b, .inl ⟨h.endTop, ne_of_beq_false a, rfl⟩⟩
    simp only [h.stack, List.cons_append]
  · cases hs'

theorem replace {p : ParseState} {ps : List ParseState} (a : (step == .endTop) = false)
    (b : Reached { s with step := step, parseState := p :: ps }) :
    Follows outer (some { s with step := step, parseState := p :: ps })
      (some { t with step := step, parseState := p :: (ps ++ outer) }) := by
  rintro s' ⟨⟩ -
  exact ⟨_, rfl, rfl, h.endTop', b, .inl ⟨h.endTop, ne_of_beq_false a, rfl⟩⟩

theorem pop (hne : outer ≠ []) (hopen : s.parseState ≠ []) :
    Follows outer s.popParseState t.popParseState := by
  intro s' hs' _
  obtain ⟨p, ps, hps⟩ := List.exists_cons_of_ne_nil hopen
  have ht : t.popParseState = some { t with step := .endValue, parseState := ps ++ outer } := by
    unfold popParseState
    rw [h.stack, hps, List.cons_append, List.tail_cons]
    split
    · next hnil => exact absurd (List.append_eq_nil_iff.1 hnil).2 hne
    · rfl
  rw [ht]
  unfold popParseState at hs'
  rw [hps, List.tail_cons] at hs'
  cases ps with
  | nil =>
    cases hs'
    exact ⟨_, rfl, rfl, h.endTop', trivial, .inr ⟨.inr ⟨rfl, rfl⟩, by simp [ValueEnd]⟩⟩
  | cons r rs =>
    cases hs'
    exact ⟨_, rfl, rfl, h.endTop', trivial, .inl ⟨h.endTop, by simp, rfl⟩⟩

theorem inStringEsc : Follows outer (s.stateInStringEsc c) (t.stateInStringEsc c) :=
  .ite (h.goto rfl trivial) (.ite (h.goto rfl trivial) (.none _))

theorem expSign : Follows outer (s.stateExpSign c) (t.stateExpSign c) :=
  .ite (h.goto rfl trivial) (.none _)

variable (hspace : isSpace c = false)

include hspace

theorem beginValue : Follows outer (s.stateBeginValue c) (t.stateBeginValue c) := by
  unfold stateBeginValue
  simp only [hspace, Bool.false_eq_true, if_false]
  refine .ite (h.push _ rfl (List.cons_ne_nil _ _)) (.ite (h.push _ rfl trivial) ?_)
  refine .ite (h.goto rfl trivial) (.ite (h.goto rfl trivial) (.ite (h.goto rfl trivial) ?_))
  refine .ite (h.goto rfl ?_) (.ite (h.goto rfl ?_) (.ite (h.goto rfl ?_) ?_))
  · simp [Reached]
  · simp [Reached]
  · simp [Reached]
  · exact .ite (h.goto rfl trivial) (.none _)

theorem beginString : Follows outer (s.stateBeginString c) (t.stateBeginString c) := by
  unfold stateBeginString
  simp only [hspace, Bool.false_eq_true, if_false]
  exact .ite (h.goto rfl trivial) (.none _)

variable (hne : outer ≠ [])

include hne

theorem endValue : Follows outer (s.stateEndValue c) (t.stateEndValue c) := by
  unfold stateEndValue
  cases hps : s.parseState with
  | nil =>
    simp only [stateEndTop, hspace, Bool.false_eq_true, if_false]
    exact .none _
  | cons p ps =>
    have hopen : s.parseState ≠ [] := by simp [hps]
    rw [h.stack, hps, List.cons_append]
    simp only [hspace, Bool.false_eq_true, if_false]
    cases p with
    | objectKey => exact .ite (h.replace rfl trivial) (.none _)
    | objectValue => exact .ite (h.replace rfl trivial) (.ite (h.pop hne hopen) (.none _))
    | arrayValue => exact .ite (h.goto rfl trivial) (.ite (h.pop hne hopen) (.none _))

theorem zero : Follows outer (s.stateZero c) (t.stateZero c) :=
  .ite (h.goto rfl trivial) (.ite (h.goto rfl trivial) (h.endValue hspace hne))

theorem emptyObject (hopen : s.parseState ≠ []) :
    Follows outer ({ s with parseState := .objectValue :: s.parseState.tail }.stateEndValue c)
      ({ t with parseState := .objectValue :: t.parseState.tail }.stateEndValue c) := by
  refine endValue ⟨?_, h.endTop, h.endTop'⟩ hspace hne
  rw [h.stack, List.tail_append_of_ne_nil hopen, List.cons_append]

end

theorem next (h : Nested outer s t) (hne : outer ≠ []) (hstep : s.step ≠ .endTop)
    (heq : t.step = s.step) (hreached : s.Reached)
    (hskips : s.skips c = false) : Follows outer (s.next c) (t.next c) := by
  have hstay : Follows outer (some s) (some t) := h.stay hstep heq hreached
  unfold Scanner.next
  rw [heq]
  by_cases hstring : s.step = .inString
  · rw [hstring]
    exact .ite (h.goto rfl trivial) (.ite (h.goto rfl trivial) (.ite (.none _) hstay))
  have hspace : isSpace c = false := by simpa [skips, hstring] using hskips
  have hend := h.endValue hspace hne
  cases hs : s.step with
  | beginValueOrEmpty =>
    simp only [hspace, Bool.false_eq_true, if_false]
    exact .ite hend (h.beginValue hspace)
  | beginValue => exact h.beginValue hspace
  | beginStringOrEmpty =>
    simp only [hspace, Bool.false_eq_true, if_false]
    simp only [Reached, hs] at hreached
    exact .ite (h.emptyObject hspace hne hreached) (h.beginString hspace)
  | beginString => exact h.beginString hspace
  | endValue => exact hend
  | endTop => exact absurd hs hstep
  | inString => exact absurd hs hstring
  | inStringEsc => exact h.inStringEsc
  | inStringEscU n =>
    refine .ite ?_ (.none _)
    split
    · exact h.goto rfl trivial
    · exact h.goto rfl trivial
  | neg => exact .ite (h.goto rfl trivial) (.ite (h.goto rfl trivial) (.none _))
  | digits => exact .ite hstay (h.zero hspace hne)
  | zero => exact h.zero hspace hne
  | dot => exact .ite (h.goto rfl trivial) (.none _)
  | dotDigits => exact .ite hstay (.ite (h.goto rfl trivial) hend)
  | exp => exact .ite (h.goto rfl trivial) h.expSign
  | expSign => exact h.expSign
  | expDigits => exact .ite hstay hend
  | literal rest =>
    cases rest with
    | nil => exact hend
    | cons =>
      simp only [Reached, hs] at hreached
      refine .ite ?_ (.none _)
      split
      · exact h.goto rfl trivial
      · exact h.goto rfl (List.forall_mem_cons.1 hreached).2

end Nested

theorem isDelimiter_of_stateEndValue (hspace : isSpace c = false)
    (h : s.stateEndValue c = some s') : isDelimiter c := by
  unfold stateEndValue at h
  cases hps : s.parseState with
  | nil => simp [hps, stateEndTop, hspace] at h
  | cons p ps =>
    simp only [hps, hspace, Bool.false_eq_true, if_false] at h
    cases p <;> simp only at h <;> repeat' split at h
    all_goals first | cases h | skip
    all_goals simp_all [isDelimiter]

theorem isSpace_cases (h : isSpace c = true) : c = 0x20 ∨ c = 0x09 ∨ c = 0x0d ∨ c = 0x0a := by
  simpa [isSpace, or_assoc] using h

theorem not_number_of_isSpace (h : isSpace c = true) :
    isDigit c = false ∧ c ≠ 0x30 ∧ c ≠ 0x2e ∧ c ≠ 0x65 ∧ c ≠ 0x45 ∧ c ≠ 0x2b ∧ c ≠ 0x2d := by
  obtain rfl | rfl | rfl | rfl := isSpace_cases h <;> decide

theorem not_escape_of_isSpace (h : isSpace c = true) :
    isHex c = false ∧ c ≠ 0x75 ∧
      c ∉ ([0x62, 0x66, 0x6e, 0x72, 0x74, 0x5c, 0x2f, 0x22] : Bytes) := by
  obtain rfl | rfl | rfl | rfl := isSpace_cases h <;> decide

theorem next_space (hreached : s.Reached) (hskips : s.skips c = true)
    (hs' : s.next c = some s') : s' = s ∨ (ValueEnd s.step ∧ s.stateEndValue c = some s') := by
  simp only [Scanner.skips, Bool.and_eq_true, decide_eq_true_eq] at hskips
  obtain ⟨hspace, hstring⟩ := hskips
  obtain ⟨hdigit, hzero, hdot, he, hE, hplus, hminus⟩ := not_number_of_isSpace hspace
  obtain ⟨hhex, hu, hesc⟩ := not_escape_of_isSpace hspace
  unfold Scanner.next at hs'
  unfold ValueEnd
  cases hs : s.step with
  | beginValueOrEmpty | beginValue | beginStringOrEmpty | beginString | endTop =>
    refine .inl ?_
    simpa [hs, hspace, stateBeginValue, stateBeginString, stateEndTop] using hs'.symm
  | endValue | digits | zero | dotDigits | expDigits =>
    exact .inr ⟨by simp, by simpa [hs, hdigit, stateZero, hdot, he, hE] using hs'⟩
  | inString => exact absurd hs hstring
  | inStringEsc =>
    simp only [hs, stateInStringEsc, hesc, hu, if_false] at hs'
    cases hs'
  | inStringEscU n => simp [hs, hhex] at hs'
  | neg | dot | exp | expSign => simp [hs, hdigit, hzero, hplus, hminus, stateExpSign] at hs'
  | literal rest =>
    cases rest with
    | nil => exact .inr ⟨by simp, by simpa [hs] using hs'⟩
    | cons b rest =>
      simp only [Reached, hs] at hreached
      have hb : c ≠ b := by
        rintro rfl
        obtain rfl | rfl | rfl | rfl := isSpace_cases hspace <;>
          exact absurd (List.forall_mem_cons.1 hreached).1 (by decide)
      simp [hs, hb] at hs'

theorem nil_of_eof (hreached : s.Reached) (htop : s.endTop = false) (hs : s.eof = true) :
    s.parseState = [] ∧ ValueEnd s.step := by
  unfold eof at hs
  rw [htop, Bool.false_or, Option.any_eq_true] at hs
  obtain ⟨s', hs', htop'⟩ := hs
  by_cases hstring : s.step = .inString
  · rw [next_inString (by decide) (by decide) (by decide) hstring] at hs'
    cases hs'
    rw [htop] at htop'
    cases htop'
  · obtain rfl | ⟨hend, hvalue⟩ := next_space hreached (by simpa [skips, isSpace] using hstring) hs'
    · rw [htop] at htop'
      cases htop'
    · refine ⟨?_, hend⟩
      cases hps : s.parseState with
      | nil => rfl
      | cons p ps =>
        have hgoto : s' = { s with step := .endValue } := by
          simpa [stateEndValue, hps, isSpace, goto, eq_comm] using hvalue
        simp [hgoto, htop] at htop'

def StringOnly (c : UInt8) : Prop := isHTML c = true ∨ 0x80 ≤ c

theorem StringOnly.not_token (h : StringOnly c) :
    isSpace c = false ∧ isDigit c = false ∧ isHex c = false ∧ ¬isDelimiter c ∧
      ¬(0x61 ≤ c ∧ c ≤ 0x7a) := by
  obtain h | h := h
  · simp only [isHTML, Bool.or_eq_true, decide_eq_true_eq] at h
    obtain (rfl | rfl) | rfl := h <;> refine ⟨rfl, rfl, rfl, ?_, by decide⟩ <;>
      · unfold isDelimiter
        decide
  · have hle : ∀ b : UInt8, b < 0x80 → ¬c ≤ b :=
      fun b hb hc ↦ absurd (UInt8.le_trans h hc) (UInt8.not_le.2 hb)
    have hne : ∀ b : UInt8, b < 0x80 → c ≠ b := by
      rintro b hb rfl
      exact hle c hb (UInt8.le_refl c)
    have hrange : ∀ a b : UInt8, b < 0x80 → (decide (a ≤ c) && decide (c ≤ b)) = false :=
      fun a b hb ↦ by simp [hle b hb]
    refine ⟨?_, hrange _ _ (by decide), ?_, ?_, fun hc ↦ hle 0x7a (by decide) hc.2⟩
    · simp [isSpace, hne]
    · simp only [isHex, isDigit, hrange _ _ (show (0x39 : UInt8) < 0x80 by decide),
        hrange _ _ (show (0x66 : UInt8) < 0x80 by decide),
        hrange _ _ (show (0x46 : UInt8) < 0x80 by decide), Bool.or_self]
    · simp [isDelimiter, hne]

theorem StringOnly.ne {b : UInt8} (h : StringOnly c)
    (hb : (isHTML b || decide (0x80 ≤ b)) = false) : c ≠ b := by
  rintro rfl
  simp only [StringOnly] at h
  simp only [Bool.or_eq_false_iff, decide_eq_false_iff_not] at hb
  obtain h | h := h
  · simp [h] at hb
  · exact hb.2 h

theorem StringOnly.stateEndValue (h : StringOnly c) (s : Scanner) : s.stateEndValue c = none := by
  obtain ⟨hspace, -, -, hdelimiter, -⟩ := h.not_token
  cases hs' : s.stateEndValue c with
  | none => rfl
  | some s' => exact absurd (isDelimiter_of_stateEndValue hspace hs') hdelimiter

theorem StringOnly.stateZero (h : StringOnly c) (s : Scanner) : s.stateZero c = none := by
  simp [Scanner.stateZero, h.stateEndValue, h.ne, isHTML]

theorem StringOnly.stateBeginString (h : StringOnly c) (s : Scanner) :
    s.stateBeginString c = none := by
  simp [Scanner.stateBeginString, h.not_token.1, h.ne, isHTML]

theorem StringOnly.stateBeginValue (h : StringOnly c) (s : Scanner) :
    s.stateBeginValue c = none := by
  simp [Scanner.stateBeginValue, h.not_token.1, h.not_token.2.1, h.ne, isHTML]

theorem StringOnly.inString (h : StringOnly c) (hreached : s.Reached)
    (hs' : s.next c = some s') : s.step = .inString := by
  obtain ⟨hspace, hdigit, hhex, hdelimiter, hletter⟩ := h.not_token
  have hexpSign : s.stateExpSign c = none := by simp [stateExpSign, hdigit]
  unfold Scanner.next at hs'
  cases hs : s.step with
  | inString => rfl
  | beginValueOrEmpty | beginValue | beginStringOrEmpty | beginString | endValue | endTop =>
    simp [hs, hspace, stateEndTop, h.stateBeginValue, h.stateBeginString, h.stateEndValue, h.ne,
      isHTML] at hs'
  | neg | digits | zero | dot | dotDigits | exp | expSign | expDigits =>
    simp [hs, hdigit, h.stateZero, h.stateEndValue, hexpSign, h.ne, isHTML] at hs'
  | inStringEsc => simp [hs, stateInStringEsc, h.ne, isHTML] at hs'
  | inStringEscU n => simp [hs, hhex] at hs'
  | literal rest =>
    cases rest with
    | nil => simp [hs, h.stateEndValue] at hs'
    | cons b rest =>
      simp only [Reached, hs] at hreached
      have hb : c ≠ b := by
        rintro rfl
        exact hletter (List.forall_mem_cons.1 hreached).1
      simp [hs, hb] at hs'

namespace Lifted

theorem skips (h : Lifted outer s t) (hskips : s.skips c = false) : t.skips c = false := by
  unfold Scanner.skips at hskips ⊢
  rw [Bool.and_eq_false_iff] at hskips ⊢
  obtain hspace | hstring := hskips
  · exact .inl hspace
  · have hs : s.step = .inString := by simpa using hstring
    obtain ⟨-, -, heq⟩ | ⟨⟨hend, -⟩ | ⟨hend, -⟩, -⟩ := h.step
    · exact .inr (by simp [heq, hs])
    · rw [hs] at hend
      cases hend
    · rw [hs] at hend
      cases hend

theorem next (h : Lifted outer s t) (hne : outer ≠ []) (hskips : s.skips c = false) :
    Follows outer (s.next c) (t.next c) := by
  obtain ⟨hs, hstep, heq⟩ | ⟨⟨hs, htop⟩ | ⟨hs, -⟩, hend⟩ := h.step
  · exact Nested.next ⟨h.stack, hs, h.endTop⟩ hne hstep heq h.reached hskips
  · have hspace : isSpace c = false := by simpa [Scanner.skips, hs] using hskips
    intro s' hs' hlen
    have hvalue : s.next c = s.stateEndValue c := by simp only [Scanner.next, hs]
    rw [hvalue] at hs'
    rw [next_of_valueEnd hend (isDelimiter_of_stateEndValue hspace hs')]
    exact Nested.endValue ⟨h.stack, htop, h.endTop⟩ hspace hne s' hs' hlen
  · have hspace : isSpace c = false := by simpa [Scanner.skips, hs] using hskips
    have hnone : s.next c = none := by simp [Scanner.next, hs, stateEndTop, hspace]
    rw [hnone]
    exact Follows.none _

theorem endValue_space (h : Lifted outer s t) (hs : s.endTop = false)
    (hspace : isSpace c = true) (hend : ValueEnd t.step) (hs' : s.stateEndValue c = some s') :
    Lifted outer s' t := by
  unfold stateEndValue at hs'
  cases hps : s.parseState with
  | nil =>
    simp only [hps, stateEndTop, hspace, if_true, Option.some.injEq] at hs'
    subst hs'
    refine ⟨?_, h.endTop, trivial, .inr ⟨.inr ⟨rfl, rfl⟩, hend⟩⟩
    rw [h.stack, hps]
  | cons p ps =>
    simp only [hps, hspace, if_true, goto, Option.some.injEq] at hs'
    subst hs'
    exact ⟨by rw [h.stack, hps], h.endTop, trivial, .inr ⟨.inl ⟨rfl, hs⟩, hend⟩⟩

theorem valueEnd (h : Lifted outer s t) (hend : ValueEnd s.step) : ValueEnd t.step := by
  obtain ⟨-, -, heq⟩ | ⟨-, hend'⟩ := h.step
  · rwa [heq]
  · exact hend'

theorem space (h : Lifted outer s t) (hskips : s.skips c = true)
    (hs' : s.next c = some s') : Lifted outer s' t := by
  obtain rfl | ⟨hend, hs'⟩ := next_space h.reached hskips hs'
  · exact h
  · have hspace : isSpace c = true := (Bool.and_eq_true_iff.1 hskips).1
    have hs : s.endTop = false := by
      obtain ⟨hs, -, -⟩ | ⟨⟨-, hs⟩ | ⟨hs, -⟩, -⟩ := h.step
      · exact hs
      · exact hs
      · simp [ValueEnd, hs] at hend
    exact h.endValue_space hs hspace (h.valueEnd hend) hs'

theorem eof_cases (h : Lifted outer s t) (hs : s.eof = true) :
    s.parseState = [] ∧ ValueEnd t.step := by
  obtain ⟨htop, -, -⟩ | ⟨⟨-, htop⟩ | ⟨-, hnil⟩, hend⟩ := h.step
  · have hdone := nil_of_eof h.reached htop hs
    exact ⟨hdone.1, h.valueEnd hdone.2⟩
  · exact ⟨(nil_of_eof h.reached htop hs).1, hend⟩
  · exact ⟨hnil, hend⟩

theorem eof (h : Lifted outer s t) (hs : s.eof = true) :
    ∃ step, ValueEnd step ∧ t = inside outer step := by
  obtain ⟨hnil, hend⟩ := h.eof_cases hs
  refine ⟨t.step, hend, ?_⟩
  have hstack : t.parseState = outer := by rw [h.stack, hnil, List.nil_append]
  cases t
  cases hstack
  cases h.endTop
  rfl

end Lifted

theorem Lifted.spans_stringBody (h : Lifted outer s t) (hs : s.step = .inString) {text : Bytes}
    (hbody : StringBody text) : Spans outer t text t := by
  have ht : t = inside (s.parseState ++ outer) .inString := by
    obtain ⟨-, -, heq⟩ | ⟨⟨hend, -⟩ | ⟨hend, -⟩, -⟩ := h.step
    · cases t
      cases h.stack
      cases h.endTop
      cases heq.trans hs
      rfl
    · rw [hs] at hend
      cases hend
    · rw [hs] at hend
      cases hend
  rw [ht]
  exact (hbody _).weaken (List.suffix_append _ _)

theorem StringOnly.next (h : StringOnly c) (hs : s.step = .inString) : s.next c = some s := by
  have hprintable : 0x20 ≤ c := by
    obtain h | h := h
    · simp only [isHTML, Bool.or_eq_true, decide_eq_true_eq] at h
      obtain (rfl | rfl) | rfl := h <;> decide
    · exact (plain_of_high c h).1
  exact next_inString hprintable (h.ne rfl) (h.ne rfl) hs

theorem spans_compactByte (h : Lifted outer s t) (hne : outer ≠ [])
    (hs' : s.next c = some s') (hlen : s'.parseState.length + outer.length ≤ maxNestingDepth) :
    ∃ t', Spans outer t (compactByte s c) t' ∧ Lifted outer s' t' := by
  unfold compactByte
  split
  · next hskips => exact ⟨t, .nil t, h.space hskips hs'⟩
  · next hskips =>
    have hskips : s.skips c = false := by simpa using hskips
    split
    · next hhtml =>
      have hstring := StringOnly.inString (.inl hhtml) h.reached hs'
      rw [StringOnly.next (.inl hhtml) hstring] at hs'
      cases hs'
      exact ⟨t, h.spans_stringBody hstring (stringBody_unicodeEscape c), h⟩
    · obtain ⟨t', ht', hlift⟩ := h.next hne hskips s' hs' hlen
      have hinside : outer <:+ t'.parseState := by
        rw [hlift.stack]
        exact List.suffix_append _ _
      exact ⟨t', .single ht' (h.skips hskips) hinside, hlift⟩

theorem compactSeparator_eq {rest out : Bytes} (h : compactSeparator c rest = some out) :
    0x80 ≤ c ∧ (∀ b ∈ rest.take 2, 0x80 ≤ b) ∧ StringBody out := by
  unfold compactSeparator at h
  split at h
  · next a b rest =>
    split at h
    · next hseparator =>
      cases h
      simp only [isSeparator, Bool.and_eq_true, Bool.or_eq_true, decide_eq_true_eq] at hseparator
      obtain ⟨⟨rfl, rfl⟩, hb⟩ := hseparator
      refine ⟨by decide, ?_, stringBody_separatorEscape b⟩
      obtain rfl | rfl := hb <;> simp
    · cases h
  · cases h

theorem spans_compactFrom {data : Bytes} {skip : ℕ} {out : Bytes}
    (h : compactFrom skip s data = some out) (hlift : Lifted outer s t) (hne : outer ≠ [])
    (hdepth : nestingFrom s data + outer.length ≤ maxNestingDepth)
    (hskip : skip ≠ 0 → s.step = .inString ∧ ∀ c ∈ data.take skip, 0x80 ≤ c) :
    ∃ step, ValueEnd step ∧ Spans outer t out (inside outer step) := by
  induction data generalizing skip s t out with
  | nil =>
    simp only [compactFrom] at h
    split at h
    · next heof =>
      cases h
      obtain ⟨step, hend, rfl⟩ := hlift.eof heof
      exact ⟨step, hend, .nil _⟩
    · cases h
  | cons c rest ih =>
    cases skip with
    | succ skip =>
      obtain ⟨hstring, hhigh⟩ := hskip (Nat.succ_ne_zero skip)
      rw [List.take_succ_cons, List.forall_mem_cons] at hhigh
      have hs : s.next c = some s := StringOnly.next (.inr hhigh.1) hstring
      simp only [compactFrom, hs, Option.bind_eq_bind, Option.bind_some] at h
      refine ih h hlift ?_ fun _ ↦ ⟨hstring, hhigh.2⟩
      simp only [nestingFrom, hs] at hdepth
      omega
    | zero =>
      cases hs' : s.next c with
      | none => simp [compactFrom, hs'] at h
      | some s' =>
        have hroom : s'.parseState.length + outer.length ≤ maxNestingDepth ∧
            nestingFrom s' rest + outer.length ≤ maxNestingDepth := by
          simp only [nestingFrom, hs'] at hdepth
          omega
        simp only [compactFrom, hs', Option.bind_eq_bind, Option.bind_some] at h
        split at h
        · next esc hseparator =>
          obtain ⟨hc, hhigh, hbody⟩ := compactSeparator_eq hseparator
          obtain ⟨out', hout', rfl⟩ : ∃ out', compactFrom 2 s' rest = some out' ∧
              esc ++ out' = out := by simpa [Option.bind_eq_some_iff] using h
          have hstring := StringOnly.inString (.inr hc) hlift.reached hs'
          obtain rfl : s = s' := by
            simpa [StringOnly.next (.inr hc) hstring] using hs'
          obtain ⟨step, hend, hspans⟩ := ih hout' hlift hroom.2 fun _ ↦ ⟨hstring, hhigh⟩
          exact ⟨step, hend, (hlift.spans_stringBody hstring hbody).append hspans⟩
        · obtain ⟨out', hout', rfl⟩ : ∃ out', compactFrom 0 s' rest = some out' ∧
              compactByte s c ++ out' = out := by simpa [Option.bind_eq_some_iff] using h
          obtain ⟨t', hbyte, hlift'⟩ := spans_compactByte hlift hne hs' hroom.1
          obtain ⟨step, hend, hspans⟩ := ih hout' hlift' hroom.2 fun h ↦ absurd rfl h
          exact ⟨step, hend, hbyte.append hspans⟩

end Scanner

open Scanner

def nestingDepth (data : Bytes) : ℕ := nestingFrom reset data

theorem valueText_compact {data out : Bytes} (h : compact data = some out) :
    ValueText (nestingDepth data) out := by
  intro outer hne hlen
  have hlift : Lifted outer reset (inside outer .beginValue) :=
    ⟨rfl, rfl, trivial, .inl ⟨rfl, by decide, rfl⟩⟩
  refine spans_compactFrom h hlift hne ?_ fun h ↦ absurd rfl h
  unfold nestingDepth at hlen
  omega

end GoCell.Kernel
