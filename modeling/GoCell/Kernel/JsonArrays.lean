import GoCell.Kernel.JsonDecode

namespace GoCell.Kernel

def elementTail : List Bytes → Bytes
  | [] => [0x5d]
  | v :: vs => 0x2c :: (v ++ elementTail vs)

def arrayText : List Bytes → Bytes
  | [] => [0x5b, 0x5d]
  | v :: vs => 0x5b :: (v ++ elementTail vs)

open Scanner List Option

theorem isNull_arrayText (vs : List Bytes) : isNull (arrayText vs) = false := by
  cases vs <;> rfl

def endsValue (step : ScanStep) : Bool :=
  step ∈ [.endValue, .digits, .zero, .dotDigits, .expDigits, .literal []]

variable {step : ScanStep}

theorem endsValue_iff : endsValue step = true ↔ ValueEnd step := by
  rw [endsValue, decide_eq_true_eq, ValueEnd]

/-- The elements of an array while they are read, one after the other as the values of members would
be; `slot` are the bytes of the current one that are read so far. -/
structure ElementSlicer where
  scanner : Scanner := inside [.objectValue] .beginValue
  elements : List Bytes := []
  slot : Bytes := []
  closed : Bool := false
  deriving DecidableEq

def ElementSlicer.next (z : ElementSlicer) (c : UInt8) : Option ElementSlicer :=
  if z.closed then if isSpace c then some z else none
  else if c = 0x5d ∧ z.scanner.parseState = [.objectValue] ∧ endsValue z.scanner.step = true then
    some { elements := z.elements ++ [z.slot], closed := true }
  else do
    let s ← z.scanner.next c
    if s.parseState = [] then none
    else if s.parseState = [.objectKey] then
      return { elements := z.elements ++ [z.slot] }
    else if z.scanner.parseState = [.objectValue] ∧ z.scanner.skips c = true then
      return { z with scanner := s }
    else return { z with scanner := s, slot := z.slot ++ [c] }

/-- The bytes of the elements of a JSON array; `none` for any other text. -/
def elements (data : Bytes) : Option (List Bytes) :=
  match data.dropWhile isSpace with
  | 0x5b :: rest =>
    match rest.dropWhile isSpace with
    | 0x5d :: rest => if rest.all isSpace then some [] else none
    | rest => ((rest.foldlM ElementSlicer.next {}).filter (·.closed)).map ElementSlicer.elements
  | _ => none

theorem next_element_comma {outer : List ParseState} (h : ValueEnd step) :
    (inside (.arrayValue :: outer) step).next 0x2c =
      some (inside (.arrayValue :: outer) .beginValue) :=
  next_of_valueEnd h (.inl rfl)

theorem next_bracket {outer : List ParseState} (h : ValueEnd step) (hne : outer ≠ []) :
    (inside (.arrayValue :: outer) step).next 0x5d = some (inside outer .endValue) := by
  refine (next_of_valueEnd h (.inr (.inr (.inr rfl)))).trans ?_
  cases outer with
  | nil => exact absurd rfl hne
  | cons p ps => rfl

theorem next_open_bracket (outer : List ParseState) (h : outer.length + 1 ≤ maxNestingDepth) :
    (inside outer .beginValue).next 0x5b =
      some (inside (.arrayValue :: outer) .beginValueOrEmpty) := by
  show (inside outer .beginValue).pushParseState .beginValueOrEmpty .arrayValue = _
  exact if_pos h

section

variable {outer : List ParseState} {s : Scanner} {text : Bytes} (hne : text ≠ [])
  (h : Spans outer (inside outer .beginValue) text s)
include hne h

theorem spans_head :
    ∃ c rest, text = c :: rest ∧ isSpace c = false ∧ c ≠ 0x5d := by
  generalize hbegin : inside outer .beginValue = begin at h
  cases h with
  | nil => exact absurd rfl hne
  | @cons _ s₁ _ c text hnext hskips hinside hrest =>
    subst hbegin
    refine ⟨c, text, rfl, by simpa [skips, inside] using hskips, ?_⟩
    rintro rfl
    cases hnext

theorem spans_beginValueOrEmpty :
    Spans outer (inside outer .beginValueOrEmpty) text s := by
  obtain ⟨c, rest, rfl, hspace, hclose⟩ := spans_head hne h
  generalize hbegin : inside outer .beginValue = begin at h
  cases h with
  | cons hnext hskips hinside hrest =>
    subst hbegin
    refine .cons ?_ hskips hinside hrest
    rw [← hnext]
    simp only [Scanner.next, inside, stateBeginValue, hclose, hspace, if_false, Bool.false_eq_true]
    rfl

end

variable {vs : List Bytes}

section

variable {outer : List ParseState} {d : ℕ}

theorem spans_elementTail (hvs : ∀ v ∈ vs, ValueText d v) (hne : outer ≠ [])
    (hlen : outer.length + 1 + d ≤ maxNestingDepth) (hstep : ValueEnd step) :
    Spans outer (inside (.arrayValue :: outer) step) (elementTail vs) (inside outer .endValue) := by
  induction vs generalizing step with
  | nil => exact .single (next_bracket hstep hne) rfl suffix_rfl
  | cons v vs ih =>
    obtain ⟨hv, hvs⟩ := forall_mem_cons.1 hvs
    obtain ⟨step', hend, hspans⟩ := hv (.arrayValue :: outer) (cons_ne_nil _ _) hlen
    have hspans' := hspans.weaken (suffix_cons ParseState.arrayValue outer)
    exact .cons (next_element_comma hstep) rfl (suffix_cons _ _)
      (hspans'.append (ih hvs hend))

theorem valueText_array (hvs : ∀ v ∈ vs, ValueText d v) :
    ValueText (d + 1) (arrayText vs) := by
  intro outer hne hlen
  refine ⟨.endValue, by simp [ValueEnd], ?_⟩
  have hopen := next_open_bracket outer (by omega)
  cases vs with
  | nil =>
    refine .cons hopen rfl (suffix_cons _ _) (.single ?_ rfl suffix_rfl)
    cases outer with
    | nil => exact absurd rfl hne
    | cons p ps => rfl
  | cons v vs =>
    obtain ⟨hv, hvs⟩ := forall_mem_cons.1 hvs
    obtain ⟨step, hend, hspans⟩ := hv (.arrayValue :: outer) (cons_ne_nil _ _)
      (by rw [length_cons]; omega)
    have hfirst := spans_beginValueOrEmpty (ne_nil_of_valueText hv (by omega)) hspans
    have hfirst' := hfirst.weaken (suffix_cons ParseState.arrayValue outer)
    exact .cons hopen rfl (suffix_cons _ _)
      (hfirst'.append (spans_elementTail hvs hne (by omega) hend))

end

namespace ElementSlicer

variable {d : ℕ}

theorem foldlM_spans {s s' : Scanner} {text : Bytes} (h : Spans [.objectValue] s text s')
    {z : ElementSlicer} (hz : z.scanner = s) (hopen : z.closed = false) :
    text.foldlM ElementSlicer.next z = some { z with scanner := s', slot := z.slot ++ text } := by
  induction h generalizing z with
  | nil s =>
    subst hz
    simp
  | @cons s s₁ s' c text hnext hskips hinside hrest ih =>
    subst hz
    have hbracket : ¬(c = 0x5d ∧ z.scanner.parseState = [.objectValue] ∧
        endsValue z.scanner.step = true) := by
      rintro ⟨rfl, hstack, hends⟩
      rw [next_of_valueEnd (endsValue_iff.1 hends) (.inr (.inr (.inr rfl)))] at hnext
      simp [stateEndValue, hstack, isSpace] at hnext
    have hnil : s₁.parseState ≠ [] := by
      intro hnil
      simp [hnil] at hinside
    have hkey : s₁.parseState ≠ [.objectKey] := by
      intro hkey
      rw [hkey] at hinside
      exact absurd (hinside.eq_of_length rfl) (by decide)
    have hstep : z.next c = some { z with scanner := s₁, slot := z.slot ++ [c] } := by
      simp only [ElementSlicer.next, hopen, Bool.false_eq_true, if_false, if_neg hbracket, hnext,
        bind_eq_bind, bind_some, if_neg hnil, if_neg hkey, hskips, and_false]
      rfl
    have hrest' := ih (z := { z with scanner := s₁, slot := z.slot ++ [c] }) rfl hopen
    rw [foldlM_cons, hstep, bind_eq_bind, bind_some, hrest']
    simp

theorem foldlM_elementTail (hvs : ∀ v ∈ vs, ValueText d v)
    (hlen : 1 + d ≤ maxNestingDepth) (hstep : ValueEnd step) (done : List Bytes) (v : Bytes) :
    (elementTail vs).foldlM ElementSlicer.next
        { scanner := inside [.objectValue] step, elements := done, slot := v } =
      some { elements := done ++ v :: vs, closed := true } := by
  induction vs generalizing step done v with
  | nil =>
    have hends := endsValue_iff.2 hstep
    rw [elementTail, foldlM_cons]
    simp only [ElementSlicer.next, Bool.false_eq_true, if_false, inside, hends, and_self, if_true]
    rfl
  | cons w vs ih =>
    obtain ⟨hw, hvs⟩ := forall_mem_cons.1 hvs
    obtain ⟨step', hend, hspans⟩ := hw [.objectValue] (cons_ne_nil _ _) hlen
    have hcomma : ElementSlicer.next
        { scanner := inside [.objectValue] step, elements := done, slot := v } 0x2c =
        some { elements := done ++ [v] } := by
      simp only [ElementSlicer.next, next_comma hstep]
      rfl
    rw [elementTail, foldlM_cons, hcomma, bind_eq_bind, bind_some,
      foldlM_append, foldlM_spans hspans rfl rfl, bind_eq_bind, bind_some]
    simp only [nil_append]
    rw [ih hvs hend, append_assoc, cons_append, nil_append]

end ElementSlicer

theorem elements_arrayText {d : ℕ} (hvs : ∀ v ∈ vs, ValueText d v)
    (hlen : 1 + d ≤ maxNestingDepth) : elements (arrayText vs) = some vs := by
  cases vs with
  | nil => rfl
  | cons v vs =>
    obtain ⟨hv, hvs⟩ := forall_mem_cons.1 hvs
    obtain ⟨step, hend, hspans⟩ := hv [.objectValue] (cons_ne_nil _ _) hlen
    have hfold : (v ++ elementTail vs).foldlM ElementSlicer.next {} =
        some { elements := v :: vs, closed := true } := by
      rw [foldlM_append, ElementSlicer.foldlM_spans hspans rfl rfl, bind_eq_bind, bind_some]
      exact ElementSlicer.foldlM_elementTail hvs hlen hend [] v
    obtain ⟨c, rest, rfl, hspace, hclose⟩ := spans_head (ne_nil_of_valueText hv hlen) hspans
    have hblank : (c :: (rest ++ elementTail vs)).dropWhile isSpace =
        c :: (rest ++ elementTail vs) := dropWhile_cons_of_neg (by simp [hspace])
    rw [cons_append] at hfold
    simp only [elements, arrayText, cons_append]
    rw [show (0x5b :: (c :: (rest ++ elementTail vs))).dropWhile isSpace =
      0x5b :: (c :: (rest ++ elementTail vs)) from rfl]
    simp only [hblank]
    split
    · next heq => exact absurd (cons.inj heq).1 hclose
    · rw [hfold]
      rfl

end GoCell.Kernel
