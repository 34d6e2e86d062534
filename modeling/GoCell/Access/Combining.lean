import GoCell.Access.Evaluator
import Mathlib.Order.Lattice.Nat

namespace GoCell.Access

open Foundation Kernel List

section Obligations

def visibility (scope : UInt8) : WithTop ℕ := if scope = 0 then ⊤ else WithTop.some scope.toNat

theorem visibility_narrower (scope other : UInt8) :
    visibility (narrower scope other) = min (visibility scope) (visibility other) := by
  by_cases hscope : scope = 0
  · simp [narrower, visibility, hscope]
  by_cases hother : other = 0
  · simp [narrower, visibility, hscope, hother]
  have hwidth : visibility scope = (scope.toNat : ℕ) ∧ visibility other = (other.toNat : ℕ) :=
    ⟨if_neg hscope, if_neg hother⟩
  rw [narrower, if_neg hscope, if_neg hother]
  split
  · next hle =>
    rw [min_eq_left]
    rw [hwidth.1, hwidth.2]
    exact_mod_cast UInt8.le_iff_toNat_le.1 hle
  · next hle =>
    rw [min_eq_right]
    rw [hwidth.1, hwidth.2]
    exact_mod_cast (not_le.1 (mt UInt8.le_iff_toNat_le.2 hle)).le

theorem visibility_inj {scope other : UInt8} (h : visibility scope = visibility other) :
    scope = other := by
  unfold visibility at h
  split_ifs at h with hscope hother hother
  · rw [hscope, hother]
  · simp at h
  · simp at h
  · exact UInt8.toNat_inj.1 (by exact_mod_cast h)

def mergeFrom (start : Obligations) (os : List Obligations) : Obligations :=
  os.foldl
    (fun merged o ↦ ⟨narrower merged.rowScope o.rowScope, o.fields.foldl addNew merged.fields⟩)
    start

theorem mem_fields_mergeFrom {start : Obligations} {os : List Obligations} {f : String} :
    f ∈ (mergeFrom start os).fields ↔ f ∈ start.fields ∨ ∃ o ∈ os, f ∈ o.fields := by
  induction os generalizing start with
  | nil => simp [mergeFrom]
  | cons o os ih =>
    have hstep : f ∈ (mergeFrom start (o :: os)).fields ↔
        f ∈ o.fields.foldl addNew start.fields ∨ ∃ o ∈ os, f ∈ o.fields := ih
    rw [hstep, mem_foldl_addNew, or_assoc, exists_mem_cons_iff]

theorem nodup_fields_mergeFrom {start : Obligations} (h : start.fields.Nodup)
    (os : List Obligations) : (mergeFrom start os).fields.Nodup := by
  induction os generalizing start with
  | nil => exact h
  | cons o os ih => exact ih (nodup_foldl_addNew h o.fields)

theorem isLeast_mergeFrom (start : Obligations) (os : List Obligations) :
    IsLeast {w | w = visibility start.rowScope ∨ ∃ o ∈ os, visibility o.rowScope = w}
      (visibility (mergeFrom start os).rowScope) := by
  induction os generalizing start with
  | nil =>
    refine ⟨.inl rfl, ?_⟩
    rintro w (rfl | ⟨o, ho, -⟩)
    · exact le_rfl
    · cases ho
  | cons o os ih =>
    obtain ⟨hmem, hlower⟩ := ih ⟨narrower start.rowScope o.rowScope,
      o.fields.foldl addNew start.fields⟩
    rw [visibility_narrower] at hmem hlower
    constructor
    · obtain hmin | ⟨o', ho', heq⟩ := hmem
      · obtain hleft | hright := min_choice (visibility start.rowScope) (visibility o.rowScope)
        · exact .inl (hmin.trans hleft)
        · exact .inr ⟨o, mem_cons_self, (hmin.trans hright).symm⟩
      · exact .inr ⟨o', mem_cons_of_mem o ho', heq⟩
    · have hstart := hlower (.inl rfl)
      rintro w (rfl | ⟨o', ho', rfl⟩)
      · exact hstart.trans (min_le_left _ _)
      · obtain rfl | ho' := mem_cons.1 ho'
        · exact hstart.trans (min_le_right _ _)
        · exact hlower (.inr ⟨o', ho', rfl⟩)

variable {os os' : List Obligations}

theorem mem_fields_merge {f : String} :
    f ∈ (mergeObligations os).fields ↔ ∃ o ∈ os, f ∈ o.fields := by
  have hmerge : mergeObligations os = mergeFrom {} os := rfl
  rw [hmerge, mem_fields_mergeFrom]
  exact or_iff_right not_mem_nil

theorem nodup_fields_merge (os : List Obligations) : (mergeObligations os).fields.Nodup :=
  nodup_fields_mergeFrom nodup_nil os

theorem isLeast_merge (h : os ≠ []) :
    IsLeast {w | ∃ o ∈ os, visibility o.rowScope = w}
      (visibility (mergeObligations os).rowScope) := by
  obtain ⟨hmem, hlower⟩ := isLeast_mergeFrom {} os
  refine ⟨?_, fun w hw ↦ hlower (.inr hw)⟩
  obtain htop | hmem := hmem
  · -- nothing is constrained: every permit is as wide as the merged scope
    obtain ⟨o, ho⟩ := exists_mem_of_ne_nil os h
    have hle := hlower (.inr ⟨o, ho, rfl⟩)
    change visibility (mergeObligations os).rowScope ≤ visibility o.rowScope at hle
    have heq : visibility (mergeObligations os).rowScope = ⊤ := htop
    rw [heq, top_le_iff] at hle
    exact ⟨o, ho, hle.trans heq.symm⟩
  · exact hmem

theorem validateFields_ok {seen fields : List String} : validateFields seen fields = .ok () ↔
      (∀ f ∈ fields, validAttributeKey f = .ok ()) ∧ fields.Nodup ∧ ∀ f ∈ fields, f ∉ seen := by
  induction fields generalizing seen with
  | nil => simp [validateFields]
  | cons f fields ih =>
    rw [validateFields, bind_ok, forall_mem_cons, forall_mem_cons, nodup_cons]
    constructor
    · rintro ⟨_, hkey, hrest⟩
      obtain ⟨_, hnew, hrest⟩ := bind_ok.1 hrest
      obtain ⟨hkeys, hnodup, hseen⟩ := ih.1 hrest
      refine ⟨⟨hkey, hkeys⟩, ⟨fun hmem ↦ hseen f hmem mem_cons_self, hnodup⟩, ?_,
        fun g hg hold ↦ ?_⟩
      · simpa using hnew
      · exact hseen g hg (mem_cons_of_mem f hold)
    · rintro ⟨⟨hkey, hkeys⟩, ⟨hnot, hnodup⟩, hnew, hseen⟩
      refine ⟨(), hkey, bind_ok.2 ⟨(), by simpa using hnew,
        ih.2 ⟨hkeys, hnodup, fun g hg hold ↦ ?_⟩⟩⟩
      obtain rfl | hold := mem_cons.1 hold
      · exact hnot hg
      · exact hseen g hg hold

theorem validate_ok {o : Obligations} : o.validate = .ok () ↔ o.validateRowScope = .ok () ∧
      (∀ f ∈ o.fields, validAttributeKey f = .ok ()) ∧ o.fields.Nodup := by
  have hfields : (validateFields [] o.fields).mapError Invalid.coded = .ok () ↔
      validateFields [] o.fields = .ok () := by
    cases validateFields [] o.fields <;> simp [Except.mapError]
  rw [Obligations.validate, bind_ok]
  constructor
  · rintro ⟨_, hscope, hmask⟩
    obtain ⟨hkeys, hnodup, -⟩ := validateFields_ok.1 (hfields.1 hmask)
    exact ⟨hscope, hkeys, hnodup⟩
  · rintro ⟨hscope, hkeys, hnodup⟩
    exact ⟨(), hscope, hfields.2 (validateFields_ok.2 ⟨hkeys, hnodup, fun _ _ ↦ not_mem_nil⟩)⟩

theorem validate_merge (h : os ≠ []) (hvalid : ∀ o ∈ os, o.validate = .ok ()) :
    (mergeObligations os).validate = .ok () := by
  obtain ⟨o, ho, hscope⟩ := (isLeast_merge h).1
  refine validate_ok.2 ⟨?_, fun f hf ↦ ?_, nodup_fields_merge os⟩
  · rw [Obligations.validateRowScope, ← visibility_inj hscope]
    exact (validate_ok.1 (hvalid o ho)).1
  · obtain ⟨o, ho, hf⟩ := mem_fields_merge.1 hf
    exact (validate_ok.1 (hvalid o ho)).2.1 f hf

structure Equivalent (o o' : Obligations) : Prop where
  rowScope : o.rowScope = o'.rowScope
  fields : o.fields.Perm o'.fields

theorem Equivalent.validate {o o' : Obligations} (h : Equivalent o o') :
    o.validate = .ok () ↔ o'.validate = .ok () := by
  rw [validate_ok, validate_ok, Obligations.validateRowScope, Obligations.validateRowScope,
    h.rowScope, h.fields.nodup_iff]
  simp only [h.fields.mem_iff]

theorem merge_equivalent (h : ∀ o, o ∈ os ↔ o ∈ os') :
    Equivalent (mergeObligations os) (mergeObligations os') := by
  constructor
  · by_cases hnil : os = []
    · have hnil' : os' = [] := eq_nil_iff_forall_not_mem.2 fun o ho ↦ by
        have hmem := (h o).2 ho
        rw [hnil] at hmem
        cases hmem
      rw [hnil, hnil']
    · have hnil' : os' ≠ [] := by
        obtain ⟨o, ho⟩ := exists_mem_of_ne_nil os hnil
        exact ne_nil_of_mem ((h o).1 ho)
      have hleast := isLeast_merge hnil
      simp only [h] at hleast
      exact visibility_inj (hleast.unique (isLeast_merge hnil'))
  · refine (perm_ext_iff_of_nodup (nodup_fields_merge os) (nodup_fields_merge os')).2 fun f ↦ ?_
    rw [mem_fields_merge, mem_fields_merge]
    simp only [h]

end Obligations

section Rules

variable {r : AttributeResolver} {action : String}

def Rule.denies (r : AttributeResolver) (action : String) (rule : Rule) : Bool :=
  rule.effect = .deny ∧ (rule.action = [] ∨ action ∈ rule.action) ∧
    matchAllConditions r rule.conditions = true

def Rule.permits (r : AttributeResolver) (action : String) (rule : Rule) : Bool :=
  rule.effect = .allow ∧ action ∈ rule.action ∧ matchAllConditions r rule.conditions = true

def Rule.denial (rule : Rule) : Decision × String :=
  (.deny "authorization-decide: denied by policy (forbid-wins)", rule.id)

def Permits.add (permits : Permits) (rule : Rule) : Permits where
  obligations := permits.obligations ++ [rule.obligations]
  firstPermitID := if permits.firstPermitID = "" then rule.id else permits.firstPermitID

theorem applyRule_eq (permits : Permits) (rule : Rule) :
    applyRule r action permits rule = (if rule.denies r action then some rule.denial else none).elim
        (.ok (if rule.permits r action then permits.add rule else permits)) .error := by
  by_cases hnil : rule.action = []
  · cases heffect : rule.effect <;> cases hmatch : matchAllConditions r rule.conditions <;>
      simp [applyRule, Rule.denies, Rule.permits, Rule.denial, hnil, heffect, hmatch]
  · have hpos : 0 < rule.action.length := length_pos_iff.2 hnil
    by_cases hmem : action ∈ rule.action
    · cases heffect : rule.effect <;> cases hmatch : matchAllConditions r rule.conditions <;>
        simp [applyRule, Rule.denies, Rule.permits, Rule.denial, Permits.add, hnil, hmem, heffect,
          hmatch]
    · simp [applyRule, Rule.denies, Rule.permits, hnil, hmem, hpos]

variable (policies : List Policy)

def rulesOf : List Rule :=
  builtinBaselineRules ++ policies.flatMap Policy.rules

theorem collectPermits_eq :
    collectPermits r action policies = (rulesOf policies).foldlM (applyRule r action) {} := by
  rw [rulesOf, foldlM_append, collectPermits]
  exact bind_congr fun permits ↦
    (foldlM_flatMap (applyRule r action) Policy.rules policies permits).symm

def permitted (r : AttributeResolver) (action : String) (rules : List Rule) : List Obligations :=
  (rules.filter (Rule.permits r action)).map Rule.obligations

theorem obligations_foldl (rules : List Rule) (permits : Permits) :
    (rules.foldl (fun permits rule ↦ if rule.permits r action then permits.add rule else permits)
      permits).obligations = permits.obligations ++ permitted r action rules := by
  induction rules generalizing permits with
  | nil => simp [permitted]
  | cons rule rules ih =>
    rw [foldl_cons, ih]
    cases hpermits : rule.permits r action with
    | false => simp [permitted, hpermits]
    | true => simp [permitted, hpermits, Permits.add]

theorem evaluate_cases (r : AttributeResolver) (action : String) (policies : List Policy) :
    ((∃ rule ∈ rulesOf policies, rule.denies r action = true ∧
        evaluate r action policies = rule.denial) ∨
      (∀ rule ∈ rulesOf policies, rule.denies r action = false) ∧
        ∃ permits : Permits, permits.obligations = permitted r action (rulesOf policies) ∧
          evaluate r action policies = decideFrom permits) := by
  have hloop := foldlM_early (f := applyRule r action) applyRule_eq (rulesOf policies) {}
  rw [← collectPermits_eq] at hloop
  unfold evaluate
  rw [hloop]
  cases hfind : (rulesOf policies).findSome?
      fun rule ↦ if rule.denies r action then some rule.denial else none with
  | some denial =>
    obtain ⟨rule, hrule, hdenial⟩ := exists_of_findSome?_eq_some hfind
    split at hdenial
    · next hdenies =>
      cases hdenial
      exact .inl ⟨rule, hrule, hdenies, rfl⟩
    · cases hdenial
  | none =>
    refine .inr ⟨fun rule hrule ↦ ?_, _, obligations_foldl (rulesOf policies) {}, rfl⟩
    have hnone := findSome?_eq_none_iff.1 hfind rule hrule
    cases hdenies : rule.denies r action with
    | false => rfl
    | true =>
      rw [hdenies] at hnone
      cases hnone

theorem mem_permitted {rules : List Rule} {o : Obligations} : o ∈ permitted r action rules ↔
      ∃ rule ∈ rules, rule.permits r action = true ∧ rule.obligations = o := by
  simp [permitted, and_assoc]

theorem permitted_ne_nil {rules : List Rule} :
    permitted r action rules ≠ [] ↔ ∃ rule ∈ rules, rule.permits r action = true := by
  simp [permitted]

theorem decideFrom_eq (permits : Permits) : (decideFrom permits).1 =
      if permits.obligations = [] then
        .deny "authorization-decide: no applicable permit (default-deny)"
      else if (mergeObligations permits.obligations).validate = .ok () then
        ⟨.allow, mergeObligations permits.obligations, ""⟩
      else .deny "authorization-decide: invalid obligations" := by
  unfold decideFrom Decision.allow
  by_cases hnil : permits.obligations = []
  · simp [hnil]
  · cases hvalid : (mergeObligations permits.obligations).validate with
    | error e => simp [hnil, bind, Except.bind]
    | ok u => simp [hnil, bind, Except.bind, pure, Except.pure]

theorem effect_allow_iff : (evaluate r action policies).1.effect = .allow ↔
      (∀ rule ∈ rulesOf policies, rule.denies r action = false) ∧
        (∃ rule ∈ rulesOf policies, rule.permits r action = true) ∧
        (mergeObligations (permitted r action (rulesOf policies))).validate = .ok () := by
  rw [← permitted_ne_nil]
  obtain ⟨rule, hrule, hdenies, heq⟩ | ⟨hnone, permits, hpermits, heq⟩ :=
    evaluate_cases r action policies
  · constructor
    · intro hallow
      rw [heq] at hallow
      cases hallow
    · rintro ⟨hnone, -⟩
      cases (hnone rule hrule).symm.trans hdenies
  · rw [heq, decideFrom_eq, hpermits]
    split_ifs with hnil hvalid
    · simp [Decision.deny, hnil]
    · simpa [hnil, hvalid] using hnone
    · simp [Decision.deny, hvalid]

theorem decision_of_allow {policies : List Policy}
    (h : (evaluate r action policies).1.effect = .allow) :
    (evaluate r action policies).1 =
      ⟨.allow, mergeObligations (permitted r action (rulesOf policies)), ""⟩ := by
  obtain ⟨hnone, hsome, hvalid⟩ := (effect_allow_iff policies).1 h
  obtain ⟨rule, hrule, hdenies, -⟩ | ⟨-, permits, hpermits, heq⟩ :=
    evaluate_cases r action policies
  · cases (hnone rule hrule).symm.trans hdenies
  · rw [heq, decideFrom_eq, hpermits, if_neg (permitted_ne_nil.2 hsome), if_pos hvalid]

theorem decision_of_deny {policies : List Policy}
    (h : (evaluate r action policies).1.effect ≠ .allow) :
    (evaluate r action policies).1.effect = .deny ∧
      (evaluate r action policies).1.obligations = {} := by
  obtain ⟨rule, -, -, heq⟩ | ⟨-, permits, -, heq⟩ := evaluate_cases r action policies
  · rw [heq]
    exact ⟨rfl, rfl⟩
  · rw [heq, decideFrom_eq] at h ⊢
    split_ifs at h ⊢
    · exact ⟨rfl, rfl⟩
    · cases h rfl
    · exact ⟨rfl, rfl⟩

variable {policies policies' : List Policy}

theorem decision_of_same_rules (h : ∀ rule, rule ∈ rulesOf policies ↔ rule ∈ rulesOf policies') :
    (evaluate r action policies).1.effect = (evaluate r action policies').1.effect ∧
      Equivalent (evaluate r action policies).1.obligations
        (evaluate r action policies').1.obligations := by
  have hmerge : Equivalent (mergeObligations (permitted r action (rulesOf policies)))
      (mergeObligations (permitted r action (rulesOf policies'))) :=
    merge_equivalent fun o ↦ by simp only [mem_permitted, h]
  have hallow : (evaluate r action policies).1.effect = .allow ↔
      (evaluate r action policies').1.effect = .allow := by
    rw [effect_allow_iff, effect_allow_iff, hmerge.validate]
    simp only [h]
  by_cases heffect : (evaluate r action policies).1.effect = .allow
  · have heffect' := hallow.1 heffect
    rw [decision_of_allow heffect, decision_of_allow heffect']
    exact ⟨rfl, hmerge⟩
  · obtain ⟨hdeny, hnone⟩ := decision_of_deny heffect
    obtain ⟨hdeny', hnone'⟩ := decision_of_deny (mt hallow.2 heffect)
    rw [hdeny, hdeny', hnone, hnone']
    exact ⟨rfl, ⟨rfl, .refl _⟩⟩

theorem merge_narrows {os os' : List Obligations} (h : os ⊆ os') (hne : os ≠ []) :
    (mergeObligations os).fields ⊆ (mergeObligations os').fields ∧
      visibility (mergeObligations os').rowScope ≤ visibility (mergeObligations os).rowScope := by
  constructor
  · intro f hf
    obtain ⟨o, ho, hmem⟩ := mem_fields_merge.1 hf
    exact mem_fields_merge.2 ⟨o, h ho, hmem⟩
  · obtain ⟨o, ho⟩ := exists_mem_of_ne_nil os hne
    obtain ⟨o', ho', heq⟩ := (isLeast_merge hne).1
    rw [← heq]
    exact (isLeast_merge (ne_nil_of_mem (h ho))).2 ⟨o', h ho', rfl⟩

/-- Every decision is the combination of the applicable rules: a denial wins, the permits'
obligations add up, the order and the number of times of a rule are irrelevant, and a further
rule cannot show more. -/
theorem evaluate_combines (r : AttributeResolver) (action : String) (policies : List Policy) :
    ((evaluate r action policies).1.effect = .allow ↔
      (∀ rule ∈ rulesOf policies, rule.denies r action = false) ∧
        (∃ rule ∈ rulesOf policies, rule.permits r action = true) ∧
        (mergeObligations (permitted r action (rulesOf policies))).validate = .ok ()) ∧
    ((evaluate r action policies).1.effect = .allow →
      (∀ f, f ∈ (evaluate r action policies).1.obligations.fields ↔
        ∃ rule ∈ rulesOf policies, rule.permits r action = true ∧ f ∈ rule.obligations.fields) ∧
      (evaluate r action policies).1.obligations.fields.Nodup ∧
      IsLeast {w | ∃ rule ∈ rulesOf policies,
          rule.permits r action = true ∧ visibility rule.obligations.rowScope = w}
        (visibility (evaluate r action policies).1.obligations.rowScope)) ∧
    (∀ policies', (∀ rule, rule ∈ rulesOf policies ↔ rule ∈ rulesOf policies') →
      (evaluate r action policies).1.effect = (evaluate r action policies').1.effect ∧
        Equivalent (evaluate r action policies).1.obligations
          (evaluate r action policies').1.obligations) ∧
    ((evaluate r action policies).1.effect = .allow →
      ∀ policies', rulesOf policies ⊆ rulesOf policies' →
        (evaluate r action policies').1.effect = .deny ∨
          (evaluate r action policies').1.effect = .allow ∧
            (evaluate r action policies).1.obligations.fields ⊆
              (evaluate r action policies').1.obligations.fields ∧
            visibility (evaluate r action policies').1.obligations.rowScope ≤
              visibility (evaluate r action policies).1.obligations.rowScope) := by
  refine ⟨effect_allow_iff policies, fun hallow ↦ ?_, fun policies' hsame ↦
    decision_of_same_rules hsame, fun hallow policies' hsub ↦ ?_⟩
  · have hne := permitted_ne_nil.2 ((effect_allow_iff policies).1 hallow).2.1
    rw [decision_of_allow hallow]
    refine ⟨fun f ↦ ?_, nodup_fields_merge _, ?_⟩
    · simp only [mem_fields_merge, mem_permitted]
      grind
    · have hleast := isLeast_merge hne
      simp only [mem_permitted] at hleast
      convert hleast using 3
      grind
  · have hne := permitted_ne_nil.2 ((effect_allow_iff policies).1 hallow).2.1
    by_cases hallow' : (evaluate r action policies').1.effect = .allow
    · right
      rw [decision_of_allow hallow, decision_of_allow hallow']
      refine ⟨rfl, merge_narrows (fun o ho ↦ ?_) hne⟩
      obtain ⟨rule, hrule, hpermits⟩ := mem_permitted.1 ho
      exact mem_permitted.2 ⟨rule, hsub hrule, hpermits⟩
    · exact .inl (decision_of_deny hallow').1

end Rules

end GoCell.Access
