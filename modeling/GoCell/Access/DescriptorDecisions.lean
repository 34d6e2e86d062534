import GoCell.Access.MissingAttributes

namespace GoCell.Access

open Foundation Kernel List

def parseTenantID (s : String) : Option String :=
  if s = "00000000-0000-0000-0000-000000000000" ∨ s.utf8ByteSize ≠ 36 then none
  else parseCanonicalUUID s

structure EvalInputs where
  policies : List Policy
  resourceAttrs : String → Option (List String)

def errInvalidTenantDescriptor : Err :=
  ⟨.permissionDenied, .authForbidden, "authorization-decide: invalid tenant in SubjectDescriptor",
    []⟩

def errStoreUnavailable : Err :=
  ⟨.unavailable, .serviceUnavailable, "authorization-decide: policy store unavailable", []⟩

def descriptorResolver (d : SubjectDescriptor) (now : Time) (inputs : EvalInputs)
    (resource : String) : AttributeResolver :=
  ⟨some (descriptorSubject d), now, inputs.resourceAttrs, resource⟩

/-- `load` is `loadEvalInputs`, for a tenant and a resource. -/
def authorizeAs (load : String → String → Option EvalInputs) (now : Time) (d : SubjectDescriptor)
    (resource action : String) : Except Err Decision :=
  match parseTenantID d.tenant with
  | none => .error errInvalidTenantDescriptor
  | some tid =>
    match load tid resource with
    | none => .error errStoreUnavailable
    | some inputs =>
      .ok (evaluate (descriptorResolver d now inputs resource) action inputs.policies).1

def isRoles (source : AttributeSource) (key : String) : Bool :=
  source = .subject && (key = "role" || key = "roles")

namespace Condition

def readsRoles (c : Condition) : Bool :=
  isRoles c.source c.key || c.operator = .equalsAttr && isRoles c.rhsSource c.rhsKey

def excludes (c : Condition) : Bool := c.operator = .notEquals || c.operator = .notIn

end Condition

section Roles

variable {d : SubjectDescriptor} {now : Time} {inputs : EvalInputs} {resource : String}

theorem resolve_roles {source : AttributeSource} {key : String} (h : isRoles source key = true) :
    (descriptorResolver d now inputs resource).resolve source key = some [] := by
  simp only [isRoles, Bool.and_eq_true, Bool.or_eq_true, decide_eq_true_eq] at h
  obtain ⟨rfl, rfl | rfl⟩ := h <;> rfl

theorem anyIn_nil_right (vals : List String) : anyIn vals [] = false := by
  induction vals with
  | nil => rfl
  | cons v vals ih => exact ih

theorem matchCondition_roles {c : Condition} (h : c.readsRoles = true) :
    matchCondition (descriptorResolver d now inputs resource) c = c.excludes := by
  unfold matchCondition Condition.excludes
  cases hleft : isRoles c.source c.key with
  | true =>
    rw [resolve_roles hleft]
    cases c.operator with
    | equalsAttr =>
      cases (descriptorResolver d now inputs resource).resolve c.rhsSource c.rhsKey <;> rfl
    | equals | notEquals | isIn | notIn | invalid => rfl
  | false =>
    simp only [Condition.readsRoles, hleft, Bool.false_or, Bool.and_eq_true, decide_eq_true_eq] at h
    obtain ⟨hop, hright⟩ := h
    rw [hop]
    cases (descriptorResolver d now inputs resource).resolve c.source c.key with
    | none => rfl
    | some vals => simp [resolve_roles hright, anyIn_nil_right]

theorem permits_iff {action : String} {rule : Rule} :
    rule.permits (descriptorResolver d now inputs resource) action = true ↔
      rule.effect = .allow ∧ action ∈ rule.action ∧
        (∀ c ∈ rule.conditions, c.readsRoles = true → c.excludes = true) ∧
        ∀ c ∈ rule.conditions, c.readsRoles = false →
          matchCondition (descriptorResolver d now inputs resource) c = true := by
  simp only [Rule.permits, decide_eq_true_eq, matchAllConditions, all_eq_true]
  refine and_congr_right fun _ ↦ and_congr_right fun _ ↦ ?_
  rw [← forall₂_and]
  refine forall₂_congr fun c _ ↦ ?_
  cases hroles : c.readsRoles with
  | true => simp [matchCondition_roles hroles]
  | false => simp

end Roles

/-- A permit with role conditions applies to a descriptor exactly when all of these are negative. -/
theorem authorizeAs_allows_iff (load : String → String → Option EvalInputs) (now : Time)
    (d : SubjectDescriptor) (resource action : String) :
    (∃ decision, authorizeAs load now d resource action = .ok decision ∧ decision.effect = .allow) ↔
      ∃ inputs, (parseTenantID d.tenant).bind (load · resource) = some inputs ∧
        let r := descriptorResolver d now inputs resource
        (∀ rule ∈ rulesOf inputs.policies, rule.denies r action = false) ∧
        (∃ rule ∈ rulesOf inputs.policies, rule.effect = .allow ∧ action ∈ rule.action ∧
          (∀ c ∈ rule.conditions, c.readsRoles = true → c.excludes = true) ∧
          ∀ c ∈ rule.conditions, c.readsRoles = false → matchCondition r c = true) ∧
        (mergeObligations (permitted r action (rulesOf inputs.policies))).validate = .ok () := by
  unfold authorizeAs
  cases parseTenantID d.tenant with
  | none => simp
  | some tid =>
    simp only [Option.bind_some]
    cases load tid resource with
    | none => simp
    | some => simp [effect_allow_iff, permits_iff]

def unbannedPolicy : Policy where
  rules :=
    [{ id := "unbanned", effect := .allow, action := ["report:read"], conditions :=
        [{ source := .subject, key := "roles", operator := .notIn, values := ["banned"] }] }]

/-- The only permit for the action requires a role not to be held. -/
theorem role_condition_allows :
    ¬∀ (load : String → String → Option EvalInputs) (now : Time) (d : SubjectDescriptor)
      (resource action : String) (inputs : EvalInputs),
      (parseTenantID d.tenant).bind (load · resource) = some inputs →
      (∀ rule ∈ rulesOf inputs.policies, rule.effect = .allow → action ∈ rule.action →
        ∃ c ∈ rule.conditions, c.readsRoles = true) →
      ∀ decision, authorizeAs load now d resource action = .ok decision →
        decision.effect = .deny := by
  intro h
  have hdeny := h (fun _ _ ↦ some ⟨[unbannedPolicy], fun _ ↦ none⟩) 0
    ⟨"device", "d1", "3f2504e0-4f89-11d3-9a0c-0305e82c3301"⟩ "r1" "report:read" _ rfl
    (by decide +kernel) _ rfl
  revert hdeny
  decide +kernel

end GoCell.Access
