import GoCell.Access.Combining

namespace GoCell.Access

open Foundation Kernel List

def Removes (r r' : AttributeResolver) : Prop :=
  ∀ source key, r'.resolve source key = none ∨ r'.resolve source key = r.resolve source key

/-- The condition reads an attribute that is not the same without the removed ones. -/
def Condition.ReadsRemoved (r r' : AttributeResolver) (c : Condition) : Prop :=
  r'.resolve c.source c.key ≠ r.resolve c.source c.key ∨
    c.operator = .equalsAttr ∧ r'.resolve c.rhsSource c.rhsKey ≠ r.resolve c.rhsSource c.rhsKey

instance (r r' : AttributeResolver) (c : Condition) : Decidable (c.ReadsRemoved r r') :=
  inferInstanceAs (Decidable (_ ∨ _))

section Conditions

variable {r r' : AttributeResolver} {action : String}

theorem matchCondition_eq {c : Condition} (hc : ¬c.ReadsRemoved r r') :
    matchCondition r' c = matchCondition r c := by
  obtain ⟨hleft, hright⟩ := not_or.1 hc
  unfold matchCondition
  rw [not_not.1 hleft]
  cases r.resolve c.source c.key with
  | none => rfl
  | some vals =>
    cases hop : c.operator with
    | equalsAttr =>
      have hr := not_not.1 fun hne ↦ hright ⟨hop, hne⟩
      simp only [hr]
    | equals | notEquals | isIn | notIn | invalid => rfl

section

variable (h : Removes r r')
include h

theorem Removes.matchCondition_of_readsRemoved {c : Condition} (hc : c.ReadsRemoved r r') :
    matchCondition r' c = false := by
  unfold matchCondition
  obtain hleft | ⟨hop, hright⟩ := hc
  · rw [(h c.source c.key).resolve_right hleft]
  · have hnone := (h c.rhsSource c.rhsKey).resolve_right hright
    cases r'.resolve c.source c.key with
    | none => rfl
    | some vals => simp only [hop, hnone]

theorem Removes.matchAllConditions_mono {conditions : List Condition}
    (hmatch : matchAllConditions r' conditions = true) :
    matchAllConditions r conditions = true := by
  refine all_eq_true.2 fun c hc ↦ ?_
  have htrue := all_eq_true.1 hmatch c hc
  rw [← matchCondition_eq fun hreads ↦ ?_]
  · exact htrue
  · cases (h.matchCondition_of_readsRemoved hreads).symm.trans htrue

theorem Removes.permits_mono {rule : Rule}
    (hpermits : rule.permits r' action = true) : rule.permits r action = true := by
  simp only [Rule.permits, decide_eq_true_eq] at hpermits ⊢
  exact ⟨hpermits.1, hpermits.2.1, h.matchAllConditions_mono hpermits.2.2⟩

end

theorem denies_of_kept {rule : Rule} (hdenies : rule.denies r action = true)
    (hkept : ∀ c ∈ rule.conditions, ¬c.ReadsRemoved r r') : rule.denies r' action = true := by
  simp only [Rule.denies, decide_eq_true_eq] at hdenies ⊢
  refine ⟨hdenies.1, hdenies.2.1, all_eq_true.2 fun c hc ↦ ?_⟩
  rw [matchCondition_eq (hkept c hc)]
  exact all_eq_true.1 hdenies.2.2 c hc

end Conditions

section Decisions

variable {r r' : AttributeResolver} {action : String} {policies : List Policy}

theorem effect_deny_iff :
    (evaluate r action policies).1.effect = .deny ↔
      (evaluate r action policies).1.effect ≠ .allow := by
  refine ⟨fun hdeny hallow ↦ ?_, fun h ↦ (decision_of_deny h).1⟩
  cases hdeny.symm.trans hallow

end Decisions

section Suspension

def suspensionPolicy : Policy where
  rules :=
    [{ id := "read", effect := .allow, action := ["document:read"] },
      { id := "suspended", effect := .deny, conditions :=
        [{ source := .subject, key := "suspended", operator := .equals, values := ["true"] }] }]

def sampleRequest (claims : String → Option String) : AttributeResolver where
  subject := some (principalSubject (some ⟨.user, "alice", [], "acme", claims⟩))
  now := 0
  resourceAttrs _ := none
  resourceID := ""

def suspended : AttributeResolver :=
  sampleRequest fun key ↦ if key = "suspended" then some "true" else none

def anonymised : AttributeResolver := sampleRequest fun _ ↦ none

theorem suspended_removes : Removes suspended anonymised := by
  intro source key
  cases source with
  | subject =>
    simp only [AttributeResolver.resolve, AttributeResolver.resolveSubject, suspended, anonymised,
      sampleRequest, principalSubject, Option.bind_eq_bind, Option.bind_some]
    split_ifs <;> simp
  | resource | environment | invalid => exact .inr rfl

def servicesOnlyPolicy : Policy where
  rules :=
    [{ id := "read", effect := .allow, action := ["document:read"] },
      { id := "users", effect := .deny, conditions :=
        [{ source := .subject, key := "kind", operator := .equals, values := ["user"] }] }]

end Suspension

end GoCell.Access
