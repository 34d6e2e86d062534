import GoCell.Access.Attributes
import GoCell.Foundation.Folds

namespace GoCell.Access

open Foundation Kernel

section Baseline

def roleAdmin : String := "admin"

def roleSuperAdmin : String := "superadmin"

def adminOrSuperAdmin : Condition where
  source := .subject
  key := "roles"
  operator := .isIn
  values := [roleAdmin, roleSuperAdmin]

def subjectIsResource : Condition where
  source := .subject
  key := "sub"
  operator := .equalsAttr
  rhsSource := .resource
  rhsKey := "id"

def deviceSelfOwnership : List Condition :=
  [{ source := .subject, key := "kind", operator := .equals,
     values := [PrincipalKind.device.text] },
   subjectIsResource]

def baselineRule (id permission : String) (conditions : List Condition) : Rule where
  id := id
  effect := .allow
  action := [permission]
  conditions := conditions

def builtinBaselineRules : List Rule :=
  [baselineRule "baseline-audit-read-admin" "audit:read" [adminOrSuperAdmin],
    baselineRule "baseline-system-read-admin" "system:read" [adminOrSuperAdmin],
    baselineRule "baseline-session-verify-admin" "session:verify" [adminOrSuperAdmin],
    baselineRule "baseline-config-read-admin" "config:read" [adminOrSuperAdmin],
    baselineRule "baseline-config-write-admin" "config:write" [adminOrSuperAdmin],
    baselineRule "baseline-config-publish-admin" "config:publish" [adminOrSuperAdmin],
    baselineRule "baseline-flag-read-admin" "flag:read" [adminOrSuperAdmin],
    baselineRule "baseline-flag-write-admin" "flag:write" [adminOrSuperAdmin],
    baselineRule "baseline-policy-read-admin" "policy:read" [adminOrSuperAdmin],
    baselineRule "baseline-policy-write-admin" "policy:write" [adminOrSuperAdmin],
    baselineRule "baseline-user-read-admin" "user:read" [adminOrSuperAdmin],
    baselineRule "baseline-user-write-admin" "user:write" [adminOrSuperAdmin],
    baselineRule "baseline-role-read-admin" "role:read" [adminOrSuperAdmin],
    baselineRule "baseline-registry-approve-admin" "registry:approve" [adminOrSuperAdmin],
    baselineRule "baseline-registry-reject-admin" "registry:reject" [adminOrSuperAdmin],
    baselineRule "baseline-registry-retire-admin" "registry:retire" [adminOrSuperAdmin],
    baselineRule "baseline-user-read-self" "user:read" [subjectIsResource],
    baselineRule "baseline-user-write-self" "user:write" [subjectIsResource],
    baselineRule "baseline-role-read-self" "role:read" [subjectIsResource],
    baselineRule "baseline-access-decide-self" "access:decide" [subjectIsResource],
    baselineRule "baseline-access-decide-admin" "access:decide" [adminOrSuperAdmin],
    baselineRule "baseline-device-read-admin" "device:read" [adminOrSuperAdmin],
    baselineRule "baseline-device-read-self" "device:read" deviceSelfOwnership,
    baselineRule "baseline-device-enroll-admin" "device:enroll" [adminOrSuperAdmin],
    baselineRule "baseline-device-enroll-self" "device:enroll" deviceSelfOwnership]

end Baseline

def ruleIDDefaultDeny : String := "_default-deny"

def ruleIDInvalidObligations : String := "_invalid-obligations"

structure Permits where
  obligations : List Obligations := []
  firstPermitID : String := ""

def mergeObligations (obligations : List Obligations) : Obligations :=
  obligations.foldl
    (fun merged o ↦ ⟨narrower merged.rowScope o.rowScope, o.fields.foldl addNew merged.fields⟩) {}

variable (r : AttributeResolver) (action : String)

def applyRule (permits : Permits) (rule : Rule) : Except (Decision × String) Permits :=
  if 0 < rule.action.length ∧ action ∉ rule.action then .ok permits
  else if matchAllConditions r rule.conditions = false then .ok permits
  else
    match rule.effect with
    | .deny => .error (.deny "authorization-decide: denied by policy (forbid-wins)", rule.id)
    | .allow =>
      -- an allow without action is no wildcard
      if rule.action.length = 0 then .ok permits
      else .ok
        { obligations := permits.obligations ++ [rule.obligations]
          firstPermitID := if permits.firstPermitID = "" then rule.id else permits.firstPermitID }
    | .invalid => .ok permits

def collectPermits (policies : List Policy) : Except (Decision × String) Permits := do
  let permits ← builtinBaselineRules.foldlM (applyRule r action) {}
  policies.foldlM (fun permits p ↦ p.rules.foldlM (applyRule r action) permits) permits

def decideFrom (permits : Permits) : Decision × String :=
  if permits.obligations.length = 0 then
    (.deny "authorization-decide: no applicable permit (default-deny)", ruleIDDefaultDeny)
  else
    match Decision.allow (mergeObligations permits.obligations) with
    | .error _ => (.deny "authorization-decide: invalid obligations", ruleIDInvalidObligations)
    | .ok decision => (decision, permits.firstPermitID)

def evaluate (policies : List Policy) : Decision × String :=
  match collectPermits r action policies with
  | .error denied => denied
  | .ok permits => decideFrom permits

end GoCell.Access
