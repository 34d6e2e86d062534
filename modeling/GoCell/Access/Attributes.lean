import GoCell.Access.Policy

namespace GoCell.Access

open Foundation Kernel

def isHexChar (c : Char) : Bool :=
  ('0' ≤ c && c ≤ '9') || ('a' ≤ c && c ≤ 'f') || ('A' ≤ c && c ≤ 'F')

def uuidDigits (s : String) : Option (List Char) :=
  let cs := s.toList
  if cs.length = 36 then
    if cs.zipIdx.all fun c ↦ if isDashPlace c.2 then c.1 = '-' else isHexChar c.1 then
      some ((cs.zipIdx.filter fun c ↦ !isDashPlace c.2).map Prod.fst)
    else none
  else if cs.length = 32 then
    if cs.all isHexChar then some cs else none
  else none

def parseCanonicalUUID (s : String) : Option String := do
  let digits ← uuidDigits s
  let d := digits.map Char.toLower
  return String.ofList (d.take 8 ++ '-' :: (d.drop 8).take 4 ++ '-' :: (d.drop 12).take 4 ++
    '-' :: (d.drop 16).take 4 ++ '-' :: d.drop 20)

inductive PrincipalKind
  | unknown
  | user
  | service
  | anonymous
  | device
  deriving DecidableEq

def PrincipalKind.text : PrincipalKind → String
  | .unknown => "unknown"
  | .user => "user"
  | .service => "service"
  | .anonymous => "anonymous"
  | .device => "device"

structure Principal where
  kind : PrincipalKind
  subject : String
  roles : List String
  tenantID : String
  claims : String → Option String

structure SubjectDescriptor where
  kind : String
  sub : String
  tenant : String

structure SubjectSource where
  sub : Option String
  kind : Option String
  roles : List String
  tenant : Option String
  claim : String → Option String

def nonEmpty (s : String) : Option String := if s = "" then none else some s

/-- `principalSubjectSource`; the principal may be nil. -/
def principalSubject : Option Principal → SubjectSource
  | none => ⟨none, none, [], none, fun _ ↦ none⟩
  | some p =>
    { sub := (nonEmpty p.subject).map fun s ↦ (parseCanonicalUUID s).getD s
      kind := some p.kind.text
      roles := p.roles
      tenant := nonEmpty p.tenantID
      claim := p.claims }

def descriptorSubject (d : SubjectDescriptor) : SubjectSource where
  sub := nonEmpty d.sub
  kind := nonEmpty d.kind
  roles := []
  tenant := nonEmpty d.tenant
  claim _ := none

/-- The attributes of a request. `now` is the reading of the clock in its own time zone. -/
structure AttributeResolver where
  subject : Option SubjectSource
  now : Time
  resourceAttrs : String → Option (List String)
  resourceID : String

def hourOf (t : Time) : ℤ := t / 3600000000000 % 24

def weekdayOf (t : Time) : String :=
  match t / nanosPerDay % 7 with
  | 0 => "monday"
  | 1 => "tuesday"
  | 2 => "wednesday"
  | 3 => "thursday"
  | 4 => "friday"
  | 5 => "saturday"
  | _ => "sunday"

namespace AttributeResolver

variable (r : AttributeResolver)

def resolveSubject (key : String) : Option (List String) := do
  let subject ← r.subject
  if key = "sub" ∨ key = "subject" then subject.sub.map fun v ↦ [v]
  else if key = "kind" then subject.kind.map fun v ↦ [v]
  else if key = "role" ∨ key = "roles" then some subject.roles
  else if key = "tenant" ∨ key = "tenant_id" then subject.tenant.map fun v ↦ [v]
  else (subject.claim key).map fun v ↦ [v]

def resolveEnvironment (key : String) : Option (List String) :=
  if key = "hour" then some [toString (hourOf r.now)]
  else if key = "day_of_week" then some [weekdayOf r.now]
  else none

def resolveResource (key : String) : Option (List String) :=
  if key = "id" then (nonEmpty r.resourceID).map fun v ↦ [v] else r.resourceAttrs key

/-- The values of an attribute; `none` when it is not found. -/
def resolve : AttributeSource → String → Option (List String)
  | .subject, key => r.resolveSubject key
  | .environment, key => r.resolveEnvironment key
  | .resource, key => r.resolveResource key
  | .invalid, _ => none

end AttributeResolver

def anyIn (vals set : List String) : Bool := vals.any fun v ↦ set.any fun s ↦ v = s

def matchCondition (r : AttributeResolver) (c : Condition) : Bool :=
  match r.resolve c.source c.key with
  | none => false
  | some vals =>
    match c.operator with
    | .equals | .isIn => anyIn vals c.values
    | .notEquals | .notIn => !anyIn vals c.values
    | .equalsAttr =>
      match r.resolve c.rhsSource c.rhsKey with
      | none => false
      | some rvals => anyIn vals rvals
    | .invalid => false

def matchAllConditions (r : AttributeResolver) (conditions : List Condition) : Bool :=
  conditions.all (matchCondition r)

end GoCell.Access
