import GoCell.Kernel.Tenants

namespace GoCell.Access

open Foundation Kernel

/-- An `Effect`; `invalid` stands for the zero value and every number without a name. -/
inductive Effect
  | allow
  | deny
  | invalid
  deriving DecidableEq

inductive Operator
  | equals
  | notEquals
  | isIn
  | notIn
  | equalsAttr
  | invalid
  deriving DecidableEq

inductive AttributeSource
  | subject
  | resource
  | environment
  | invalid
  deriving DecidableEq

structure Condition where
  source : AttributeSource
  key : String
  operator : Operator
  values : List String := []
  rhsSource : AttributeSource := .invalid
  rhsKey : String := ""
  deriving DecidableEq

def rowScopeOf : UInt8 → RowScope
  | 1 => .self
  | 2 => .device
  | 3 => .tenant
  | 4 => .all
  | n => .invalid n.toNat

/-- `Narrower`: zero is no constraint. -/
def narrower (scope other : UInt8) : UInt8 :=
  if scope = 0 then other
  else if other = 0 then scope
  else if scope ≤ other then scope
  else other

/-- A `FieldMask` as the list of its fields, and a row scope. -/
structure Obligations where
  rowScope : UInt8 := 0
  fields : List String := []
  deriving DecidableEq

inductive Invalid
  | coded (e : Err)
  | plain (message : String)
  deriving DecidableEq

def isControl (c : Char) : Bool := c.toNat ≤ 0x1F || (0x7F ≤ c.toNat && c.toNat ≤ 0x9F)

def isSpace (c : Char) : Bool :=
  (0x09 ≤ c.toNat && c.toNat ≤ 0x0D) || c.toNat = 0x20 || c.toNat = 0x85 || c.toNat = 0xA0 ||
    c.toNat = 0x1680 || (0x2000 ≤ c.toNat && c.toNat ≤ 0x200A) || c.toNat = 0x2028 ||
    c.toNat = 0x2029 || c.toNat = 0x202F || c.toNat = 0x205F || c.toNat = 0x3000

def isKeyLetter (c : Char) : Bool := ('A' ≤ c && c ≤ 'Z') || ('a' ≤ c && c ≤ 'z')

/-- The pattern `^[A-Za-z][A-Za-z0-9_.]*$`. -/
def matchesKeyPattern (s : String) : Bool :=
  match s.toList with
  | [] => false
  | c :: rest =>
    isKeyLetter c && rest.all fun d ↦ isKeyLetter d || ('0' ≤ d && d ≤ '9') || d = '_' || d = '.'

def validAttributeKey (s : String) : Except Err Unit := do
  require (s ≠ "") (validationFailed "authz: attribute key must not be empty")
  require (s.toList.all fun c ↦ !(isControl c || isSpace c))
    (validationFailed "authz: attribute key must not contain whitespace or control characters")
  require (matchesKeyPattern s)
    (validationFailed "authz: attribute key must match ^[A-Za-z][A-Za-z0-9_.]*$")

def validateFields (seen : List String) : List String → Except Err Unit
  | [] => .ok ()
  | f :: fields => do
    validAttributeKey f
    require (f ∉ seen) (validationFailed "authz: FieldMask contains duplicate column name"
      [("column", .string f)])
    validateFields (f :: seen) fields

namespace Obligations

def validateRowScope (o : Obligations) : Except Invalid Unit :=
  if o.rowScope = 0 then .ok ()
  else
    match rowScopeOf o.rowScope with
    | .invalid n => .error (.plain ("tenant: invalid RowScope " ++ toString n))
    | _ => .ok ()

def validate (o : Obligations) : Except Invalid Unit := do
  o.validateRowScope
  (validateFields [] o.fields).mapError .coded

end Obligations

structure Rule where
  id : String
  effect : Effect
  conditions : List Condition := []
  action : List String := []
  obligations : Obligations := {}
  deriving DecidableEq

structure Policy where
  rules : List Rule
  deriving DecidableEq

structure Decision where
  effect : Effect
  obligations : Obligations
  reason : String
  deriving DecidableEq

namespace Decision

def allow (o : Obligations) : Except Invalid Decision := do
  o.validate
  return ⟨.allow, o, ""⟩

def deny (reason : String) : Decision := ⟨.deny, {}, reason⟩

end Decision

end GoCell.Access
