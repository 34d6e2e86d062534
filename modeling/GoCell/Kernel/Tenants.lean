import GoCell.Kernel.Encodings

namespace GoCell.Kernel

open Foundation List

def canonicalUUIDLen : ℕ := 36

def reservedNilUUID : Bytes := asciiBytes "00000000-0000-0000-0000-000000000000"

def isDashPlace (i : ℕ) : Bool := i = 8 || i = 13 || i = 18 || i = 23

/-- The 36 bytes are a UUID with digits as `digit` has them. -/
def uuidShaped (digit : UInt8 → Bool) (s : Bytes) : Bool :=
  s.zipIdx.all fun c ↦ if isDashPlace c.2 then c.1 = 0x2d else digit c.1

/-- `TenantID.Validate`: `uuid.Parse` reads digits in either case, and its text has lowercase
ones. -/
def validateTenantID (t : Bytes) : Except String Unit := do
  require (t ≠ reservedNilUUID)
    "tenant: TenantID \"00000000-0000-0000-0000-000000000000\" is reserved and invalid"
  require (t ≠ []) "tenant: TenantID required (empty)"
  require (t.length = canonicalUUIDLen)
    "tenant: TenantID must be a canonical 36-char dashed UUID"
  require (uuidShaped Scanner.isHex t) "tenant: TenantID must be a UUID: invalid UUID format"
  require (uuidShaped isLowerHex t)
    "tenant: TenantID must be a canonical lowercase UUID; use ParseTenantID to normalize"

theorem nul_notMem_of_uuidShaped {t : Bytes} (h : uuidShaped Scanner.isHex t = true) :
    0x00 ∉ t := by
  intro hmem
  obtain ⟨i, hi⟩ := mem_iff_getElem?.1 hmem
  have hbyte := all_eq_true.1 h (0x00, i) (mem_zipIdx_iff_getElem?.2 hi)
  have hdash : ¬decide ((0x00 : UInt8) = 0x2d) = true := by decide
  have hhex : ¬Scanner.isHex 0x00 = true := by decide
  grind

theorem nul_notMem_of_validateTenantID {t : Bytes} (h : validateTenantID t = .ok ()) :
    0x00 ∉ t := by
  refine nul_notMem_of_uuidShaped ?_
  simp only [validateTenantID, check_ok, require_ok, decide_eq_true_eq] at h
  exact h.2.2.2.1

/-- A `RowScope`; `invalid` is the zero value and every number without a name. -/
inductive RowScope
  | self
  | device
  | tenant
  | all
  | invalid (n : ℕ)
  deriving DecidableEq

def RowScope.text : RowScope → String
  | .self => "self"
  | .device => "device"
  | .tenant => "tenant"
  | .all => "all"
  | .invalid _ => "invalid"

structure RowVisibility where
  scope : RowScope
  subject : Bytes
  deriving DecidableEq

namespace RowVisibility

def validate (v : RowVisibility) : Except String Unit :=
  match v.scope with
  | .invalid n => .error ("tenant: invalid RowScope " ++ toString n)
  | .self | .device =>
    require (v.subject ≠ [])
      ("tenant: RowScope " ++ v.scope.text ++ " requires a non-empty subject")
  | .tenant | .all =>
    require (v.subject = [])
      ("tenant: RowScope " ++ v.scope.text ++ " must carry an empty subject (no owner identity)")

def allows (v : RowVisibility) (owner : Bytes) : Bool :=
  match v.scope with
  | .self | .device => owner = v.subject
  | _ => true

end RowVisibility

end GoCell.Kernel
