import Mathlib.Data.String.Basic

namespace GoCell.Idempotency

structure IdempotencyKey where
  ns : String
  key : String
  deriving DecidableEq

def noTenantSentinel : String := "_notenant"

def IdempotencyKey.flat (k : IdempotencyKey) : String := k.ns ++ "\x00" ++ k.key

def tenantNamespace (tenantID : String) : String :=
  if tenantID = "" then noTenantSentinel else tenantID

def deriveKey (tenantID subject method path idemKey : String) : IdempotencyKey :=
  ⟨tenantNamespace tenantID, subject ++ "\x00" ++ method ++ "\x00" ++ path ++ "\x00" ++ idemKey⟩

def deriveCommandKey (tenantID subject commandID : String) : IdempotencyKey :=
  ⟨tenantNamespace tenantID, subject ++ "\x00" ++ commandID⟩

end GoCell.Idempotency
