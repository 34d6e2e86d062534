import GoCell.Foundation.Separators
import GoCell.Idempotency.Keys
import GoCell.Kernel.Tenants

namespace GoCell.HttpIdempotency

open Foundation Idempotency Kernel List

/-- `DeriveKey` and `Flat` on the bytes of Go strings, which need not be UTF-8. -/
def flatKey (tenantID subject method path idemKey : Bytes) : Bytes :=
  (if tenantID = [] then utf8Bytes noTenantSentinel else tenantID) ++
    0x00 :: (subject ++ 0x00 :: (method ++ 0x00 :: (path ++ 0x00 :: idemKey)))

theorem flatKey_utf8Bytes (tenantID subject method path idemKey : String) :
    flatKey (utf8Bytes tenantID) (utf8Bytes subject) (utf8Bytes method) (utf8Bytes path)
        (utf8Bytes idemKey) =
      utf8Bytes (deriveKey tenantID subject method path idemKey).flat := by
  have happend : ∀ a b : String, utf8Bytes (a ++ b) = utf8Bytes a ++ utf8Bytes b := by
    intro a b
    simp [utf8Bytes]
  have hnul : utf8Bytes "\x00" = [0x00] := by decide
  have hempty : utf8Bytes tenantID = [] ↔ tenantID = "" := by
    rw [← String.toByteArray_inj]
    simp [utf8Bytes, ByteArray.ext_iff]
  simp only [flatKey, IdempotencyKey.flat, deriveKey, tenantNamespace, happend, hnul, hempty]
  split
  · simp
  · simp

/-- `isValidIdempotencyKey`: a byte that is not ASCII belongs to no printable ASCII rune. -/
def validKeyBytes (key : Bytes) : Bool :=
  key.all fun c ↦ c ≠ 0x7b && c ≠ 0x7d && 0x20 ≤ c && c ≤ 0x7e

def EmptyOrUUID (tenantID : Bytes) : Prop :=
  tenantID = [] ∨ tenantID.length = canonicalUUIDLen ∧ uuidShaped Scanner.isHex tenantID = true

theorem nul_notMem_of_validKeyBytes {key : Bytes} (h : validKeyBytes key = true) :
    0x00 ∉ key := by
  intro hmem
  have hnul := all_eq_true.1 h _ hmem
  revert hnul
  decide

section

variable {tenantID tenantID' : Bytes}

theorem nul_notMem_namespace (h : EmptyOrUUID tenantID) :
    0x00 ∉ (if tenantID = [] then utf8Bytes noTenantSentinel else tenantID) := by
  obtain rfl | ⟨hlength, hshape⟩ := h
  · decide
  · rw [if_neg (by rintro rfl; cases hlength)]
    exact nul_notMem_of_uuidShaped hshape

theorem namespace_inj (h : EmptyOrUUID tenantID) (h' : EmptyOrUUID tenantID')
    (heq : (if tenantID = [] then utf8Bytes noTenantSentinel else tenantID) =
      if tenantID' = [] then utf8Bytes noTenantSentinel else tenantID') :
    tenantID = tenantID' := by
  have hsentinel : (utf8Bytes noTenantSentinel).length ≠ canonicalUUIDLen := by decide
  grind [EmptyOrUUID]

variable {subject subject' method method' path path' idemKey idemKey' : Bytes}

/-- The flat key of a request has its five parts: the NUL bytes before the path are found from the
left, the one after it from the right. -/
theorem flatKey_eq_iff (ht : EmptyOrUUID tenantID) (ht' : EmptyOrUUID tenantID')
    (hs : 0x00 ∉ subject) (hs' : 0x00 ∉ subject') (hm : 0x00 ∉ method) (hm' : 0x00 ∉ method')
    (hk : validKeyBytes idemKey = true) (hk' : validKeyBytes idemKey' = true) :
    flatKey tenantID subject method path idemKey =
        flatKey tenantID' subject' method' path' idemKey' ↔
      tenantID = tenantID' ∧ subject = subject' ∧ method = method' ∧ path = path' ∧
        idemKey = idemKey' := by
  constructor
  · intro h
    obtain ⟨hns, hkey⟩ := split_first (nul_notMem_namespace ht) (nul_notMem_namespace ht') h
    obtain ⟨hsubject, hmethods⟩ := split_first hs hs' hkey
    obtain ⟨hmethod, hpaths⟩ := split_first hm hm' hmethods
    obtain ⟨hpath, hidem⟩ :=
      split_last (nul_notMem_of_validKeyBytes hk) (nul_notMem_of_validKeyBytes hk') hpaths
    exact ⟨namespace_inj ht ht' hns, hsubject, hmethod, hpath, hidem⟩
  · rintro ⟨rfl, rfl, rfl, rfl, rfl⟩
    rfl

/-- A path that ends in a NUL byte and the start of another key is told from a shorter path. -/
theorem flatKey_eq_iff_nul_path :
    flatKey [] [0x75] [0x50] [0x2f, 0x00, 0x61] [0x62] =
        flatKey [] [0x75] [0x50] [0x2f] [0x61, 0x62] ↔
      ([] : Bytes) = [] ∧ [(0x75 : UInt8)] = [0x75] ∧ [(0x50 : UInt8)] = [0x50] ∧
        [(0x2f : UInt8), 0x00, 0x61] = [0x2f] ∧ [(0x62 : UInt8)] = [0x61, 0x62] :=
  flatKey_eq_iff (.inl rfl) (.inl rfl) (by decide) (by decide) (by decide) (by decide) (by decide)
    (by decide)

end

end GoCell.HttpIdempotency
