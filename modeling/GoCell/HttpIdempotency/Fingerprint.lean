import GoCell.Kernel.JsonDecode

namespace GoCell.HttpIdempotency

open Kernel

def hashHexLen : ℕ := 64

def maxFingerprintFieldsBytes : ℕ := 8 * 1024

def maxMismatchedFields : ℕ := 20

def maxFieldNameLen : ℕ := 128

inductive BlobField
  | body
  | fields
  deriving DecidableEq

def BlobField.name : BlobField → String
  | .body => "b"
  | .fields => "f"

/-- `fields` is a map, in the order of its keys. -/
structure FingerprintBlob where
  body : Bytes := []
  fields : List (Bytes × Bytes) := []
  deriving DecidableEq

def topLevel (body : Bytes) : Option (List (Bytes × Bytes)) :=
  if jsonValid body then
    if isNull body then some []
    else decodeObject (fun m key value ↦ some (setPair key value m)) [] body
  else none

section

variable (hashHex : Bytes → Bytes)

/-- The hashes of the top-level fields; a map that would exceed the budget is dropped, in whatever
order its fields are visited. -/
def fieldHashes (body : Bytes) : List (Bytes × Bytes) :=
  match topLevel body with
  | none => []
  | some top =>
    if (top.map fun kv ↦ kv.1.length + hashHexLen).sum > maxFingerprintFieldsBytes then []
    else top.map fun kv ↦ (kv.1, hashHex kv.2)

def FingerprintBlob.text (blob : FingerprintBlob) : Bytes :=
  structText BlobField.name ((.body, quote blob.body) ::
    if blob.fields = [] then []
    else [(.fields, objectText (blob.fields.map fun kv ↦ (quote kv.1, quote kv.2)))])

/-- The fingerprint of a request body; `hashHex` is the hexadecimal SHA-256 digest. -/
def computeFingerprint (body : Bytes) : Bytes :=
  FingerprintBlob.text ⟨hashHex body, fieldHashes hashHex body⟩

end

theorem computeFingerprint_ne_nil (hashHex : Bytes → Bytes) (body : Bytes) :
    computeFingerprint hashHex body ≠ [] := by
  unfold computeFingerprint FingerprintBlob.text structText
  rw [List.map_cons]
  exact List.cons_ne_nil _ _

def decodeStringMap (old : List (Bytes × Bytes)) (raw : Bytes) : Option (List (Bytes × Bytes)) :=
  if isNull raw then some []
  else decodeObject (fun m key value ↦ (decodeBytes [] value).map fun v ↦ setPair key v m) old raw

def FingerprintBlob.decodeField (blob : FingerprintBlob) :
    BlobField → Bytes → Option FingerprintBlob
  | .body, raw => (decodeBytes blob.body raw).map fun v ↦ { blob with body := v }
  | .fields, raw => (decodeStringMap blob.fields raw).map fun v ↦ { blob with fields := v }

def parseFingerprint (fingerprint : Bytes) : FingerprintBlob :=
  if jsonValid fingerprint then
    (decodeStruct BlobField.name [.body, .fields] FingerprintBlob.decodeField {}
      fingerprint).getD {}
  else {}

def diffFields (storedBlob incomingBlob : Bytes) : List Bytes :=
  let stored := (parseFingerprint storedBlob).fields
  let incoming := (parseFingerprint incomingBlob).fields
  let changed := incoming.filter fun kv ↦ (stored.lookup kv.1).getD [] ≠ kv.2
  let removed := stored.filter fun kv ↦ (incoming.lookup kv.1).isNone
  ((changed ++ removed).map Prod.fst).mergeSort fun a b ↦ decide (a ≤ b)

def runeBoundary (name : Bytes) : ℕ → ℕ
  | 0 => 0
  | cut + 1 =>
    if (name[cut + 1]?).any fun b ↦ b &&& 0xc0 ≠ 0x80 then cut + 1 else runeBoundary name cut

def truncateFieldName (name : Bytes) : Bytes :=
  if name.length ≤ maxFieldNameLen then name
  else name.take (runeBoundary name maxFieldNameLen) ++ [0xe2, 0x80, 0xa6]

def msgKeyReused : String := "idempotency key reused with a different request body"

/-- The answer to a request whose fingerprint differs from the stored one. The names of the fields
are given with one character for each byte. -/
def keyReusedError (stored incoming : Bytes) : Err :=
  let fields := diffFields stored incoming
  let details := (fields.take maxMismatchedFields).map fun f ↦
    ("mismatchedField", DetailValue.string (textOf (truncateFieldName f)))
  let truncated := if fields.length > maxMismatchedFields then
      [("mismatchedFieldsTruncated", DetailValue.bool true)] else []
  ⟨.unprocessable, .idempotencyKeyReused, msgKeyReused, details ++ truncated⟩

end GoCell.HttpIdempotency
