import GoCell.Auth.NonceStore
import GoCell.Kernel.URLQuery

namespace GoCell.Auth

open Foundation Kernel

structure Request where
  method : Bytes
  path : Bytes
  rawQuery : Bytes := []
  tenantID : Bytes := []
  principal : Bytes := []
  deriving DecidableEq

/-- The secrets of a cell, the current one first; `none` when the keyring returns an error. -/
structure ServiceKeyring where
  signingSecrets : Bytes → Option (List Bytes)
  verifySecrets : Bytes → Option (List Bytes)

structure TokenError where
  err : Err
  cause : Option Err := none
  deriving DecidableEq

def unauthorized (message : String) : TokenError :=
  ⟨⟨.unauthenticated, .authUnauthorized, message, []⟩, none⟩

def tokenExpired (message : String) : TokenError :=
  ⟨⟨.unauthenticated, .authTokenExpired, message, []⟩, none⟩

def msgInvalidServiceTokenFormat : String := "invalid service token format"

/-- `canonicalQuery`: the query as it is when it does not parse. -/
def canonicalQuery (rawQuery : Bytes) : Bytes :=
  if rawQuery = [] then []
  else
    match parseQuery rawQuery with
    | none => rawQuery
    | some params => encodeQuery params

def requestTarget (path rawQuery : Bytes) : Bytes :=
  if canonicalQuery rawQuery ≠ [] then path ++ 0x3f :: canonicalQuery rawQuery else path

def buildServiceTokenMessage (method path rawQuery tsStr nonce callerCell tenantID
    principalHeader : Bytes) : Bytes :=
  let suffix := asciiBytes " x-tenant-id=" ++ tenantID ++ asciiBytes " x-gocell-principal=" ++
    principalHeader
  joinWith 0x20 [method, requestTarget path rawQuery, tsStr, nonce, callerCell] ++ suffix

/-- `strings.SplitN` with at most `n + 1` parts. -/
def splitAtMost (sep : UInt8) : ℕ → Bytes → List Bytes
  | 0, s => [s]
  | n + 1, s =>
    match cut sep s with
    | some (before, after) => before :: splitAtMost sep n after
    | none => [s]

structure Token where
  tsStr : Bytes
  nonce : Bytes
  callerCell : Bytes
  sigHex : Bytes
  deriving DecidableEq

def parseToken (payload : Bytes) : Except TokenError Token :=
  match splitAtMost 0x3a 3 payload with
  | [_, _] => .error (unauthorized "legacy 2-part service token format rejected")
  | [_, _, _] => .error (unauthorized "legacy 3-part service token format rejected")
  | [tsStr, nonce, callerCell, sigHex] => .ok ⟨tsStr, nonce, callerCell, sigHex⟩
  | _ => .error (unauthorized msgInvalidServiceTokenFormat)

def Token.message (t : Token) (r : Request) : Bytes :=
  buildServiceTokenMessage r.method r.path r.rawQuery t.tsStr t.nonce t.callerCell r.tenantID
    r.principal

/-- The pattern `^[a-z][a-z0-9]{1,31}$`. -/
def matchCellID : Bytes → Bool
  | [] => false
  | c :: rest =>
    (0x61 ≤ c && c ≤ 0x7a) && (1 ≤ rest.length && rest.length ≤ 31) &&
      rest.all fun c ↦ (0x61 ≤ c && c ≤ 0x7a) || (0x30 ≤ c && c ≤ 0x39)

def validateCallerCell (callerCell : Bytes) : Except TokenError Unit := do
  require (callerCell ≠ []) (unauthorized "caller cell missing")
  require (matchCellID callerCell)
    ⟨⟨.unauthenticated, .authUnauthorized, "caller cell id invalid",
      [("callerCell", .string (textOf callerCell))]⟩, none⟩

def checkTokenTime (now : Time) (tsStr : Bytes) : Except TokenError Unit :=
  match parseInt tsStr with
  | none => .error (unauthorized msgInvalidServiceTokenFormat)
  | some ts => do
    require (timeUnix ts ≤ now + serviceTokenClockSkew)
      (tokenExpired "service token timestamp is too far in the future")
    require (timeSub now (timeUnix ts) < serviceTokenMaxAge) (tokenExpired "service token expired")

/-- The arguments of a call of `GenerateServiceToken`, with the bytes that it draws. -/
structure GenerateCall where
  callerCell : Bytes
  method : Bytes
  path : Bytes
  rawQuery : Bytes := []
  tenantID : Bytes := []
  principalHeader : Bytes := []
  ts : Time
  nonceBytes : { b : Bytes // b.length = 16 }
  deriving DecidableEq

namespace GenerateCall

variable (c : GenerateCall)

def tsStr : Bytes := decimal (unixSeconds c.ts)

def nonce : Bytes := hexEncode c.nonceBytes.1

def message : Bytes :=
  buildServiceTokenMessage c.method c.path c.rawQuery c.tsStr c.nonce c.callerCell c.tenantID
    c.principalHeader

end GenerateCall

section

-- HMAC-SHA256 of a key and a message.
variable (hmac : Bytes → Bytes → Bytes) (ring : ServiceKeyring)

def generateServiceToken (c : GenerateCall) : Bytes :=
  if c.callerCell = [] ∨ 0x3a ∈ c.callerCell then []
  else
    match ring.signingSecrets c.callerCell with
    | some (secret :: _) =>
      c.tsStr ++ 0x3a :: (c.nonce ++ 0x3a :: (c.callerCell ++ 0x3a ::
        hexEncode (hmac secret c.message)))
    | _ => []

def verifyServiceTokenMAC (callerCell message providedMAC : Bytes) : Bool :=
  ((ring.verifySecrets callerCell).getD []).any fun secret ↦ providedMAC = hmac secret message

def checkServiceToken (now : Time) (payload : Bytes) (r : Request) : Except TokenError Token := do
  let t ← parseToken payload
  checkTokenTime now t.tsStr
  validateCallerCell t.callerCell
  match hexDecode t.sigHex with
  | none => .error (unauthorized msgInvalidServiceTokenFormat)
  | some providedMAC =>
    require (verifyServiceTokenMAC hmac ring t.callerCell (t.message r) providedMAC)
      (unauthorized "invalid service token MAC")
    return t

def verifyServiceTokenPayload {σ : Type} (ring : ServiceKeyring) (now : Time)
    (nonceStore : NonceStore σ) (store : σ) (payload : Bytes) (r : Request) :
    Except TokenError Bytes × σ :=
  match checkServiceToken hmac ring now payload r with
  | .error e => (.error e, store)
  | .ok t =>
    match nonceStore.checkAndMark store t.nonce with
    | (.error e, store) =>
      (.error ⟨⟨.unauthenticated, .authUnauthorized, "service token nonce check failed", []⟩,
        some e⟩, store)
    | (.ok (), store) => (.ok t.callerCell, store)

end

variable {hmac : Bytes → Bytes → Bytes} {ring : ServiceKeyring} {now : Time} {payload : Bytes}
  {r : Request}

theorem checkServiceToken_ok {t : Token} : checkServiceToken hmac ring now payload r = .ok t ↔
      parseToken payload = .ok t ∧ checkTokenTime now t.tsStr = .ok () ∧
        validateCallerCell t.callerCell = .ok () ∧
        ∃ mac, hexDecode t.sigHex = some mac ∧
          verifyServiceTokenMAC hmac ring t.callerCell (t.message r) mac = true := by
  unfold checkServiceToken
  constructor
  · intro h
    obtain ⟨t', hparse, h⟩ := bind_ok.1 h
    obtain ⟨htime, h⟩ := check_ok.1 h
    obtain ⟨hcell, h⟩ := check_ok.1 h
    split at h
    · cases h
    · next mac hmac' =>
      obtain ⟨hverified, h⟩ := check_ok.1 h
      cases h
      exact ⟨hparse, htime, hcell, mac, hmac', require_ok.1 hverified⟩
  · rintro ⟨hparse, htime, hcell, mac, hmac', hverified⟩
    refine bind_ok.2 ⟨t, hparse, check_ok.2 ⟨htime, check_ok.2 ⟨hcell, ?_⟩⟩⟩
    rw [hmac']
    exact check_ok.2 ⟨require_ok.2 hverified, rfl⟩

theorem space_notMem_canonicalQuery {rawQuery : Bytes} (h : 0x20 ∉ rawQuery) :
    0x20 ∉ canonicalQuery rawQuery := by
  unfold canonicalQuery
  split
  · exact List.not_mem_nil
  · split
    · exact h
    · exact space_notMem_encodeQuery _

theorem verifyServiceTokenPayload_ok {σ : Type} {nonceStore : NonceStore σ} {store store' : σ}
    {callerCell : Bytes} :
    verifyServiceTokenPayload hmac ring now nonceStore store payload r = (.ok callerCell, store') ↔
      ∃ t, checkServiceToken hmac ring now payload r = .ok t ∧ t.callerCell = callerCell ∧
        nonceStore.checkAndMark store t.nonce = (.ok (), store') := by
  unfold verifyServiceTokenPayload
  constructor
  · intro h
    split at h
    · cases h
    · next t ht =>
      split at h
      · cases h
      · next store'' hmark =>
        obtain ⟨hcell, rfl⟩ := Prod.mk.inj h
        exact ⟨t, ht, Except.ok.inj hcell, hmark⟩
  · rintro ⟨t, ht, rfl, hmark⟩
    rw [ht]
    simp only [hmark]

end GoCell.Auth
