import GoCell.Kernel.Strings
import GoCell.Kernel.Timestamps

namespace GoCell.Webhook

open Foundation Kernel List

abbrev DeliveryID := Bytes

def deliveryIDMaxLen : ℕ := 128

def isAlphanumeric (c : UInt8) : Bool :=
  (0x41 ≤ c && c ≤ 0x5a) || (0x61 ≤ c && c ≤ 0x7a) || (0x30 ≤ c && c ≤ 0x39)

def isDeliveryIDByte (c : UInt8) : Bool :=
  isAlphanumeric c || c = 0x5f || c = 0x2e || c = 0x3a || c = 0x2d

def deliveryIDPattern : Bytes → Bool
  | [] => false
  | c :: rest => isAlphanumeric c && rest.all isDeliveryIDByte

def errInvalidHeader (message : String) (details : List (String × DetailValue)) : Err :=
  ⟨.invalid, .webhookInvalidHeader, message, details⟩

def DeliveryID.validate (id : DeliveryID) : Except Err Unit := do
  require (id ≠ []) (errInvalidHeader "webhook: delivery ID must not be empty" [])
  require (id.length ≤ deliveryIDMaxLen)
    (errInvalidHeader "webhook: delivery ID exceeds length budget"
      [("max", .int deliveryIDMaxLen), ("got", .int id.length)])
  require (deliveryIDPattern id)
    (errInvalidHeader "webhook: delivery ID contains forbidden characters"
      [("deliveryId", .string (textOf id))])

structure Source where
  secret : Bytes

structure Headers where
  deliveryID : DeliveryID
  timestamp : Bytes
  signature : Bytes
  deriving DecidableEq

def signedContent (deliveryID : DeliveryID) (timestamp payload : Bytes) : Bytes :=
  deliveryID ++ 0x2e :: (timestamp ++ 0x2e :: payload)

def signatureSchemeV1 : Bytes := asciiBytes "v1"

structure Verifier where
  tolerance : Duration
  tolerance_pos : 0 < tolerance

def defaultVerifier : Verifier := ⟨300 * nanosPerSecond, by decide⟩

def Verifier.validateTimestamp (v : Verifier) (now : Time) (timestamp : Bytes) :
    Except Err Unit :=
  match parseInt timestamp with
  | none => .error (errInvalidHeader "webhook: timestamp header is not a unix-seconds integer" [])
  | some tsInt =>
    let skew := timeSub now (timeUnix tsInt)
    -- The negation of the least duration is that duration again.
    let skew := if skew < 0 then wrapInt64 (-skew) else skew
    require (skew ≤ v.tolerance)
      ⟨.unauthenticated, .webhookTimestampExpired,
        "webhook: signature timestamp is outside the tolerance window",
        [("toleranceSeconds", .int (v.tolerance.tdiv nanosPerSecond))]⟩

def matchAnySignature (header expected : Bytes) : Bool :=
  (fields header).any fun token ↦
    match cut 0x2c token with
    | some (scheme, encoded) => scheme = signatureSchemeV1 && stdDecode encoded = some expected
    | none => false

section

-- HMAC-SHA256 of a key and a message.
variable (hmac : Bytes → Bytes → Bytes)

def computeMAC (secret : Bytes) (deliveryID : DeliveryID) (timestamp payload : Bytes) : Bytes :=
  hmac secret (signedContent deliveryID timestamp payload)

def Source.sign (source : Source) (payload : Bytes) (ts : Time) (deliveryID : DeliveryID) :
    Except Err Headers := do
  deliveryID.validate
  let timestamp := decimal (unixSeconds ts)
  let mac := computeMAC hmac source.secret deliveryID timestamp payload
  return ⟨deliveryID, timestamp, signatureSchemeV1 ++ 0x2c :: base64 mac⟩

def Verifier.verify (v : Verifier) (now : Time) (rawBody : Bytes) (headers : Headers)
    (source : Source) : Except Err Unit := do
  require (source.secret ≠ [])
    ⟨.invalid, .webhookConfigInvalid,
      "webhook: verify requires a source with a non-empty secret", []⟩
  headers.deliveryID.validate
  v.validateTimestamp now headers.timestamp
  let expected := computeMAC hmac source.secret headers.deliveryID headers.timestamp rawBody
  require (matchAnySignature headers.signature expected)
    ⟨.unauthenticated, .webhookInvalidSignature, "webhook: signature verification failed", []⟩

end

theorem validate_ok {id : DeliveryID} :
    id.validate = .ok () ↔ id.length ≤ deliveryIDMaxLen ∧ deliveryIDPattern id = true := by
  simp only [DeliveryID.validate, check_ok, require_ok, decide_eq_true_eq]
  constructor
  · intro h
    exact h.2
  · intro h
    refine ⟨?_, h⟩
    rintro rfl
    exact absurd h.2 Bool.false_ne_true

theorem validate_of_append {id rest : Bytes} (hne : id ≠ [])
    (h : DeliveryID.validate (id ++ rest) = .ok ()) : DeliveryID.validate id = .ok () := by
  rw [validate_ok] at h ⊢
  obtain ⟨hlength, hpattern⟩ := h
  rw [length_append] at hlength
  refine ⟨by omega, ?_⟩
  cases id with
  | nil => exact absurd rfl hne
  | cons c id =>
    simp only [cons_append, deliveryIDPattern, Bool.and_eq_true, all_append] at hpattern
    simp only [deliveryIDPattern, Bool.and_eq_true]
    exact ⟨hpattern.1, hpattern.2.1⟩

theorem matchAnySignature_base64 (mac : Bytes) :
    matchAnySignature (signatureSchemeV1 ++ 0x2c :: base64 mac) mac = true := by
  have hgraphic : ∀ c ∈ signatureSchemeV1 ++ 0x2c :: base64 mac, isGraphic c = true := by
    have hscheme : ∀ c ∈ signatureSchemeV1, isGraphic c = true :=
      all_eq_true.1 (show signatureSchemeV1.all isGraphic = true by decide)
    have hdigit : ∀ n < 64, isGraphic (stdDigit n) = true := by decide
    intro c hc
    obtain hc | hc := mem_append.1 hc
    · exact hscheme c hc
    · obtain rfl | hc := mem_cons.1 hc
      · rfl
      · obtain hc | hc := mem_append.1 hc
        · obtain ⟨n, hn, rfl⟩ := mem_map.1 hc
          exact hdigit n (sextets_lt mac n hn)
        · rw [eq_of_mem_replicate hc]
          rfl
  have hcut : cut 0x2c (signatureSchemeV1 ++ 0x2c :: base64 mac) =
      some (signatureSchemeV1, base64 mac) := cut_append (by decide) _
  rw [matchAnySignature, fields_of_isGraphic (by simp) hgraphic]
  simp only [any_cons, hcut, stdDecode_base64, decide_true, Bool.and_self, Bool.true_or]

theorem verify_ok {hmac : Bytes → Bytes → Bytes} {v : Verifier} {now : Time} {rawBody : Bytes}
    {headers : Headers} {source : Source} :
    v.verify hmac now rawBody headers source = .ok () ↔
      source.secret ≠ [] ∧ headers.deliveryID.validate = .ok () ∧
        v.validateTimestamp now headers.timestamp = .ok () ∧
        matchAnySignature headers.signature
          (computeMAC hmac source.secret headers.deliveryID headers.timestamp rawBody) = true := by
  simp only [Verifier.verify, check_ok, require_ok, decide_eq_true_eq]

/-- What `Sign` makes is accepted exactly as long as its timestamp is within the tolerance. -/
theorem verify_sign_iff {hmac : Bytes → Bytes → Bytes} (v : Verifier) (now ts : Time)
    {payload : Bytes} {id : DeliveryID} {headers : Headers} {source : Source}
    (hsecret : source.secret ≠ []) (hsign : source.sign hmac payload ts id = .ok headers) :
    v.verify hmac now payload headers source = .ok () ↔
      v.validateTimestamp now (decimal (unixSeconds ts)) = .ok () := by
  obtain ⟨hid, hsign⟩ := check_ok.1 hsign
  cases hsign
  rw [verify_ok]
  exact ⟨fun h ↦ h.2.2.1, fun h ↦ ⟨hsecret, hid, h, matchAnySignature_base64 _⟩⟩

def sampleHMAC (key message : Bytes) : Bytes := checksumHex (key ++ message)

def sampleSource : Source := ⟨asciiBytes "0123456789abcdef01234567"⟩

def sampleObject : Bytes := asciiBytes "\x7b\"total\": 7\x7d"

theorem verify_sign_object : ∃ headers,
    sampleSource.sign sampleHMAC sampleObject (timeUnix 1700000000) (asciiBytes "evt_1") =
      .ok headers ∧
    defaultVerifier.verify sampleHMAC (timeUnix 1700000010) sampleObject headers sampleSource =
      .ok () := by
  have hsign : sampleSource.sign sampleHMAC sampleObject (timeUnix 1700000000)
      (asciiBytes "evt_1") = .ok _ := rfl
  exact ⟨_, hsign, (verify_sign_iff _ _ _ (by decide) hsign).2 (by decide)⟩

end GoCell.Webhook
