import GoCell.Webhook.Signatures

namespace GoCell.Webhook

open Foundation Kernel List

structure SignCall where
  payload : Bytes
  ts : Time
  deliveryID : DeliveryID

namespace SignCall

def timestamp (c : SignCall) : Bytes := decimal (unixSeconds c.ts)

def message (c : SignCall) : Bytes := signedContent c.deliveryID c.timestamp c.payload

end SignCall

section Unforgeability

variable (hmac : Bytes → Bytes → Bytes)

/-- The MAC is unforgeable at a delivery: its signature is the MAC of its message only if a signer
with the secret computed that MAC. -/
def Unforgeable (source : Source) (calls : List SignCall) (rawBody : Bytes) (headers : Headers) :
    Prop :=
  matchAnySignature headers.signature
      (computeMAC hmac source.secret headers.deliveryID headers.timestamp rawBody) = true →
    ∃ c ∈ calls, c.deliveryID.validate = .ok () ∧
      c.message = signedContent headers.deliveryID headers.timestamp rawBody

end Unforgeability

def isStamp (s : Bytes) : Bool :=
  match parseInt s with
  | some n => decimal n = s
  | none => false

theorem isStamp_iff {s : Bytes} : isStamp s = true ↔ ∃ t : Time, decimal (unixSeconds t) = s := by
  constructor
  · intro h
    unfold isStamp at h
    split at h
    · next n hn =>
      have hrange : InInt64 n := of_decide_eq_true (Option.filter_eq_some_iff.1 hn).2
      exact ⟨timeUnix n, by rw [unixSeconds_timeUnix hrange]; exact of_decide_eq_true h⟩
    · cases h
  · rintro ⟨t, rfl⟩
    rw [isStamp, parseInt_decimal (inInt64_unixSeconds t)]
    exact decide_eq_true rfl

theorem dot_notMem_of_parseInt {s : Bytes} {n : ℤ} (h : parseInt s = some n) : 0x2e ∉ s := by
  intro hdot
  have hnumeric := isNumeric_of_parseInt h 0x2e hdot
  exact absurd hnumeric (by decide)

theorem dot_notMem_of_isStamp {s : Bytes} (h : isStamp s = true) : 0x2e ∉ s := by
  obtain ⟨t, rfl⟩ := isStamp_iff.1 h
  exact dot_notMem_of_parseInt (parseInt_decimal (inInt64_unixSeconds t))

def IDAliased (id : DeliveryID) : Prop :=
  ∃ a s b, id ++ [0x2e] = a ++ 0x2e :: (s ++ 0x2e :: b) ∧ isStamp s = true

/-- The first segments of the body could belong to the delivery id, and the next one be the
timestamp. -/
def BodyAliased (id : DeliveryID) (ts body : Bytes) : Prop :=
  ∃ z s b, 0x2e :: body = z ++ 0x2e :: (s ++ 0x2e :: b) ∧ isStamp s = true ∧
    DeliveryID.validate (id ++ 0x2e :: (ts ++ z)) = .ok ()

theorem aliased_of_eq {id id' : DeliveryID} {ts ts' body body' : Bytes}
    (hid' : id'.validate = .ok ()) (hts : 0x2e ∉ ts) (hts' : isStamp ts' = true)
    (h : signedContent id' ts' body' = signedContent id ts body) :
    (id' = id ∧ ts' = ts ∧ body' = body) ∨ IDAliased id ∨ BodyAliased id ts body := by
  have hdot := dot_notMem_of_isStamp hts'
  obtain ⟨rfl, hrest⟩ | ⟨rs, hid, hrest⟩ | ⟨rs, hid, hrest⟩ := split_cases h
  · obtain ⟨rfl, rfl⟩ := split_first hdot hts hrest
    exact .inl ⟨rfl, rfl, rfl⟩
  · refine .inr (.inl ?_)
    -- The id starts with the other id; the other timestamp follows.
    obtain ⟨rfl, -⟩ | ⟨qs, hqs, -⟩ | ⟨qs, hqs, -⟩ := split_cases hrest
    · exact ⟨id', ts', [], by rw [hid, append_assoc, cons_append], hts'⟩
    · refine ⟨id', ts', qs ++ [0x2e], ?_, hts'⟩
      rw [hid, hqs]
      simp only [append_assoc, cons_append]
    · exact absurd (hqs ▸ mem_append_right _ mem_cons_self) hdot
  · refine .inr (.inr ?_)
    obtain ⟨rfl, hbody⟩ | ⟨qs, hqs, hbody⟩ | ⟨qs, hqs, -⟩ := split_cases hrest
    · exact ⟨[], ts', body', by rw [hbody, nil_append], hts', by
        rw [append_nil, ← hid]; exact hid'⟩
    · refine ⟨0x2e :: qs, ts', body', by rw [hbody, cons_append], hts', ?_⟩
      rw [← hqs, ← hid]
      exact hid'
    · exact absurd (hqs ▸ mem_append_right _ mem_cons_self) hts

theorem exists_alias {id : DeliveryID} {ts body : Bytes} (hid : id.validate = .ok ())
    (h : IDAliased id ∨ BodyAliased id ts body) :
    ∃ c : SignCall, c.deliveryID.validate = .ok () ∧ c.message = signedContent id ts body ∧
      c.deliveryID ≠ id := by
  obtain ⟨a, s, b, hsplit, hs⟩ | ⟨z, s, b, hsplit, hs, hvalid⟩ := h
  · obtain ⟨t, ht⟩ := isStamp_iff.1 hs
    have hlength := congrArg length hsplit
    simp only [length_append, length_cons, length_nil] at hlength
    obtain ⟨rest, hrest⟩ : ∃ rest, id = a ++ rest := by
      obtain ⟨mid, hmid, -⟩ | ⟨mid, hmid, -⟩ := append_eq_append_iff.1 hsplit
      · have hmid' := congrArg length hmid
        rw [length_append] at hmid'
        obtain rfl : mid = [] := eq_nil_of_length_eq_zero (by omega)
        exact ⟨[], by rw [hmid, append_nil, append_nil]⟩
      · exact ⟨mid, hmid⟩
    refine ⟨⟨b ++ (ts ++ 0x2e :: body), t, a⟩, ?_, ?_, ?_⟩
    · apply validate_of_append _ (hrest ▸ hid)
      rintro rfl
      -- The id would start with a dot.
      have hpattern := (validate_ok.1 hid).2
      cases id with
      | nil => cases hpattern
      | cons c id =>
        obtain ⟨rfl, -⟩ := cons.inj hsplit
        exact absurd hpattern (by simp [deliveryIDPattern, isAlphanumeric])
    · have happend : signedContent id ts body = (id ++ [0x2e]) ++ (ts ++ 0x2e :: body) := by
        simp only [signedContent, append_assoc, singleton_append]
      rw [happend, hsplit, SignCall.message, SignCall.timestamp, ht, signedContent]
      simp only [append_assoc, cons_append]
    · rintro rfl
      simp only at hlength
      omega
  · obtain ⟨t, ht⟩ := isStamp_iff.1 hs
    refine ⟨⟨b, t, id ++ 0x2e :: (ts ++ z)⟩, hvalid, ?_, ?_⟩
    · rw [SignCall.message, SignCall.timestamp, ht, signedContent, signedContent, hsplit]
      simp only [append_assoc, cons_append]
    · intro heq
      have hlength := congrArg length heq
      simp only [length_append, length_cons] at hlength
      omega

theorem dot_mem_of_idAliased {id : DeliveryID} (h : IDAliased id) : 0x2e ∈ id := by
  obtain ⟨a, s, b, hsplit, -⟩ := h
  obtain ⟨-, hnil⟩ | ⟨rs, -, hnil⟩ | ⟨rs, rfl, -⟩ := split_cases hsplit
  · exact absurd hnil.symm (by simp)
  · exact absurd hnil.symm (by simp)
  · exact mem_append_right _ mem_cons_self

theorem first_of_bodyAliased {id : DeliveryID} {ts body : Bytes} {c : UInt8}
    (h : BodyAliased id ts (c :: body)) : isDeliveryIDByte c = true ∨ isNumeric c = true := by
  obtain ⟨z, s, b, hsplit, hs, hvalid⟩ := h
  cases z with
  | nil =>
    obtain ⟨t, ht⟩ := isStamp_iff.1 hs
    have hparsed := parseInt_decimal (inInt64_unixSeconds t)
    rw [ht] at hparsed
    cases s with
    | nil => cases hparsed
    | cons d s =>
      obtain ⟨rfl, -⟩ := cons.inj (cons.inj hsplit).2
      exact .inr (isNumeric_of_parseInt hparsed c mem_cons_self)
  | cons d z =>
    obtain ⟨-, hbody⟩ := cons.inj hsplit
    cases z with
    | nil =>
      obtain ⟨rfl, -⟩ := cons.inj hbody
      exact .inl (by decide)
    | cons e z =>
      obtain ⟨rfl, -⟩ := cons.inj hbody
      have hpattern := (validate_ok.1 hvalid).2
      cases id with
      | nil => exact absurd hpattern (by simp [deliveryIDPattern, isAlphanumeric])
      | cons f id =>
        simp only [cons_append, deliveryIDPattern, Bool.and_eq_true, all_eq_true]
          at hpattern
        exact .inl (hpattern.2 c (by simp))

/-- What `Verify` accepts was signed, whatever was signed before and whatever the signature is,
except where the signed content can be read in another way. -/
theorem verify_binds_iff (hmac : Bytes → Bytes → Bytes) (v : Verifier) (now : Time)
    (source : Source) (id : DeliveryID) (ts body : Bytes) (hid : id.validate = .ok ()) :
    (∀ (calls : List SignCall) (signature : Bytes),
        Unforgeable hmac source calls body ⟨id, ts, signature⟩ →
        v.verify hmac now body ⟨id, ts, signature⟩ source = .ok () →
        ∃ c ∈ calls, c.deliveryID = id ∧ c.timestamp = ts ∧ c.payload = body) ↔
      ¬(source.secret ≠ [] ∧ v.validateTimestamp now ts = .ok () ∧
        (IDAliased id ∨ BodyAliased id ts body)) := by
  constructor
  · rintro hbinds ⟨hsecret, htime, haliased⟩
    obtain ⟨c, hvalid, hmessage, hne⟩ := exists_alias hid haliased
    have hmac' := matchAnySignature_base64 (computeMAC hmac source.secret id ts body)
    obtain ⟨c', hc', hid', -, -⟩ := hbinds [c] _
      (fun _ ↦ ⟨c, mem_singleton_self c, hvalid, hmessage⟩)
      (verify_ok.2 ⟨hsecret, hid, htime, hmac'⟩)
    obtain rfl := mem_singleton.1 hc'
    exact hne hid'
  · intro hplain calls signature hunforgeable hverify
    obtain ⟨hsecret, -, htime, hmatch⟩ := verify_ok.1 hverify
    obtain ⟨c, hc, hvalid, hmessage⟩ := hunforgeable hmatch
    have hdot : 0x2e ∉ ts := by
      dsimp only at htime
      unfold Verifier.validateTimestamp at htime
      split at htime
      · cases htime
      · next hparsed => exact dot_notMem_of_parseInt hparsed
    obtain hsame | haliased := aliased_of_eq hvalid hdot (isStamp_iff.2 ⟨c.ts, rfl⟩) hmessage
    · exact ⟨c, hc, hsame⟩
    · exact absurd ⟨hsecret, htime, haliased⟩ hplain

theorem verify_binds_iff_object :
    DeliveryID.validate (asciiBytes "evt_1") = .ok () ∧
      ∀ (calls : List SignCall) (signature : Bytes),
        Unforgeable sampleHMAC sampleSource calls sampleObject
          ⟨asciiBytes "evt_1", asciiBytes "1700000000", signature⟩ →
        defaultVerifier.verify sampleHMAC (timeUnix 1700000010)
          sampleObject ⟨asciiBytes "evt_1", asciiBytes "1700000000", signature⟩ sampleSource =
            .ok () →
        ∃ c ∈ calls, c.deliveryID = asciiBytes "evt_1" ∧ c.timestamp = asciiBytes "1700000000" ∧
          c.payload = sampleObject := by
  have hvalid : DeliveryID.validate (asciiBytes "evt_1") = .ok () := by decide
  refine ⟨hvalid, (verify_binds_iff _ _ _ _ _ _ _ hvalid).2 ?_⟩
  rintro ⟨-, -, hid | hbody⟩
  · exact absurd (dot_mem_of_idAliased hid) (by decide)
  · exact absurd (first_of_bodyAliased hbody) (by decide)

def dottedCall : SignCall where
  payload := asciiBytes "\x7b\x7d"
  ts := timeUnix 1700000005
  deliveryID := asciiBytes "order.1700000000"

/-- The delivery with the id `order.1700000000` is accepted as one with the id `order`. -/
theorem verify_accepts_alias :
    ¬∃ hmac : Bytes → Bytes → Bytes, ∀ (v : Verifier) (now : Time) (source : Source)
      (id : DeliveryID) (ts body : Bytes), id.validate = .ok () →
        ∀ (calls : List SignCall) (signature : Bytes),
          Unforgeable hmac source calls body ⟨id, ts, signature⟩ →
          v.verify hmac now body ⟨id, ts, signature⟩ source = .ok () →
          ∃ c ∈ calls, c.deliveryID = id ∧ c.timestamp = ts ∧ c.payload = body := by
  rintro ⟨hmac, h⟩
  have hvalid : DeliveryID.validate (asciiBytes "order") = .ok () := by decide
  have hcall : dottedCall.deliveryID.validate = .ok () := by decide
  have hmessage : dottedCall.message = signedContent (asciiBytes "order")
      (asciiBytes "1700000000") (asciiBytes "1700000005.\x7b\x7d") := by decide
  have htime : defaultVerifier.validateTimestamp (timeUnix 1700000010)
      (asciiBytes "1700000000") = .ok () := by decide
  have hmatch := matchAnySignature_base64 (computeMAC hmac sampleSource.secret
    (asciiBytes "order") (asciiBytes "1700000000") (asciiBytes "1700000005.\x7b\x7d"))
  obtain ⟨c, hc, hid, -, -⟩ := h defaultVerifier (timeUnix 1700000010) sampleSource
    (asciiBytes "order") (asciiBytes "1700000000") (asciiBytes "1700000005.\x7b\x7d") hvalid
    [dottedCall] _ (fun _ ↦ ⟨dottedCall, mem_singleton_self _, hcall, hmessage⟩)
    (verify_ok.2 ⟨by decide, hvalid, htime, hmatch⟩)
  obtain rfl := mem_singleton.1 hc
  exact absurd hid (by decide)

end GoCell.Webhook
