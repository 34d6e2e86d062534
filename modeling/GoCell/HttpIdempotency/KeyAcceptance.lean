import GoCell.HttpIdempotency.Middleware
import GoCell.HttpIdempotency.StoreAgreement

namespace GoCell.HttpIdempotency

open Foundation Idempotency Kernel

theorem braceFree_append (a b : String) : braceFree (a ++ b) = (braceFree a && braceFree b) := by
  simp only [braceFree, String.toList_append, List.all_append]

theorem braceFree_of_isValidIdempotencyKey {key : String} (h : isValidIdempotencyKey key = true) :
    braceFree key = true := by
  simp only [isValidIdempotencyKey, List.all_eq_true, Bool.and_eq_true] at h
  rw [braceFree, List.all_eq_true]
  intro c hc
  obtain ⟨⟨⟨hopen, hclose⟩, -⟩, -⟩ := h c hc
  rw [Bool.and_eq_true]
  exact ⟨hopen, hclose⟩

theorem braceFree_tenantNamespace (tenantID : String) :
    braceFree (tenantNamespace tenantID) = braceFree tenantID := by
  unfold tenantNamespace
  split
  · next h => rw [h]; decide
  · rfl

section

variable {tenantID subject method path idemKey : String}

theorem deriveKey_ns_ne_empty : (deriveKey tenantID subject method path idemKey).ns ≠ "" := by
  unfold deriveKey tenantNamespace
  dsimp only
  split
  · decide
  · next h => exact h

theorem deriveKey_key_ne_empty : (deriveKey tenantID subject method path idemKey).key ≠ "" := by
  intro h
  have hlen := congrArg String.length h
  simp [deriveKey, String.length_append] at hlen

theorem braceFree_deriveKey_key (hkey : isValidIdempotencyKey idemKey = true) :
    braceFree (deriveKey tenantID subject method path idemKey).key =
      (braceFree subject && braceFree method && braceFree path) := by
  have hnul : braceFree "\x00" = true := by decide
  simp only [deriveKey, braceFree_append, braceFree_of_isValidIdempotencyKey hkey, hnul,
    Bool.and_true]

end

theorem MemStore.claim_ne_other {s : MemStore} {now : Time} {token : Bytes} {k : IdempotencyKey}
    {fingerprint : Bytes} {leaseTTL : Duration} (hns : k.ns ≠ "") (hkey : k.key ≠ "") (e : Err) :
    (s.claim now (some token) k fingerprint leaseTTL).2 ≠ .error (.other e) := by
  intro h
  simp only [claim, hns, hkey, or_self, if_false, acquire] at h
  repeat' split at h
  all_goals cases h

def KeyRejected (res : Except ClaimError Claimed) : Prop :=
  res = .error (.other errInvalidNs) ∨ res = .error (.other errInvalidHttpKey)

theorem not_keyRejected_decodeClaim {tt : TimeText} {t : HTTPIdempotencyStore}
    {k : IdempotencyKey} {token : Bytes} (reply : ClaimReply) :
    ¬KeyRejected (t.decodeClaim tt k token reply).2 := by
  cases reply with
  | acquired | busy | mismatch => simp [KeyRejected, HTTPIdempotencyStore.decodeClaim]
  | done blob =>
    rw [HTTPIdempotencyStore.decodeClaim]
    split
    · simp [KeyRejected, errReplayDecode, errInvalidNs, errInvalidHttpKey]
    · simp [KeyRejected]

theorem keyRejected_iff {tt : TimeText} {t : HTTPIdempotencyStore} {now : Time}
    {token : Bytes} {k : IdempotencyKey} {fingerprint : Bytes} {leaseTTL : Duration}
    (hns : k.ns ≠ "") (hkey : k.key ≠ "") :
    KeyRejected (t.claim tt now (some token) k fingerprint leaseTTL).2 ↔
      ¬(braceFree k.ns = true ∧ braceFree k.key = true) := by
  by_cases hnsFree : braceFree k.ns = true
  · by_cases hkeyFree : braceFree k.key = true
    · refine iff_of_false ?_ (not_not.2 ⟨hnsFree, hkeyFree⟩)
      simp only [HTTPIdempotencyStore.claim, hns, hkey, hnsFree, hkeyFree, or_self,
        Bool.true_eq_false, if_false]
      exact not_keyRejected_decodeClaim _
    · refine iff_of_true (.inr ?_) fun h ↦ hkeyFree h.2
      simp [HTTPIdempotencyStore.claim, hns, hnsFree, hkeyFree]
  · refine iff_of_true (.inl ?_) fun h ↦ hnsFree h.1
    simp [HTTPIdempotencyStore.claim, hnsFree]

/-- For a valid header, the in-memory store never fails on the key, and the Redis store accepts it
exactly when tenant, subject, method and path are free of braces. Otherwise the middleware answers
as for a store that is unavailable. -/
theorem derived_key_accepted_iff (tenantID subject method path idemKey : String)
    (hkey : isValidIdempotencyKey idemKey = true) (tt : TimeText) (s : MemStore)
    (t : HTTPIdempotencyStore) (now expiry : Time) (token fingerprint : Bytes)
    (leaseTTL : Duration) :
    let k := deriveKey tenantID subject method path idemKey
    let res := (t.claim tt now (some token) k fingerprint leaseTTL).2
    (∀ e, (s.claim now (some token) k fingerprint leaseTTL).2 ≠ .error (.other e)) ∧
      (¬KeyRejected res ↔ braceFree tenantID = true ∧ braceFree subject = true ∧
        braceFree method = true ∧ braceFree path = true) ∧
      (KeyRejected res →
        handle k fingerprint expiry res = .answered (.failed errStoreUnavailable none)) := by
  refine ⟨MemStore.claim_ne_other deriveKey_ns_ne_empty deriveKey_key_ne_empty, ?_, ?_⟩
  · have hns : braceFree (deriveKey tenantID subject method path idemKey).ns =
        braceFree tenantID := braceFree_tenantNamespace tenantID
    rw [keyRejected_iff deriveKey_ns_ne_empty deriveKey_key_ne_empty, not_not, hns,
      braceFree_deriveKey_key hkey, Bool.and_eq_true, Bool.and_eq_true, and_assoc]
  · rintro (h | h)
    · rw [h]
      rfl
    · rw [h]
      rfl

theorem derived_key_accepted_order :
    ¬KeyRejected (HTTPIdempotencyStore.claim rfc3339Nano { ns := httpNamespace } 0
      (some [1]) (deriveKey "t-1" "u-1" "POST" "/orders/7" "k-1") [2] 5000000).2 := by
  have hkey : isValidIdempotencyKey "k-1" = true := by decide
  have haccepted := derived_key_accepted_iff "t-1" "u-1" "POST" "/orders/7" "k-1" hkey
    rfc3339Nano {} { ns := httpNamespace } 0 0 [1] [2] 5000000
  exact haccepted.2.1.2 (by decide)

/-- The request is a `POST` of a user to a path with braces, as the decoded form of
`/files/%7Breport%7D`. -/
def bracedRequest : Request :=
  ⟨"POST", "/files/\x7breport\x7d", "k-1", some ⟨.user, "u-1", "t-1"⟩, some (asciiBytes "\x7b\x7d")⟩

theorem braced_path_unavailable :
    let k := deriveKey "t-1" "u-1" "POST" "/files/\x7breport\x7d" "k-1"
    let fingerprint := computeFingerprint id (asciiBytes "\x7b\x7d")
    (admission {} id bracedRequest).pc = .claiming k fingerprint ∧
      handle k fingerprint 0 (HTTPIdempotencyStore.claim rfc3339Nano
        { ns := httpNamespace } 0 (some [1]) k fingerprint 5000000).2 =
        .answered (.failed errStoreUnavailable none) := by
  decide +kernel

end GoCell.HttpIdempotency
