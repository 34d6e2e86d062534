import GoCell.Consumer.DeliverySafety
import GoCell.Envelope.Entry
import GoCell.Idempotency.ClaimerLink

namespace GoCell.Consumer

open Foundation Kernel Idempotency Envelope

/-- Neither group is the other one followed by a colon and by characters that can begin an entry
id. -/
def Separated (group group' : String) : Prop :=
  ∀ rest : String, rest.toList.all isSafeChar = true → rest.utf8ByteSize + 2 ≤ maxMetadataIDLen →
    group' ≠ group ++ ":" ++ rest ∧ group ≠ group' ++ ":" ++ rest

/-- The commit of a delivery that was claimed under `key` does not change what a claim of `key'` is
answered, in any state of either claimer. -/
structure CommitIsolated (key key' : String) : Prop where
  inMem : ∀ (c : InMemClaimer) (i : ℕ) (r : InMemReceipt), c.receipts[i]? = some r → r.key = key →
    ∀ now later rand leaseTTL doneTTL,
      ((c.commit now (.lease i)).1.claim later rand key' leaseTTL doneTTL).2 =
        (c.claim later rand key' leaseTTL doneTTL).2
  redis : ∀ (c : RedisClaimer) (i : ℕ) (r : RedisReceipt), c.receipts[i]? = some r →
    validKey key = true → r.leaseKey = leaseKey c.ns key → r.doneKey = doneKey c.ns key →
    ∀ now later rand leaseTTL doneTTL,
      ((c.commit now (.lease i)).1.claim later rand key' leaseTTL doneTTL).2 =
        (c.claim later rand key' leaseTTL doneTTL).2

theorem CommitIsolated.of_ne {key key' : String} (hne : key ≠ key') : CommitIsolated key key' where
  inMem c i r hr hkey now later rand leaseTTL doneTTL := by
    have hother : key' ≠ r.key := by
      rw [hkey]
      exact hne.symm
    obtain ⟨hentry, hlength⟩ := InMemClaimer.settle_frame hr .commit now hother
    exact InMemClaimer.claim_congr hentry hlength rand leaseTTL doneTTL
  redis c i r hr hkey hlease hdone now later rand leaseTTL doneTTL := by
    by_cases hkey' : validKey key' = true
    · have hframe : ∀ name, name ≠ leaseKey c.ns key → name ≠ doneKey c.ns key →
          (c.commit now (.lease i)).1.ns = c.ns ∧
            (c.commit now (.lease i)).1.rdb name = c.rdb name ∧
            (c.commit now (.lease i)).1.receipts.length = c.receipts.length := by
        rw [← hlease, ← hdone]
        exact fun name ↦ RedisClaimer.commit_frame hr now
      obtain ⟨hns, hsameDone, hlength⟩ := hframe (doneKey c.ns key')
        (leaseKey_ne_doneKey hkey hkey').symm (doneKey_ne hkey' hkey hne.symm)
      obtain ⟨-, hsameLease, -⟩ := hframe (leaseKey c.ns key')
        (leaseKey_ne hkey' hkey hne.symm) (leaseKey_ne_doneKey hkey' hkey)
      exact RedisClaimer.claim_congr hns hsameDone hsameLease hlength rand leaseTTL doneTTL
    · simp [RedisClaimer.claim, hkey']

theorem idempotencyKey_toList (group id : String) :
    (idempotencyKey group id).toList = group.toList ++ ':' :: id.toList := by
  simp [idempotencyKey]

theorem idempotencyKey_eq {group group' id id' : String}
    (h : idempotencyKey group id = idempotencyKey group' id') :
    (group = group' ∧ id = id') ∨
      (∃ rest, group' = group ++ ":" ++ rest ∧ id = rest ++ ":" ++ id') ∨
      ∃ rest, group = group' ++ ":" ++ rest ∧ id' = rest ++ ":" ++ id := by
  have hlist := congrArg String.toList h
  rw [idempotencyKey_toList, idempotencyKey_toList] at hlist
  rcases split_cases hlist with ⟨hgroup, hid⟩ | ⟨rest, hgroup, hid⟩ | ⟨rest, hgroup, hid⟩
  · exact .inl ⟨String.toList_injective hgroup, String.toList_injective hid⟩
  · refine .inr (.inl ⟨String.ofList rest, String.toList_injective ?_, String.toList_injective ?_⟩)
    · simpa using hgroup
    · simpa using hid
  · refine .inr (.inr ⟨String.ofList rest, String.toList_injective ?_, String.toList_injective ?_⟩)
    · simpa using hgroup
    · simpa using hid

theorem rest_of_valid {e e' : Entry} (he : e.Valid) (he' : e'.Valid) {rest : String}
    (h : e.id = rest ++ ":" ++ e'.id) :
    rest.toList.all isSafeChar = true ∧ rest.utf8ByteSize + 2 ≤ maxMetadataIDLen := by
  have hsafe := he.id
  simp only [safeIDValid, Bool.or_eq_true, decide_eq_true_eq, he.id_ne, false_or,
    Bool.and_eq_true, isSafeID] at hsafe
  obtain ⟨hsize, -, hchars⟩ := hsafe
  constructor
  · rw [h] at hchars
    simp only [String.toList_append, List.all_append, Bool.and_eq_true] at hchars
    exact hchars.1.1
  · have hpos : e'.id.utf8ByteSize ≠ 0 := fun hzero ↦
      he'.id_ne (String.utf8ByteSize_eq_zero_iff.1 hzero)
    rw [h, String.utf8ByteSize_append, String.utf8ByteSize_append] at hsize
    have hcolon : ":".utf8ByteSize = 1 := rfl
    omega

def entryWithID (id : String) : Entry where
  id := id
  eventType := "event.order.created.v1"
  payload := [0x30]
  createdAt := 1
  occurredAt := 1

theorem entryWithID_validate {id : String} (hne : id ≠ "") (hsafe : safeIDValid id = true) :
    (entryWithID id).validate = .ok () := by
  have hsample : (entryWithID "a").Valid := Entry.validate_ok_iff.1 rfl
  exact Entry.validate_ok_iff.2 { hsample with id_ne := hne, id := hsafe }

theorem extended_id_valid {rest : String} (hrest : rest.toList.all isSafeChar = true)
    (hsize : rest.utf8ByteSize + 2 ≤ maxMetadataIDLen) :
    rest ++ ":" ++ "a" ≠ "" ∧ safeIDValid (rest ++ ":" ++ "a") = true := by
  have hne : rest ++ ":" ++ "a" ≠ "" := by
    intro hempty
    simpa using congrArg String.toList hempty
  refine ⟨hne, ?_⟩
  simp only [safeIDValid, isSafeID, Bool.or_eq_true, Bool.and_eq_true, decide_eq_true_eq]
  refine .inr ⟨?_, hne, ?_⟩
  · rw [String.utf8ByteSize_append, String.utf8ByteSize_append]
    exact hsize
  · simp only [String.toList_append, List.all_append, hrest, Bool.true_and]
    decide

theorem collision (group : String) {rest : String} (hrest : rest.toList.all isSafeChar = true)
    (hsize : rest.utf8ByteSize + 2 ≤ maxMetadataIDLen) :
    ∃ e e' : Entry, e.validate = .ok () ∧ e'.validate = .ok () ∧ e.id ≠ e'.id ∧
      idempotencyKey group e.id = idempotencyKey (group ++ ":" ++ rest) e'.id := by
  obtain ⟨hne, hsafe⟩ := extended_id_valid hrest hsize
  refine ⟨entryWithID (rest ++ ":" ++ "a"), entryWithID "a", entryWithID_validate hne hsafe, rfl,
    fun heq ↦ ?_, ?_⟩
  · have hlength := congrArg (fun s : String ↦ s.toList.length) heq
    simp [entryWithID] at hlength
  · simp [idempotencyKey, entryWithID, String.append_assoc]

/-- Two groups are kept apart: different deliveries have different keys, and the commit of one does
not change what a claim of the other is answered. Exactly the separated groups are. -/
theorem deliveries_kept_apart_iff (group group' : String) :
    (∀ e e' : Entry, e.validate = .ok () → e'.validate = .ok () → (group, e.id) ≠ (group', e'.id) →
      idempotencyKey group e.id ≠ idempotencyKey group' e'.id ∧
        CommitIsolated (idempotencyKey group e.id) (idempotencyKey group' e'.id)) ↔
      Separated group group' := by
  constructor
  · intro hapart rest hrest hsize
    constructor
    · rintro rfl
      obtain ⟨e, e', he, he', hid, hkey⟩ := collision group hrest hsize
      exact (hapart e e' he he' fun heq ↦ hid (Prod.mk.inj heq).2).1 hkey
    · rintro rfl
      obtain ⟨e, e', he, he', hid, hkey⟩ := collision group' hrest hsize
      exact (hapart e' e he' he fun heq ↦ hid (Prod.mk.inj heq).2.symm).1 hkey.symm
  · intro hseparated e e' he he' hne
    rw [Entry.validate_ok_iff] at he he'
    have hkey : idempotencyKey group e.id ≠ idempotencyKey group' e'.id := by
      intro hkey
      rcases idempotencyKey_eq hkey with ⟨hgroup, hid⟩ | ⟨rest, hgroup, hid⟩ | ⟨rest, hgroup, hid⟩
      · exact hne (by rw [hgroup, hid])
      · obtain ⟨hrest, hsize⟩ := rest_of_valid he he' hid
        exact (hseparated rest hrest hsize).1 hgroup
      · obtain ⟨hrest, hsize⟩ := rest_of_valid he' he hid
        exact (hseparated rest hrest hsize).2 hgroup
    exact ⟨hkey, .of_ne hkey⟩

/-- An in-memory claimer in which the delivery of the entry `b:c` to the group `a` was committed. -/
def committedClaimer : InMemClaimer :=
  ((InMemClaimer.claim {} 0 (some "t") (idempotencyKey "a" "b:c") 100 100).1.commit 1 (.lease 0)).1

/-- The group `a:b` shares that key for its entry `c`: the delivery is answered with `ClaimDone` and
acknowledged without its handler. -/
theorem colliding_delivery_skipped :
    (entryWithID "b:c").validate = .ok () ∧ (entryWithID "c").validate = .ok () ∧
      (committedClaimer.claim 2 (some "u") (idempotencyKey "a:b" "c") 100 100).2 =
        .ok (.done, .nonAcquired) ∧
      ∃ s : Delivery ReceiptRef,
        exec (Delivery.step (newConsumerBase {}) { consumerGroup := "a:b" } "c") {}
          [.claim (.ok (.done, some .nonAcquired))] = some s ∧
        s.main = .returned { disposition := .ack } none ∧ invocations s.log = 0 :=
  ⟨rfl, rfl, rfl, _, rfl, rfl, rfl⟩

end GoCell.Consumer
