import GoCell.Foundation.Runs
import GoCell.Foundation.Tables
import GoCell.HttpIdempotency.StoreLink
import Mathlib.Logic.Equiv.List

namespace GoCell.HttpIdempotency

open Foundation Idempotency Kernel List KeyStore HTTPIdempotencyStore

inductive StoreOp
  | claim (k : IdempotencyKey) (fingerprint : Bytes) (leaseTTL : Duration)
  | record (ref : ReceiptRef) (resp : RecordedResponse) (doneTTL : Duration)
  | release (ref : ReceiptRef)

structure StoreCall where
  now : Time
  op : StoreOp

inductive StoreAnswer
  | claimed (res : Except ClaimError Claimed)
  | settled (res : Except Err Unit)

/-- What is compared of the answers: the claim state, the replayed response as far as `view` shows
it, the fingerprint of a mismatch, and whether there is an error. -/
inductive Outcome (β : Type)
  | acquired
  | done (resp : β)
  | busy
  | mismatch (stored : Bytes)
  | failed
  | ok
  deriving DecidableEq

def StoreAnswer.outcome {β : Type} (view : RecordedResponse → β) : StoreAnswer → Outcome β
  | .claimed (.ok (.acquired _)) => .acquired
  | .claimed (.ok (.done resp)) => .done (view resp)
  | .claimed (.ok .busy) => .busy
  | .claimed (.error (.mismatch stored)) => .mismatch stored
  | .claimed (.error (.other _)) => .failed
  | .settled (.ok _) => .ok
  | .settled (.error _) => .failed

def MemStore.call (token : ℕ → Bytes) (s : MemStore) (x : StoreCall) : MemStore × StoreAnswer :=
  match x.op with
  | .claim k fingerprint leaseTTL =>
    let res := s.claim x.now (some (token s.receipts.length)) k fingerprint leaseTTL
    (res.1, .claimed res.2)
  | .record ref resp doneTTL =>
    let res := s.record x.now x.now ref resp doneTTL
    (res.1, .settled res.2)
  | .release ref =>
    let res := s.release ref
    (res.1, .settled res.2)

def HTTPIdempotencyStore.call (tt : TimeText) (token : ℕ → Bytes) (s : HTTPIdempotencyStore)
    (x : StoreCall) : HTTPIdempotencyStore × StoreAnswer :=
  match x.op with
  | .claim k fingerprint leaseTTL =>
    let res := s.claim tt x.now (some (token s.receipts.length)) k fingerprint leaseTTL
    (res.1, .claimed res.2)
  | .record ref resp doneTTL =>
    let res := s.record tt x.now ref resp doneTTL
    (res.1, .settled res.2)
  | .release ref =>
    let res := s.release x.now ref
    (res.1, .settled res.2)

/-- Keys that can be told apart, whole milliseconds, responses that can be stored and that look the
same once they are stamped with the time of the call. -/
def StoreCall.Meets {β : Type} (view : RecordedResponse → β) (x : StoreCall) : Prop :=
  match x.op with
  | .claim k _ leaseTTL => Separable k ∧ WholeMs leaseTTL
  | .record _ resp doneTTL =>
    resp.Storable ∧ WholeMs doneTTL ∧ view { resp with recordedAt := x.now } = view resp
  | .release _ => True

variable (s : MemStore)

/-- When a `Record` answers alike on both stores: a receipt that is not settled must not have
outlived its lease without having been replaced, and no `Record` of it may have succeeded. -/
def RecordClean (now : Time) (r : MemReceipt) (q : HttpReceipt) : Prop :=
  if r.settled then q.recorded ≠ some (.ok ()) else ∀ e ∈ s.held r, Live now e.leaseExpiry

/-- The same for a `Release`: a receipt that is settled must have been released. -/
def ReleaseClean (now : Time) (r : MemReceipt) (q : HttpReceipt) : Prop :=
  if r.settled then q.released = some (.ok ()) else ∀ e ∈ s.held r, Live now e.leaseExpiry

def MemEntry.expiry (e : MemEntry) : Time :=
  if e.recorded.isSome then e.doneExpiry else e.leaseExpiry

/-- A claim must not fall into the rest of the millisecond in which the entry of its key expired. -/
def ClaimClean (now : Time) (k : IdempotencyKey) : Prop :=
  k.ns ≠ "" → k.key ≠ "" → ∀ e ∈ s.entries k.flat, Live now e.expiry → now < e.expiry

def StoreCall.Clean (t : HTTPIdempotencyStore) (x : StoreCall) : Prop :=
  match x.op with
  | .claim k _ _ => ClaimClean s x.now k
  | .record (.lease i) _ _ => ∀ r q, s.receipts[i]? = some r → t.receipts[i]? = some q →
      RecordClean s x.now r q
  | .release (.lease i) => ∀ r q, s.receipts[i]? = some r → t.receipts[i]? = some q →
      ReleaseClean s x.now r q
  | _ => True

variable {leaseTTL : Duration}

section

variable {tt : TimeText} {β : Type} {view : RecordedResponse → β}
  {memToken redisToken : ℕ → Bytes} {s : MemStore} {t : HTTPIdempotencyStore} {now : Time} {i : ℕ}
  {k : IdempotencyKey} {r r' : MemReceipt} {q q' : HttpReceipt}

theorem px_orDefault {ttl default : Duration} (h : WholeMs ttl) :
    pxDuration (clampMs (orDefault ttl default)) = ttl := by
  rw [orDefault, if_neg (not_le.2 h.1), pxDuration_clampMs h.1 h.2]

theorem MemStore.set_receipt_self (hi : s.receipts[i]? = some r) :
    (⟨s.entries, s.receipts.set i r⟩ : MemStore) = s := by
  obtain ⟨hlt, rfl⟩ := List.getElem?_eq_some_iff.1 hi
  rw [List.set_getElem_self hlt]

theorem LinkedReceipt.fpKeyOrLease {ns : KeyNamespace}
    (h : LinkedReceipt memToken redisToken ns i k r q) :
    q.fpKeyOrLease = keyName ns k .fp := by
  rw [HttpReceipt.fpKeyOrLease, h.fpKey, if_neg keyName_ne_empty]

theorem claimRespScript_live {rdb : KeyStore String Bytes} {ns : KeyNamespace} {e : Time}
    {fp token fingerprint : Bytes} {ms : ℤ} (hlive : Live now e)
    (hfp : LinkedFp now fp e (cells ns rdb k)) {reply : ClaimReply}
    (hreply : (∃ blob, (cells ns rdb k) .resp = some ⟨blob, e⟩ ∧ reply = .done blob) ∨
      (cells ns rdb k).Gone now .resp ∧
        (∃ value, (cells ns rdb k) .lease = some ⟨value, e⟩) ∧ reply = .busy) :
    claimRespScript rdb now (keyName ns k .resp) (keyName ns k .lease) (keyName ns k .fp) token ms
      fingerprint ms = (rdb, if fpMismatch fp fingerprint then .mismatch fp else reply) := by
  have hreused : reused (rdb.get now (keyName ns k .fp)) fingerprint =
      if fpMismatch fp fingerprint then some fp else none := hfp.reused hlive fingerprint
  obtain ⟨blob, hresp, rfl⟩ | ⟨hresp, ⟨value, hlease⟩, rfl⟩ := hreply
  · have hget : rdb.get now (keyName ns k .resp) = some blob :=
      get_eq_some_iff.2 ⟨e, hresp, hlive⟩
    simp only [claimRespScript, hget, hreused]
    cases fpMismatch fp fingerprint with
    | true | false => rfl
  · have hnone : rdb.get now (keyName ns k .resp) = none := get_eq_none_iff.2 hresp
    have hget : rdb.get now (keyName ns k .lease) = some value :=
      get_eq_some_iff.2 ⟨e, hlease, hlive⟩
    simp only [claimRespScript, hnone, hget, hreused]
    cases fpMismatch fp fingerprint with
    | true | false => rfl

def ClaimAgrees (tt : TimeText) (view : RecordedResponse → β) (memToken redisToken : ℕ → Bytes)
    (s : MemStore) (t : HTTPIdempotencyStore) (now : Time) (k : IdempotencyKey)
    (fingerprint : Bytes)
    (leaseTTL : Duration) : Prop :=
  let res := s.claim now (some (memToken s.receipts.length)) k fingerprint leaseTTL
  let res' := t.claim tt now (some (redisToken t.receipts.length)) k fingerprint leaseTTL
  (StoreAnswer.claimed res.2).outcome view = (StoreAnswer.claimed res'.2).outcome view ∧
    Linked tt view memToken redisToken res.1 res'.1 now

theorem claim_of_separable (hns : k.ns ≠ "") (hkey : k.key ≠ "") (hk : Separable k)
    (token fingerprint : Bytes) :
    let ms := clampMs (orDefault leaseTTL defaultLeaseTTL)
    let script := claimRespScript t.rdb now (keyName t.ns k .resp) (keyName t.ns k .lease)
      (keyName t.ns k .fp) token ms fingerprint ms
    t.claim tt now (some token) k fingerprint leaseTTL =
      ({ t with rdb := script.1 } : HTTPIdempotencyStore).decodeClaim tt k token script.2 := by
  simp only [claim, hns, hkey, hk.1, hk.2.1, or_self, Bool.true_eq_false, if_false]

theorem Linked.init (ns : KeyNamespace) (now : Time) :
    Linked tt view memToken redisToken {} { ns := ns } now := by
  refine ⟨rfl, ?_, ?_, fun _ ↦ .free fun _ ↦ KeyStore.Gone.of_eq_none rfl⟩
  · intro i r q hi
    cases hi
  · intro i r e hi
    cases hi

theorem outcome_settled {x y : Except Err Unit} :
    (StoreAnswer.settled x).outcome view = (StoreAnswer.settled y).outcome view ↔
      x.toOption = y.toOption := by
  cases x with
  | ok | error =>
    cases y with
    | ok | error => simp [StoreAnswer.outcome, Except.toOption]

variable (h : Linked tt view memToken redisToken s t now)
include h

theorem Linked.acquire (hmem : Function.Injective memToken) (hk : Separable k)
    (fingerprint : Bytes) {ms : ℤ} (hms : pxDuration ms = leaseTTL)
    (hlease : (cells t.ns t.rdb k).Gone now .lease) (hresp : (cells t.ns t.rdb k).Gone now .resp)
    (hfp : (cells t.ns t.rdb k).Gone now .fp) :
    let script := claimRespScript t.rdb now (keyName t.ns k .resp) (keyName t.ns k .lease)
      (keyName t.ns k .fp) (redisToken t.receipts.length) ms fingerprint ms
    script.2 = .acquired ∧ Linked tt view memToken redisToken
      (s.acquire now (some (memToken s.receipts.length)) k.flat fingerprint leaseTTL).1
      (({ t with rdb := script.1 } : HTTPIdempotencyStore).decodeClaim tt k
        (redisToken t.receipts.length) .acquired).1 now := by
  have hcells := claimRespScript_cells t.ns t.rdb now (redisToken t.receipts.length)
    fingerprint ms ms hk
  have hacquired := LinkedCells.acquire tt view memToken redisToken fingerprint hlease hresp hfp
    t.receipts.length hms
  have hreceipts : ∀ {j : ℕ} {a : MemReceipt},
      (s.receipts ++ [{ composed := k.flat, token := memToken s.receipts.length }])[j]? = some a →
      s.receipts[j]? = some a ∨ j = s.receipts.length ∧
        a = { composed := k.flat, token := memToken s.receipts.length } :=
    getElem?_concat_cases
  refine ⟨hcells.2.trans hacquired.1, ?_, ?_, ?_, ?_⟩
  · simpa [MemStore.acquire, decodeClaim] using h.length
  · intro j a b ha hb
    obtain ha | ⟨rfl, rfl⟩ := hreceipts ha
    · obtain hb | ⟨rfl, -⟩ := getElem?_concat_cases hb
      · exact h.receipt ha hb
      · exact absurd (List.getElem?_eq_some_iff.1 ha).1 (by rw [h.length]; exact lt_irrefl _)
    · obtain hb | ⟨-, rfl⟩ := getElem?_concat_cases hb
      · exact absurd (List.getElem?_eq_some_iff.1 hb).1 (by rw [h.length]; exact lt_irrefl _)
      · exact ⟨k, hk, rfl, rfl, by rw [h.length], rfl, rfl, rfl, fun _ ↦ ⟨rfl, rfl⟩⟩
  · intro j a e ha he hetoken
    obtain ha | ⟨rfl, rfl⟩ := hreceipts ha
    · by_cases hak : a.composed = k.flat
      · rw [hak, MemStore.entries_acquire_some] at he
        cases he
        have hj : s.receipts.length = j := hmem hetoken
        have hlt := (List.getElem?_eq_some_iff.1 ha).1
        omega
      · rw [MemStore.entries_acquire_of_ne hak] at he
        exact h.unsettled ha he hetoken
    · rfl
  · intro k' hk'
    by_cases hkk : k' = k
    · subst hkk
      rw [MemStore.entries_acquire_some, h.length]
      exact hcells.1 ▸ hacquired.2
    · rw [MemStore.entries_acquire_of_ne fun hflat ↦ hkk (flat_inj hk' hk hflat)]
      exact (claimRespScript_frame hk hk' hkk).symm ▸ h.key hk'

theorem Linked.claim_idle (hmem : Function.Injective memToken) (hns : k.ns ≠ "") (hkey : k.key ≠ "")
    (hk : Separable k) (fingerprint : Bytes) (httl : WholeMs leaseTTL)
    (hidle : s.Idle now k.flat) (hlease : (cells t.ns t.rdb k).Gone now .lease)
    (hresp : (cells t.ns t.rdb k).Gone now .resp) (hfp : (cells t.ns t.rdb k).Gone now .fp) :
    ClaimAgrees tt view memToken redisToken s t now k fingerprint leaseTTL := by
  obtain ⟨hreply, hnext⟩ := h.acquire hmem hk fingerprint (px_orDefault httl) hlease hresp hfp
  rw [ClaimAgrees, MemStore.claim_of_idle hns hkey hidle, claim_of_separable hns hkey hk, hreply]
  exact ⟨rfl, hnext⟩

/-- In the rest of the millisecond of the expiry one store grants what the other still refuses. -/
theorem Linked.claim_differs (hk : Separable k) (hclean : ¬ClaimClean s now k) (fingerprint : Bytes)
    (leaseTTL : Duration) :
    (StoreAnswer.claimed (s.claim now (some (memToken s.receipts.length)) k fingerprint
        leaseTTL).2).outcome view ≠
      (StoreAnswer.claimed (t.claim tt now (some (redisToken t.receipts.length)) k fingerprint
        leaseTTL).2).outcome view := by
  simp only [ClaimClean, Classical.not_imp, not_forall] at hclean
  obtain ⟨hns, hkey, entry, he, hkept, hexpired⟩ := hclean
  have hlinked := h.key hk
  rw [show s.entries k.flat = some entry from he] at hlinked
  rw [claim_of_separable hns hkey hk]
  cases hlinked with
  | leased i e fp hlease hresp hfp =>
    rw [MemStore.claim_of_idle hns hkey, claimRespScript_live hkept hfp
      (.inr ⟨hresp, ⟨_, hlease⟩, rfl⟩)]
    · cases fpMismatch fp fingerprint with
      | true | false => exact nofun
    · rintro _ he'
      cases he.symm.trans he'
      simp [MemEntry.replay, MemEntry.leased, show ¬now < e from hexpired]
  | done rec rec' blob e fp hresp hblob hview hlease hfp =>
    rw [MemStore.claim_of_idle hns hkey, claimRespScript_live hkept hfp (.inl ⟨blob, hresp, rfl⟩)]
    · cases fpMismatch fp fingerprint with
      | true => exact nofun
      | false =>
        simp only [Bool.false_eq_true, if_false, decodeClaim, hblob]
        exact nofun
    · rintro _ he'
      cases he.symm.trans he'
      simp [MemEntry.replay, MemEntry.leased, show ¬now < e from hexpired]

variable (hne : ∀ n, memToken n ≠ [])
include hne

theorem Linked.update (hi : s.receipts[i]? = some r)
    (hlink : LinkedReceipt memToken redisToken t.ns i k r' q') {entries : String → Option MemEntry}
    {rdb : KeyStore String Bytes} (hcomposed : r.composed = r'.composed)
    (hothers : ∀ c, c ≠ k.flat → entries c = s.entries c)
    (hframe : ∀ k', Separable k' → k' ≠ k → cells t.ns rdb k' = cells t.ns t.rdb k')
    (hown : LinkedCells tt view memToken redisToken now (entries k.flat) (cells t.ns rdb k))
    (htoken : (entries k.flat = s.entries k.flat ∧ (s.held r = none ∨ r'.settled = r.settled)) ∧
        r.token = memToken i ∨ ∀ e, entries k.flat = some e → e.leaseToken = []) :
    Linked tt view memToken redisToken ⟨entries, s.receipts.set i r'⟩
      { t with rdb := rdb, receipts := t.receipts.set i q' } now := by
  refine ⟨by simpa using h.length, ?_, ?_, ?_⟩
  · intro j a b ha hb
    obtain ⟨rfl, rfl⟩ | ⟨hij, ha⟩ := getElem?_set_cases ha
    · obtain ⟨-, rfl⟩ | ⟨hii, -⟩ := getElem?_set_cases hb
      · exact ⟨k, hlink⟩
      · exact absurd rfl hii
    · obtain ⟨rfl, -⟩ | ⟨-, hb⟩ := getElem?_set_cases hb
      · exact absurd rfl hij
      · exact h.receipt ha hb
  · intro j a e ha he hetoken
    dsimp only at he
    by_cases hak : a.composed = k.flat
    · rw [hak] at he
      obtain ⟨⟨hentry, hused⟩, hri⟩ | hnil := htoken
      · rw [hentry] at he
        obtain ⟨rfl, rfl⟩ | ⟨-, ha⟩ := getElem?_set_cases ha
        · have hr : s.entries r.composed = some e := by
            rw [hcomposed, hak]
            exact he
          obtain hnone | hsame := hused
          · rw [MemStore.held_eq_some.2 ⟨hr, hetoken.trans hri.symm⟩] at hnone
            cases hnone
          · rw [hsame]
            exact h.unsettled hi hr hetoken
        · exact h.unsettled ha (by rw [hak]; exact he) hetoken
      · exact absurd (hetoken.symm.trans (hnil e he)) (hne j)
    · rw [hothers _ hak] at he
      obtain ⟨rfl, rfl⟩ | ⟨-, ha⟩ := getElem?_set_cases ha
      · exact absurd hlink.composed hak
      · exact h.unsettled ha he hetoken
  · intro k' hk'
    by_cases hkk : k' = k
    · subst hkk
      exact hown
    · dsimp only
      rw [hothers _ fun hflat ↦ hkk (flat_inj hk' hlink.separable hflat), hframe k' hk' hkk]
      exact h.key hk'

theorem Linked.stale (hi : s.receipts[i]? = some r)
    (hlink : LinkedReceipt memToken redisToken t.ns i k r q)
    (hlink' : LinkedReceipt memToken redisToken t.ns i k r' q')
    (hcomposed : r.composed = r'.composed) (hsettled : s.held r = none ∨ r'.settled = r.settled) :
    Linked tt view memToken redisToken ⟨s.entries, s.receipts.set i r'⟩
      { t with receipts := t.receipts.set i q' } now :=
  h.update hne hi hlink' hcomposed (fun _ _ ↦ rfl) (fun _ _ _ ↦ rfl) (h.key hlink.separable)
    (.inl ⟨⟨rfl, hsettled⟩, hlink.token⟩)

variable (hmem : Function.Injective memToken)
include hmem

theorem Linked.held_leased (hlink : LinkedReceipt memToken redisToken t.ns i k r q) {e : MemEntry}
    (hheld : s.held r = some e) :
    (cells t.ns t.rdb k) .lease = some ⟨redisToken i, e.leaseExpiry⟩ ∧
      (cells t.ns t.rdb k).Gone now .resp ∧
      LinkedFp now e.fingerprint e.leaseExpiry (cells t.ns t.rdb k) := by
  have hkey := h.key hlink.separable
  obtain ⟨he, htoken⟩ := MemStore.held_eq_some.1 hheld
  rw [hlink.composed] at he
  rw [he] at hkey
  cases hkey with
  | leased _ _ _ hlease hresp hfp =>
    obtain rfl := hmem (htoken.trans hlink.token)
    exact ⟨hlease, hresp, hfp⟩
  | done =>
    exact absurd (htoken.trans hlink.token).symm (hne i)

theorem Linked.claim (hk : Separable k) (hclean : ClaimClean s now k) (fingerprint : Bytes)
    (httl : WholeMs leaseTTL) :
    ClaimAgrees tt view memToken redisToken s t now k fingerprint leaseTTL := by
  by_cases hns : k.ns = ""
  · simp only [ClaimAgrees, MemStore.claim, HTTPIdempotencyStore.claim, hns, true_or, if_true]
    exact ⟨rfl, h⟩
  by_cases hkey : k.key = ""
  · simp only [ClaimAgrees, MemStore.claim, HTTPIdempotencyStore.claim, hns, hkey, hk.1, or_true,
      true_or, or_self, Bool.true_eq_false, if_false, if_true]
    exact ⟨rfl, h⟩
  have hidle := h.claim_idle hmem hns hkey hk fingerprint httl
  have hlinked := h.key hk
  generalize he : s.entries k.flat = entry at hlinked
  cases hlinked with
  | free hgone =>
    refine hidle (fun e he' ↦ ?_) (hgone .lease) (hgone .resp) (hgone .fp)
    rw [he] at he'
    cases he'
  | leased i e fp hlease hresp hfp =>
    by_cases hlive : now < e
    · rw [ClaimAgrees, MemStore.claim_of_live hns hkey he (ite_self _)
          (by simp [MemEntry.leased, hne i, hlive]), claim_of_separable hns hkey hk,
        claimRespScript_live (.of_le hlive.le) hfp (.inr ⟨hresp, ⟨_, hlease⟩, rfl⟩)]
      cases fpMismatch fp fingerprint with
      | true | false => exact ⟨rfl, h⟩
    · have hgone : ¬Live now e := fun hkept ↦ hlive (hclean hns hkey _ he hkept)
      refine hidle (fun e' he' ↦ ?_) (KeyStore.Gone.of_expired hlease hgone) hresp (hfp.gone hgone)
      cases he.symm.trans he'
      simp [MemEntry.replay, MemEntry.leased, hlive]
  | done rec rec' blob e fp hresp hblob hview hlease hfp =>
    by_cases hlive : now < e
    · rw [ClaimAgrees, MemStore.claim_of_live hns hkey he (if_pos hlive) rfl,
        claim_of_separable hns hkey hk,
        claimRespScript_live (.of_le hlive.le) hfp (.inl ⟨blob, hresp, rfl⟩)]
      cases fpMismatch fp fingerprint with
      | true => exact ⟨rfl, h⟩
      | false =>
        simp only [Bool.false_eq_true, if_false, decodeClaim, hblob]
        exact ⟨congrArg Outcome.done hview.symm, h⟩
    · have hgone : ¬Live now e := fun hkept ↦ hlive (hclean hns hkey _ he hkept)
      refine hidle (fun e' he' ↦ ?_) hlease (KeyStore.Gone.of_expired hresp hgone) (hfp.gone hgone)
      cases he.symm.trans he'
      simp [MemEntry.replay, MemEntry.leased, hlive]

variable (hredis : Function.Injective redisToken)
  (hi : s.receipts[i]? = some r) (hq : t.receipts[i]? = some q)
include hredis hi

section

variable (hlink : LinkedReceipt memToken redisToken t.ns i k r q)
include hlink

theorem Linked.token_check : (cells t.ns t.rdb k).get now .lease = some (redisToken i) ↔
      r.settled = false ∧ ∃ e ∈ s.held r, Live now e.leaseExpiry := by
  have hcells := h.key hlink.separable
  have hentry : s.entries k.flat = s.entries r.composed := by rw [hlink.composed]
  constructor
  · intro hget
    cases he : s.entries k.flat with
    | none =>
      rw [he] at hcells
      cases hcells with
      | free hgone =>
        rw [get_eq_none_iff.2 (hgone .lease)] at hget
        cases hget
    | some e =>
      rw [he] at hcells
      cases hcells with
      | leased _ _ _ hlease =>
        obtain ⟨expiry', hcell, hlive⟩ := get_eq_some_iff.1 hget
        rw [hlease] at hcell
        obtain ⟨htoken, rfl⟩ := Expiring.mk.inj (Option.some.inj hcell)
        obtain rfl := hredis htoken
        rw [hentry] at he
        exact ⟨h.unsettled hi he rfl, _, MemStore.held_eq_some.2 ⟨he, hlink.token.symm⟩, hlive⟩
      | done _ _ _ _ _ _ _ _ hlease =>
        rw [get_eq_none_iff.2 hlease] at hget
        cases hget
  · rintro ⟨-, e, hheld, hlive⟩
    exact get_eq_some_iff.2 ⟨_, (h.held_leased hne hmem hlink hheld).1, hlive⟩

theorem Linked.settle_unused (hunused : r.settled = false)
    {again : Except Err Unit} {entry : MemEntry → Option MemEntry}
    {script : KeyStore String Bytes × Bool} {stale : Err} {cache : Except Err Unit → HttpReceipt}
    (hu : MemStore.Unleased entry)
    (hcache : ∀ res, LinkedReceipt memToken redisToken t.ns i k { r with settled := true }
      (cache res))
    (hstale : ¬(cells t.ns t.rdb k).get now .lease = some (redisToken i) → script = (t.rdb, false))
    (hframe : ∀ k', Separable k' → k' ≠ k → cells t.ns script.1 k' = cells t.ns t.rdb k')
    (hfound : ∀ e, s.held r = some e → Live now e.leaseExpiry →
      script.2 = true ∧ LinkedCells tt view memToken redisToken now (entry e)
        (cells t.ns script.1 k)) :
    ((s.settle (.lease i) again entry).2.toOption = (t.settled i script stale cache).2.toOption ↔
        ∀ e ∈ s.held r, Live now e.leaseExpiry) ∧
      ((∀ e ∈ s.held r, Live now e.leaseExpiry) →
        Linked tt view memToken redisToken (s.settle (.lease i) again entry).1
          (t.settled i script stale cache).1 now) := by
  have hcheck := h.token_check hne hmem hredis hi hlink
  simp only [MemStore.settle, hi, hunused, Bool.false_eq_true, if_false, settled]
  cases hheld : s.held r with
  | none =>
    have hno : script = (t.rdb, false) := hstale (by simp [hcheck, hheld])
    rw [hno]
    refine ⟨iff_of_true rfl (by simp), fun _ ↦ ?_⟩
    exact h.stale hne hi hlink (hcache _) rfl (.inl hheld)
  | some e =>
    by_cases hlive : Live now e.leaseExpiry
    · obtain ⟨hok, hcells⟩ := hfound e hheld hlive
      obtain ⟨he, -⟩ := MemStore.held_eq_some.1 hheld
      refine ⟨iff_of_true (by simp [hok, settleResult]) (by simp [hlive]), fun _ ↦ ?_⟩
      refine h.update hne hi (hcache _) rfl ?_ hframe ?_ (.inr ?_)
      · intro c hc
        rw [← hlink.composed] at hc
        exact Function.update_of_ne hc _ _
      · rw [← hlink.composed]
        simpa using hcells
      · intro e' he'
        rw [← hlink.composed, Function.update_self] at he'
        exact hu e e' he'
    · have hno : script = (t.rdb, false) := hstale (by simp [hcheck, hheld, hlive])
      rw [hno]
      simp [settleResult, Except.toOption, hlive]

theorem Linked.settle_used (hused : r.settled = true)
    {script : KeyStore String Bytes × Bool} (stale : Err) (cache : Except Err Unit → HttpReceipt)
    (hcache : ∀ res, LinkedReceipt memToken redisToken t.ns i k r (cache res))
    (hstale : ¬(cells t.ns t.rdb k).get now .lease = some (redisToken i) →
      script = (t.rdb, false)) :
    (t.settled i script stale cache).2 = .error stale ∧
      Linked tt view memToken redisToken s (t.settled i script stale cache).1 now := by
  have hno : script = (t.rdb, false) :=
    hstale (by simp [h.token_check hne hmem hredis hi hlink, hused])
  rw [settled, hno]
  refine ⟨rfl, ?_⟩
  have hnext := h.stale hne hi hlink (hcache (.error stale)) rfl (.inr rfl)
  rw [MemStore.set_receipt_self hi] at hnext
  exact hnext

end

include hq

theorem Linked.record {resp : RecordedResponse} {doneTTL : Duration}
    (hresp : resp.Storable) (httl : WholeMs doneTTL)
    (hview : view { resp with recordedAt := now } = view resp) :
    ((s.record now now (.lease i) resp doneTTL).2.toOption =
        (t.record tt now (.lease i) resp doneTTL).2.toOption ↔ RecordClean s now r q) ∧
      (RecordClean s now r q → Linked tt view memToken redisToken
        (s.record now now (.lease i) resp doneTTL).1
        (t.record tt now (.lease i) resp doneTTL).1 now) := by
  obtain ⟨k, hlink⟩ := h.receipt hi hq
  obtain ⟨blob, hmarshal, hblob⟩ := hresp.blob tt
  have hstale : ¬(cells t.ns t.rdb k).get now .lease = some (redisToken i) →
      httpRecordScript t.rdb now q.leaseKey q.respKey q.fpKeyOrLease q.token blob
        (clampMs (orDefault doneTTL defaultTTL)) = (t.rdb, false) := by
    intro hno
    rw [httpRecordScript, hlink.leaseKey, hlink.redisToken]
    exact if_neg hno
  simp only [HTTPIdempotencyStore.record, HTTPIdempotencyStore.onLease, hq, hmarshal, RecordClean]
  cases hused : r.settled with
  | false =>
    rw [(hlink.unused hused).1]
    simp only [Bool.false_eq_true, if_false]
    refine h.settle_unused hne hmem hredis hi hlink hused MemStore.unleased_record
      (fun res ↦ { hlink with unused := fun hfalse ↦ by cases hfalse }) hstale ?_ ?_
    · intro k' hk' hkk
      rw [hlink.leaseKey, hlink.respKey, hlink.fpKeyOrLease]
      exact httpRecordScript_frame hlink.separable hk' hkk
    · intro e hheld hlive
      obtain ⟨hlease, -, hfp⟩ := h.held_leased hne hmem hlink hheld
      have hcells := httpRecordScript_cells t.ns t.rdb now (redisToken i) blob
        (clampMs (orDefault doneTTL defaultTTL)) hlink.separable
      rw [hlink.leaseKey, hlink.respKey, hlink.fpKeyOrLease, hlink.redisToken, hcells.1, hcells.2]
      exact LinkedCells.recorded hfp hlive (get_eq_some_iff.2 ⟨_, hlease, hlive⟩) hblob
        hview.symm (px_orDefault httl)
  | true =>
    simp only [MemStore.record, MemStore.settle, hi, hused, if_true]
    cases hcached : q.recorded with
    | some res =>
      cases res with
      | ok _ => simp [Except.toOption]
      | error err => exact ⟨iff_of_true rfl (by simp), fun _ ↦ h⟩
    | none =>
      obtain ⟨herr, hnext⟩ := h.settle_used hne hmem hredis hi hlink hused errRecordStale
        (fun res ↦ { q with recorded := some res })
        (fun res ↦ { hlink with unused := fun hfalse ↦ by rw [hused] at hfalse; cases hfalse })
          hstale
      simp only [herr]
      exact ⟨iff_of_true rfl (by simp), fun _ ↦ hnext⟩

theorem Linked.release :
    ((s.release (.lease i)).2.toOption = (t.release now (.lease i)).2.toOption ↔
        ReleaseClean s now r q) ∧
      (ReleaseClean s now r q → Linked tt view memToken redisToken (s.release (.lease i)).1
        (t.release now (.lease i)).1 now) := by
  obtain ⟨k, hlink⟩ := h.receipt hi hq
  have hstale : ¬(cells t.ns t.rdb k).get now .lease = some (redisToken i) →
      httpReleaseScript t.rdb now q.leaseKey q.fpKeyOrLease q.token = (t.rdb, false) := by
    intro hno
    rw [httpReleaseScript, hlink.leaseKey, hlink.redisToken]
    exact if_neg hno
  simp only [HTTPIdempotencyStore.release, HTTPIdempotencyStore.onLease, hq, ReleaseClean]
  cases hused : r.settled with
  | false =>
    rw [(hlink.unused hused).2]
    simp only [Bool.false_eq_true, if_false]
    refine h.settle_unused hne hmem hredis hi hlink hused MemStore.unleased_release
      (fun res ↦ { hlink with unused := fun hfalse ↦ by cases hfalse }) hstale ?_ ?_
    · intro k' hk' hkk
      rw [hlink.leaseKey, hlink.fpKeyOrLease]
      exact httpReleaseScript_frame hlink.separable hk' hkk
    · intro e hheld hlive
      obtain ⟨hlease, hresp, -⟩ := h.held_leased hne hmem hlink hheld
      have hcells := httpReleaseScript_cells t.ns t.rdb now (redisToken i) hlink.separable
      rw [hlink.leaseKey, hlink.fpKeyOrLease, hlink.redisToken, hcells.1, hcells.2]
      exact LinkedCells.released hresp (get_eq_some_iff.2 ⟨_, hlease, hlive⟩)
  | true =>
    simp only [MemStore.release, MemStore.settle, hi, hused, if_true]
    cases hcached : q.released with
    | some res =>
      cases res with
      | ok _ => exact ⟨iff_of_true rfl rfl, fun _ ↦ h⟩
      | error err => simp [Except.toOption]
    | none =>
      obtain ⟨herr, hnext⟩ := h.settle_used hne hmem hredis hi hlink hused errReleaseStale
        (fun res ↦ { q with released := some res })
        (fun res ↦ { hlink with unused := fun hfalse ↦ by rw [hused] at hfalse; cases hfalse })
          hstale
      simp [herr, Except.toOption]

omit hi hq

theorem Linked.call {op : StoreOp} (hx : StoreCall.Meets view ⟨now, op⟩) :
    ((s.call memToken ⟨now, op⟩).2.outcome view = (t.call tt redisToken ⟨now, op⟩).2.outcome view ↔
        StoreCall.Clean s t ⟨now, op⟩) ∧
      (StoreCall.Clean s t ⟨now, op⟩ → Linked tt view memToken redisToken
        (s.call memToken ⟨now, op⟩).1 (t.call tt redisToken ⟨now, op⟩).1 now) := by
  cases op with
  | claim k fingerprint leaseTTL =>
    by_cases hclean : ClaimClean s now k
    · obtain ⟨hagree, hnext⟩ := h.claim hne hmem hx.1 hclean fingerprint hx.2
      exact ⟨iff_of_true hagree hclean, fun _ ↦ hnext⟩
    · exact ⟨iff_of_false (h.claim_differs hx.1 hclean fingerprint leaseTTL) hclean,
        fun hc ↦ absurd hc hclean⟩
  | record ref resp doneTTL =>
    simp only [MemStore.call, HTTPIdempotencyStore.call, outcome_settled]
    cases ref with
    | nonAcquired => exact ⟨iff_of_true rfl trivial, fun _ ↦ h⟩
    | lease i =>
      obtain ⟨hi, hq⟩ | ⟨r, q, hi, hq⟩ := getElem?_pair_cases h.length i
      · simp only [MemStore.record, MemStore.settle, hi, HTTPIdempotencyStore.record,
          HTTPIdempotencyStore.onLease, hq, StoreCall.Clean]
        exact ⟨iff_of_true trivial fun r q hr ↦ (by cases hr), fun _ ↦ h⟩
      · have hclean : StoreCall.Clean s t ⟨now, .record (.lease i) resp doneTTL⟩ ↔
            RecordClean s now r q := by simp [StoreCall.Clean, hi, hq]
        rw [hclean]
        exact h.record hne hmem hredis hi hq hx.1 hx.2.1 hx.2.2
  | release ref =>
    simp only [MemStore.call, HTTPIdempotencyStore.call, outcome_settled]
    cases ref with
    | nonAcquired => exact ⟨iff_of_true rfl trivial, fun _ ↦ h⟩
    | lease i =>
      obtain ⟨hi, hq⟩ | ⟨r, q, hi, hq⟩ := getElem?_pair_cases h.length i
      · simp only [MemStore.release, MemStore.settle, hi, HTTPIdempotencyStore.release,
          HTTPIdempotencyStore.onLease, hq, StoreCall.Clean]
        exact ⟨iff_of_true trivial fun r q hr ↦ (by cases hr), fun _ ↦ h⟩
      · have hclean : StoreCall.Clean s t ⟨now, .release (.lease i)⟩ ↔
            ReleaseClean s now r q := by simp [StoreCall.Clean, hi, hq]
        rw [hclean]
        exact h.release hne hmem hredis hi hq

end

def memOutcomes {β : Type} (view : RecordedResponse → β) (memToken : ℕ → Bytes)
    (calls : List StoreCall) : List (Outcome β) :=
  (answers (MemStore.call memToken) {} calls).map (StoreAnswer.outcome view)

def redisOutcomes {β : Type} (view : RecordedResponse → β) (tt : TimeText)
    (redisToken : ℕ → Bytes) (ns : KeyNamespace) (calls : List StoreCall) : List (Outcome β) :=
  (answers (HTTPIdempotencyStore.call tt redisToken) { ns := ns } calls).map
    (StoreAnswer.outcome view)

/-- Under a clock that does not go back and fresh tokens, the two stores answer a list of calls
alike exactly when every call is clean where it is made. `view` is what is compared of a replayed
response. -/
theorem stores_agree_iff {β : Type} (view : RecordedResponse → β) (tt : TimeText)
    {memToken redisToken : ℕ → Bytes} (hmem : Function.Injective memToken)
    (hredis : Function.Injective redisToken) (hne : ∀ n, memToken n ≠ []) (ns : KeyNamespace)
    {calls : List StoreCall} (hclock : (calls.map StoreCall.now).Pairwise (· ≤ ·))
    (hmeets : ∀ x ∈ calls, x.Meets view) :
    memOutcomes view memToken calls = redisOutcomes view tt redisToken ns calls ↔
      ∀ pre x post, calls = pre ++ x :: post → x.Clean (after (MemStore.call memToken) {} pre)
          (after (HTTPIdempotencyStore.call tt redisToken) { ns := ns } pre) := by
  refine answers_map_eq_iff_along
    (R := fun rest s t ↦ (rest.map StoreCall.now).Pairwise (· ≤ ·) ∧ (∀ x ∈ rest, x.Meets view) ∧
      ∀ x ∈ rest.head?, Linked tt view memToken redisToken s t x.now) ?_ ?_ ⟨hclock, hmeets, ?_⟩
  · rintro x rest s t ⟨hclock, hmeets, hlinked⟩ hclean
    rw [map_cons, pairwise_cons] at hclock
    have hnext :=
      ((hlinked x rfl).call hne hmem hredis (hmeets x mem_cons_self)).2 hclean
    refine ⟨hclock.2, fun y hy ↦ hmeets y (mem_cons_of_mem _ hy), fun y hy ↦ ?_⟩
    exact hnext.mono (hclock.1 _ (mem_map_of_mem (mem_of_mem_head? hy)))
  · rintro x rest s t ⟨-, hmeets, hlinked⟩
    exact ((hlinked x rfl).call hne hmem hredis (hmeets x mem_cons_self)).1
  · exact fun x _ ↦ Linked.init ns x.now

def unaryBytes (n : ℕ) : Bytes := List.replicate (n + 1) 0x61

theorem unaryBytes_injective : Function.Injective unaryBytes := by
  intro m n h
  have hlength := congrArg length h
  simpa [unaryBytes] using hlength

def httpNamespace : KeyNamespace := ⟨"_runtime", by decide, by decide⟩

def shown (r : RecordedResponse) : RecordedResponse := { r with recordedAt := 0 }

def createdResponse : RecordedResponse :=
  ⟨201, asciiBytes "ok", [(asciiBytes "Location", [asciiBytes "/orders/7"])], 8000000⟩

def createKey : IdempotencyKey := deriveKey "t-1" "u-1" "POST" "/orders" "k-1"

def claimAt (now : Time) : StoreCall := ⟨now, .claim createKey [1] 5000000⟩

def recordAt (now : Time) (i : ℕ) : StoreCall := ⟨now, .record (.lease i) createdResponse 50000000⟩

def releaseAt (now : Time) (i : ℕ) : StoreCall := ⟨now, .release (.lease i)⟩

/-- A lease that is taken over after its expiry, with a late `Record` of the first holder; the
response of the second is replayed, and refused to another body. -/
def createTwice : List StoreCall :=
  [claimAt 0, claimAt 2000000, claimAt 6000000, recordAt 7000000 0, recordAt 8000000 1,
    claimAt 9000000, ⟨10000000, .claim createKey [2] 5000000⟩]

theorem stores_agree_create_twice : memOutcomes shown unaryBytes createTwice =
        [.acquired, .busy, .acquired, .failed, .ok, .done (shown createdResponse), .mismatch [1]] ∧
      memOutcomes shown unaryBytes createTwice =
        redisOutcomes shown rfc3339Nano unaryBytes httpNamespace createTwice ∧
      ∀ pre x post, createTwice = pre ++ x :: post →
        x.Clean (after (MemStore.call unaryBytes) {} pre)
          (after (HTTPIdempotencyStore.call rfc3339Nano unaryBytes)
            { ns := httpNamespace } pre) := by
  have hsame : memOutcomes shown unaryBytes createTwice =
      redisOutcomes shown rfc3339Nano unaryBytes httpNamespace createTwice := by
    decide +kernel
  refine ⟨by decide +kernel, hsame, (stores_agree_iff shown rfc3339Nano
    unaryBytes_injective unaryBytes_injective (fun n ↦ cons_ne_nil _ _) httpNamespace ?_ ?_).1
    hsame⟩
  · decide
  · have hresp : createdResponse.Storable := by decide +kernel
    have hkey : Separable createKey := by decide +kernel
    intro x hx
    simp only [createTwice, mem_cons, not_mem_nil, or_false] at hx
    obtain rfl | rfl | rfl | rfl | rfl | rfl | rfl := hx
    all_goals first | exact ⟨hkey, by decide⟩ | exact ⟨hresp, by decide, rfl⟩

/-- A claim in the millisecond of the expiry, a `Record` after it, a second `Record`, a `Release`
after a `Record`, a `Release` after a late `Record` for a lease that was taken over, and a second
`Release` after such a `Release`. -/
theorem stores_differ : ([[claimAt 0, claimAt 5000000], [claimAt 0, recordAt 6000000 0],
        [claimAt 0, recordAt 1000000 0, recordAt 2000000 0],
        [claimAt 0, recordAt 1000000 0, releaseAt 2000000 0],
        [claimAt 0, claimAt 6000000, recordAt 7000000 0, releaseAt 8000000 0],
        [claimAt 0, claimAt 6000000, releaseAt 7000000 0, releaseAt 8000000 0]] :
      List (List _)).all fun calls ↦
      memOutcomes shown unaryBytes calls ≠
        redisOutcomes shown rfc3339Nano unaryBytes httpNamespace calls := by
  decide +kernel

end GoCell.HttpIdempotency
