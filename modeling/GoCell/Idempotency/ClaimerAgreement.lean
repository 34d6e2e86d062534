import GoCell.Foundation.Runs
import GoCell.Idempotency.ClaimerLink

namespace GoCell.Idempotency

open Foundation Kernel List Option Function KeyStore InMemClaimer RedisReceipt

def Settlement.other : Settlement → Settlement
  | .commit => .release
  | .release => .commit

variable (s : InMemClaimer)

/-- When a settlement of a receipt answers alike on both claimers. An unused receipt must not have
outlived the key of its lease without having been replaced, and a used one must not have been
settled the other way. -/
def SettleClean (now : Time) (how : Settlement) (r : InMemReceipt) (q : RedisReceipt) : Prop :=
  if r.used then q.cached how.other ≠ some (.ok ()) else ∀ e ∈ s.held r, Live now e.expiresAt

/-- A claim must not fall into the rest of the millisecond in which the entry of its key expired. -/
def ClaimClean (now : Time) (key : String) : Prop :=
  ∀ e ∈ s.entries key, Live now e.expiresAt → now < e.expiresAt

def Clean (t : RedisClaimer) (x : Call) : Prop :=
  match x.op with
  | .claim key _ _ => validKey key = true ∧ ClaimClean s x.now key
  | .settle how (.lease i) => ∀ r q, s.receipts[i]? = some r → t.receipts[i]? = some q →
      SettleClean s x.now how r q
  | .extend (.lease i) _ => ∀ r, s.receipts[i]? = some r →
      ∀ e ∈ s.held r, e.state ≠ .done ∧ Live x.now e.expiresAt
  | _ => True

theorem InMemClaimer.setReceipt_self {s : InMemClaimer} {i : ℕ} {r : InMemReceipt}
    (hi : s.receipts[i]? = some r) : s.setReceipt i r = s := by
  obtain ⟨hlt, rfl⟩ := List.getElem?_eq_some_iff.1 hi
  simp [setReceipt]

theorem RedisClaimer.setReceipt_self {t : RedisClaimer} {i : ℕ} {q : RedisReceipt}
    (hq : t.receipts[i]? = some q) : t.setReceipt i q = t := by
  obtain ⟨hlt, rfl⟩ := List.getElem?_eq_some_iff.1 hq
  simp [setReceipt]

theorem RedisReceipt.settleScript_stale {q : RedisReceipt} {rdb : KeyStore String String}
    {now : Time} (h : ¬rdb.get now q.leaseKey = some q.token) (how : Settlement) :
    q.settleScript how rdb now = (rdb, false) := by
  cases how with
  | commit => simp only [settleScript, commitScript, h, if_false]
  | release => simp only [settleScript, releaseScript, h, if_false]

theorem InMemClaimer.claim_ok (c : InMemClaimer) (now : Time) (token key : String)
    (leaseTTL doneTTL : Duration) :
    ∃ res, (c.claim now (some token) key leaseTTL doneTTL).2 = .ok res := by
  rw [claim]
  cases c.entries key with
  | none => exact ⟨_, rfl⟩
  | some e =>
    by_cases hlive : now < e.expiresAt
    · simp only [hlive, if_true]
      exact ⟨_, rfl⟩
    · simp only [hlive, if_false]
      exact ⟨_, rfl⟩

theorem toOption_map_none {x y : Except Err Unit} :
    (x.map fun _ ↦ (none : Option ClaimState)).toOption =
        (y.map fun _ ↦ (none : Option ClaimState)).toOption ↔ x.toOption = y.toOption := by
  cases x with
  | ok | error => cases y with
    | ok | error => simp [Except.map, Except.toOption]

section

variable {memToken redisToken : ℕ → String} {s : InMemClaimer} {t : RedisClaimer} {now : Time}
  {i : ℕ} {r : InMemReceipt} {q : RedisReceipt}

theorem LinkedFlags.settled (h : LinkedFlags r q) (hused : r.used = false) (how : Settlement) :
    LinkedFlags { r with used := true, err := none } (q.cache how (.ok ())) := by
  cases h with
  | fresh _ hc hr =>
    cases how with
    | commit => exact .committed rfl rfl rfl hr
    | release => exact .released rfl rfl hc rfl
  | committed hused' | released hused' | stale hused' => simp [hused] at hused'

theorem LinkedFlags.stale_of (h : LinkedFlags r q) (hused : r.used = false) (how : Settlement)
    (e e' : Err) :
    LinkedFlags { r with used := true, err := some e } (q.cache how (.error e')) := by
  cases h with
  | fresh _ hc hr =>
    cases how with
    | commit =>
      exact .stale rfl e rfl (by simp [cache]) (by simp [cache, hr])
    | release =>
      exact .stale rfl e rfl (by simp [cache, hc]) (by simp [cache])
  | committed hused' | released hused' | stale hused' => simp [hused] at hused'

theorem LinkedReceipt.cache {ns : KeyNamespace} (h : LinkedReceipt memToken redisToken ns i r q)
    {used : Bool} {err : Option Err} {how : Settlement} {res : Except Err Unit}
    (hflags : LinkedFlags { r with used := used, err := err } (q.cache how res)) :
    LinkedReceipt memToken redisToken ns i { r with used := used, err := err }
      (q.cache how res) := by
  cases how with
  | commit | release => exact { h with flags := hflags }

theorem Linked.init (ns : KeyNamespace) (now : Time) :
    Linked memToken redisToken {} { ns := ns } now :=
  ⟨rfl, fun i r q hi ↦ by simp at hi, fun key _ ↦
    .free rfl (KeyStore.Gone.of_eq_none rfl) (KeyStore.Gone.of_eq_none rfl)⟩

variable (h : Linked memToken redisToken s t now)
include h

section

variable (hmem : Function.Injective memToken) (hi : s.receipts[i]? = some r)
  (hq : t.receipts[i]? = some q)
include hmem hi hq

theorem Linked.settle_held (hused : r.used = false) {e : InMemEntry}
    (hheld : s.held r = some e) (hcheck : t.rdb.get now q.leaseKey = some q.token)
    (how : Settlement) :
    Linked memToken redisToken
      ((s.setEntry r.key (settledEntry now r e how)).setReceipt i
        { r with used := true, err := none })
      ({ t with rdb := (q.settleScript how t.rdb now).1 }.setReceipt i (q.cache how (.ok ())))
        now := by
  have hlink := h.receipt i r q hi hq
  have hvalid := hlink.validKey
  obtain ⟨-, htoken⟩ := held_eq_some_iff.1 hheld
  rcases h.held_cases hmem hi hq hheld with ⟨-, -, -, hdone⟩ | ⟨hused', -⟩
  swap
  · simp [hused] at hused'
  rw [hlink.leaseKey] at hcheck
  refine h.setEntry hi (hlink.cache (hlink.flags.settled hused how)) ?_ ?_
  · intro key hkey hne
    cases how with
    | commit =>
      simp only [settleScript, commitScript, hcheck, if_true, hlink.leaseKey, hlink.doneKey]
      rw [set_of_ne (leaseKey_ne_doneKey hkey hvalid), del_of_ne (leaseKey_ne hkey hvalid hne),
        set_of_ne (doneKey_ne hkey hvalid hne), del_of_ne (leaseKey_ne_doneKey hvalid hkey).symm]
      exact ⟨rfl, rfl⟩
    | release =>
      simp only [settleScript, releaseScript, hcheck, if_true, hlink.leaseKey]
      rw [del_of_ne (leaseKey_ne hkey hvalid hne), del_of_ne (leaseKey_ne_doneKey hvalid hkey).symm]
      exact ⟨rfl, rfl⟩
  · cases how with
    | commit =>
      simp only [settleScript, commitScript, hcheck, if_true, hlink.leaseKey,
        hlink.doneKey, hlink.doneTTL, pxDuration_clampMs hlink.wholeMs.1 hlink.wholeMs.2]
      refine .done i _ (now + r.doneTTL) (getElem?_setReceipt_self hi _) rfl rfl
        ?_ ?_ set_self
      · rw [← hlink.token, ← htoken]
        exact update_self ..
      · apply KeyStore.Gone.of_eq_none
        rw [set_of_ne (leaseKey_ne_doneKey hvalid hvalid), del_self]
    | release =>
      simp only [settleScript, releaseScript, hcheck, if_true, hlink.leaseKey]
      refine .free (update_self ..) (KeyStore.Gone.of_eq_none del_self) ?_
      exact hdone.congr (del_of_ne (leaseKey_ne_doneKey hvalid hvalid).symm)

theorem Linked.settle_lease (hredis : Function.Injective redisToken) (how : Settlement) :
    ((s.settle how now (.lease i)).2.toOption = (t.settle how now (.lease i)).2.toOption ↔
        SettleClean s now how r q) ∧
      (SettleClean s now how r q → Linked memToken redisToken (s.settle how now (.lease i)).1
        (t.settle how now (.lease i)).1 now) := by
  have hlink := h.receipt i r q hi hq
  have hcheck := h.token_check hmem hi hq hredis
  have hstale (hno : ¬(r.used = false ∧ ∃ e ∈ s.held r, Live now e.expiresAt)) :
      q.settleScript how t.rdb now = (t.rdb, false) := q.settleScript_stale (hcheck.not.2 hno) how
  simp only [settle, hi, RedisClaimer.settle, RedisClaimer.onLease, hq, SettleClean]
  cases hlink.flags with
  | fresh hused hc hr =>
    have hcached : q.cached how = none := by
      cases how with | commit => exact hc | release => exact hr
    simp only [hused, hcached, Bool.false_eq_true, if_false]
    cases hheld : s.held r with
    | none =>
      simp only [hstale (by simp [hheld])]
      refine ⟨by simp [Except.toOption, settleResult], fun _ ↦ ?_⟩
      exact h.setReceipt hi (hlink.cache (hlink.flags.stale_of hused how _ _)) rfl
        (by simp [hheld]) hlink.token
    | some e =>
      by_cases hlive : Live now e.expiresAt
      · have hyes : t.rdb.get now q.leaseKey = some q.token := by simp [hcheck, hheld, hused, hlive]
        have hok : (q.settleScript how t.rdb now).2 = true := by
          cases how with
          | commit => simp [settleScript, commitScript, hyes]
          | release => simp [settleScript, releaseScript, hyes]
        simp only [hok, settleResult, if_true]
        exact ⟨by simp [hlive], fun _ ↦ h.settle_held hmem hi hq hused hheld hyes how⟩
      · simp [hstale (by simp [hheld, hlive]), settleResult, Except.toOption, hlive]
  | committed hused herr hc hr =>
    have hno := hstale (by simp [hused])
    cases how with
    | commit =>
      simp [hused, herr, hc, hr, cached, Settlement.other, InMemReceipt.result, h]
    | release =>
      simp [hused, herr, hc, hr, cached, Settlement.other, InMemReceipt.result,
        hno, settleResult, Except.toOption]
  | released hused herr hc hr =>
    have hno := hstale (by simp [hused])
    cases how with
    | commit =>
      simp [hused, herr, hc, hr, cached, Settlement.other, InMemReceipt.result,
        hno, settleResult, Except.toOption]
    | release =>
      simp [hused, herr, hc, hr, cached, Settlement.other, InMemReceipt.result, h]
  | stale hused err herr hc hr =>
    have hno := hstale (by simp [hused])
    have hother : q.cached how.other ≠ some (.ok ()) := by
      cases how with | commit => exact hr | release => exact hc
    simp only [hused, if_true, InMemReceipt.result, herr, hother, ne_eq, not_false_iff, iff_true]
    cases hcached : q.cached how with
    | some res =>
      have hres : res ≠ .ok () := by
        rintro rfl
        cases how with | commit => exact hc hcached | release => exact hr hcached
      cases res with
      | ok _ => exact absurd rfl hres
      | error e => exact ⟨rfl, fun _ ↦ h⟩
    | none =>
      simp only [hno]
      refine ⟨rfl, fun _ ↦ ?_⟩
      have hflags : LinkedFlags { r with used := r.used, err := r.err }
          (q.cache how (.error (errStale how))) := by
        cases how with
        | commit => exact .stale hused err herr (by simp [cache]) hr
        | release => exact .stale hused err herr hc (by simp [cache])
      rw [← setReceipt_self hi]
      exact h.setReceipt hi (hlink.cache hflags) rfl (fun _ _ ↦ rfl) hlink.token

theorem Linked.extend_lease
    (hredis : Function.Injective redisToken) {ttl : Duration} (httl : WholeMs ttl) :
    ((s.extend now (.lease i) ttl).2.toOption = (t.extend now (.lease i) ttl).2.toOption ↔
        ∀ e ∈ s.held r, e.state ≠ .done ∧ Live now e.expiresAt) ∧
      ((∀ e ∈ s.held r, e.state ≠ .done ∧ Live now e.expiresAt) →
        Linked memToken redisToken (s.extend now (.lease i) ttl).1
          (t.extend now (.lease i) ttl).1 now) := by
  have hlink := h.receipt i r q hi hq
  have hvalid := hlink.validKey
  have hcheck := h.token_check hmem hi hq hredis
  simp only [InMemClaimer.extend, hi, RedisClaimer.extend, RedisClaimer.onLease, hq]
  cases hheld : s.held r with
  | none =>
    have hno : ¬t.rdb.get now q.leaseKey = some q.token := by simp [hcheck, hheld]
    simp [extendScript, hno, settleResult, Except.toOption, h]
  | some e =>
    rcases h.held_cases hmem hi hq hheld with ⟨hused, hstate, -, hdone⟩ | ⟨hused, hstate, -⟩
    · by_cases hlive : Live now e.expiresAt
      · have hyes : t.rdb.get now q.leaseKey = some q.token := by simp [hcheck, hheld, hused, hlive]
        simp only [extendScript, hyes, if_true, settleResult]
        refine ⟨by simp [hlive, hstate], fun _ ↦ ?_⟩
        rw [expire_of_live hyes, hlink.leaseKey, pxDuration_clampMs httl.1 httl.2,
          ← InMemClaimer.setReceipt_self (s := s.setEntry r.key _) hi,
          ← RedisClaimer.setReceipt_self
            (t := { t with rdb := t.rdb.set now (leaseKey t.ns r.key) q.token ttl }) hq]
        refine h.setEntry hi hlink ?_ ?_
        · intro key hkey hne
          exact ⟨set_of_ne (leaseKey_ne hkey hvalid hne),
            set_of_ne (leaseKey_ne_doneKey hvalid hkey).symm⟩
        · obtain ⟨-, htoken⟩ := held_eq_some_iff.1 hheld
          refine .leased i r (now + ttl) (getElem?_setReceipt_self hi r) rfl hused
            ?_ ?_ ?_
          · rw [← hlink.token, ← htoken, ← hstate]
            exact update_self ..
          · rw [← hlink.redisToken]
            exact set_self
          · exact hdone.congr (set_of_ne (leaseKey_ne_doneKey hvalid hvalid).symm)
      · have hno : ¬t.rdb.get now q.leaseKey = some q.token := by simp [hcheck, hheld, hlive]
        simp [extendScript, hno, settleResult, Except.toOption, hlive]
    · have hno : ¬t.rdb.get now q.leaseKey = some q.token := by simp [hcheck, hused]
      simp [extendScript, hno, settleResult, Except.toOption, hstate]

end

theorem Linked.acquire {key : String}
    (hkey : validKey key = true) {leaseTTL doneTTL : Duration} (hdone : WholeMs doneTTL)
    (hgone : t.rdb.Gone now (doneKey t.ns key)) {s₀ : InMemClaimer}
    (hreceipts : s₀.receipts = s.receipts) (hentries : ∀ k, k ≠ key → s₀.entries k = s.entries k) :
    Linked memToken redisToken
      (s₀.acquire now (some (memToken s.receipts.length)) key leaseTTL doneTTL).1
      { t with
        rdb := t.rdb.set now (leaseKey t.ns key) (redisToken t.receipts.length) leaseTTL
        receipts := t.receipts ++ [{
          leaseKey := leaseKey t.ns key
          doneKey := doneKey t.ns key
          token := redisToken t.receipts.length
          doneTTL := doneTTL }] } now := by
  simp only [InMemClaimer.acquire, hreceipts]
  refine ⟨by simp [h.length], ?_, ?_⟩
  · intro j a b ha hb
    obtain ha | ⟨rfl, rfl⟩ := getElem?_concat_cases ha
    · rw [getElem?_append_left (h.length ▸ (List.getElem?_eq_some_iff.1 ha).1)] at hb
      exact h.receipt j a b ha hb
    · rw [h.length, getElem?_concat_length, some.injEq] at hb
      subst hb
      exact ⟨hkey, rfl, by rw [h.length], rfl, rfl, rfl, hdone, .fresh rfl rfl rfl⟩
  · intro k hk
    by_cases hne : k = key
    · subst hne
      refine .leased s.receipts.length _ (now + leaseTTL) getElem?_concat_length rfl rfl
        (update_self ..) ?_ ?_
      · rw [h.length]
        exact set_self
      · exact hgone.congr (set_of_ne (leaseKey_ne_doneKey hk hk).symm)
    · refine (h.key k hk).congr ((update_of_ne hne ..).trans (hentries k hne))
        (set_of_ne (leaseKey_ne hk hkey hne))
        (set_of_ne (leaseKey_ne_doneKey hkey hk).symm) fun j a _ ha hakey _ _ ↦ ?_
      have hlt := (List.getElem?_eq_some_iff.1 ha).1
      exact ⟨a, (getElem?_append_left hlt).trans ha, hakey, rfl⟩

theorem Linked.claim {key : String}
    (hkey : validKey key = true) (hclean : ClaimClean s now key) {leaseTTL doneTTL : Duration}
    (hlease : WholeMs leaseTTL) (hdone : WholeMs doneTTL) :
    ((s.claim now (some (memToken s.receipts.length)) key leaseTTL doneTTL).2.map
        fun r ↦ some r.1).toOption =
      ((t.claim now (some (redisToken t.receipts.length)) key leaseTTL doneTTL).2.map
        fun r ↦ some r.1).toOption ∧
    Linked memToken redisToken
      (s.claim now (some (memToken s.receipts.length)) key leaseTTL doneTTL).1
      (t.claim now (some (redisToken t.receipts.length)) key leaseTTL doneTTL).1 now := by
  have hnotLease : ¬leaseTTL ≤ 0 := not_le.2 hlease.1
  have hnotDone : ¬doneTTL ≤ 0 := not_le.2 hdone.1
  simp only [InMemClaimer.claim, RedisClaimer.claim, hkey, if_true, claimScript, orDefault,
    hnotLease, hnotDone, if_false, pxDuration_clampMs hlease.1 hlease.2]
  cases h.key key hkey with
  | free hentry hl hd =>
    simp only [hentry, get_eq_none_iff.2 hl, get_eq_none_iff.2 hd]
    exact ⟨rfl, h.acquire hkey hdone hd rfl fun _ _ ↦ rfl⟩
  | leased _ _ e _ _ _ hentry hl hd =>
    simp only [hentry, get_eq_none_iff.2 hd]
    by_cases hlive : now < e
    · have hget := get_eq_some_iff.2 ⟨e, hl, .of_le hlive.le⟩
      simp only [hlive, hget, if_true]
      exact ⟨rfl, h⟩
    · have hget := get_eq_none_iff.2 (.of_expired hl fun hkept ↦ hlive (hclean _ hentry hkept))
      simp only [hlive, hget, if_false]
      exact ⟨rfl, h.acquire hkey hdone hd rfl fun _ hne ↦ update_of_ne hne ..⟩
  | done _ _ e _ _ _ hentry hl hd =>
    simp only [hentry, get_eq_none_iff.2 hl]
    by_cases hlive : now < e
    · have hget := get_eq_some_iff.2 ⟨e, hd, .of_le hlive.le⟩
      simp only [hlive, hget, if_true]
      exact ⟨rfl, h⟩
    · have hgone := Gone.of_expired hd fun hkept ↦ hlive (hclean _ hentry hkept)
      simp only [hlive, get_eq_none_iff.2 hgone, if_false]
      exact ⟨rfl, h.acquire hkey hdone hgone rfl fun _ hne ↦ update_of_ne hne ..⟩

/-- In the rest of the millisecond of the expiry one claimer grants what the other still refuses. -/
theorem Linked.claim_differs {key : String} (hkey : validKey key = true)
    (hclean : ¬ClaimClean s now key) (leaseTTL doneTTL : Duration) :
    ((s.claim now (some (memToken s.receipts.length)) key leaseTTL doneTTL).2.map
        fun r ↦ some r.1).toOption ≠
      ((t.claim now (some (redisToken t.receipts.length)) key leaseTTL doneTTL).2.map
        fun r ↦ some r.1).toOption := by
  simp only [ClaimClean, not_forall] at hclean
  obtain ⟨entry, hmem, hkept, hexpired⟩ := hclean
  simp only [InMemClaimer.claim, RedisClaimer.claim, hkey, if_true, claimScript,
    show s.entries key = some entry from hmem, if_neg hexpired]
  cases h.key key hkey with
  | free hentry => cases hentry.symm.trans hmem
  | leased _ _ _ _ _ _ hentry hl hd =>
    cases hentry.symm.trans hmem
    simp [get_eq_none_iff.2 hd, get_eq_some_iff.2 ⟨_, hl, hkept⟩, InMemClaimer.acquire, Except.map,
      Except.toOption]
  | done _ _ _ _ _ _ hentry _ hd =>
    cases hentry.symm.trans hmem
    simp [get_eq_some_iff.2 ⟨_, hd, hkept⟩, InMemClaimer.acquire, Except.map, Except.toOption]

theorem Linked.call (hmem : Function.Injective memToken) (hredis : Function.Injective redisToken)
    {op : Op} (hms : op.WholeMs) :
    (((claimer fun n ↦ some (memToken n)).call s ⟨now, op⟩).2.toOption =
        ((RedisClaimer.claimer fun n ↦ some (redisToken n)).call t ⟨now, op⟩).2.toOption ↔
          Clean s t ⟨now, op⟩) ∧
      (Clean s t ⟨now, op⟩ → Linked memToken redisToken
        ((claimer fun n ↦ some (memToken n)).call s ⟨now, op⟩).1
        ((RedisClaimer.claimer fun n ↦ some (redisToken n)).call t ⟨now, op⟩).1 now) := by
  cases op with
  | claim key leaseTTL doneTTL =>
    by_cases hkey : validKey key = true
    · by_cases hclean : ClaimClean s now key
      · obtain ⟨hagree, hnext⟩ := h.claim hkey hclean hms.1 hms.2
        exact ⟨iff_of_true hagree ⟨hkey, hclean⟩, fun _ ↦ hnext⟩
      · exact ⟨iff_of_false (h.claim_differs hkey hclean leaseTTL doneTTL) fun hc ↦ hclean hc.2,
          fun hc ↦ absurd hc.2 hclean⟩
    · refine ⟨iff_of_false ?_ fun hc ↦ hkey hc.1, fun hc ↦ absurd hc.1 hkey⟩
      obtain ⟨res, hres⟩ := s.claim_ok now (memToken s.receipts.length) key leaseTTL doneTTL
      simp [Claimer.call, claimer, RedisClaimer.claimer, hres, RedisClaimer.claim,
        hkey, Except.map, Except.toOption]
  | settle how ref =>
    have hmemCall : (claimer fun n ↦ some (memToken n)).settle how s now ref =
        s.settle how now ref := by cases how with | commit => rfl | release => rfl
    have hredisCall : (RedisClaimer.claimer fun n ↦ some (redisToken n)).settle how t now ref =
        t.settle how now ref := by cases how with | commit => rfl | release => rfl
    simp only [Claimer.call, hmemCall, hredisCall, toOption_map_none]
    cases ref with
    | nonAcquired => exact ⟨iff_of_true rfl trivial, fun _ ↦ h⟩
    | lease i =>
      obtain ⟨hi, hq⟩ | ⟨r, q, hi, hq⟩ := getElem?_pair_cases h.length i
      · simp only [settle, hi, RedisClaimer.settle, RedisClaimer.onLease, hq]
        exact ⟨iff_of_true trivial fun r q hr ↦ by simp [hi] at hr, fun _ ↦ h⟩
      · have hclean : Clean s t ⟨now, .settle how (.lease i)⟩ ↔ SettleClean s now how r q := by
          simp [Clean, hi, hq]
        rw [hclean]
        exact h.settle_lease hmem hi hq hredis how
  | extend ref ttl =>
    simp only [Claimer.call, claimer, RedisClaimer.claimer, toOption_map_none]
    cases ref with
    | nonAcquired => exact ⟨iff_of_true rfl trivial, fun _ ↦ h⟩
    | lease i =>
      obtain ⟨hi, hq⟩ | ⟨r, q, hi, hq⟩ := getElem?_pair_cases h.length i
      · simp only [InMemClaimer.extend, hi, RedisClaimer.extend, RedisClaimer.onLease, hq]
        exact ⟨iff_of_true trivial fun r hr ↦ by simp [hi] at hr, fun _ ↦ h⟩
      · have hclean : Clean s t ⟨now, .extend (.lease i) ttl⟩ ↔
            ∀ e ∈ s.held r, e.state ≠ .done ∧ Live now e.expiresAt := by
          simp [Clean, hi]
        rw [hclean]
        exact h.extend_lease hmem hi hq hredis hms

end

def memStart : InMemClaimer := {}

def redisStart (ns : KeyNamespace) : RedisClaimer := { ns := ns }

def memReplies (memToken : ℕ → String) (calls : List Call) : List (Option (Option ClaimState)) :=
  (answers (InMemClaimer.claimer fun n ↦ some (memToken n)).call memStart calls).map
    Except.toOption

def redisReplies (redisToken : ℕ → String) (ns : KeyNamespace) (calls : List Call) :
    List (Option (Option ClaimState)) :=
  (answers (RedisClaimer.claimer fun n ↦ some (redisToken n)).call (redisStart ns) calls).map
    Except.toOption

def unaryToken (n : ℕ) : String := String.ofList (List.replicate n 'a')

theorem unaryToken_injective : Function.Injective unaryToken := by
  intro m n h
  have hlength := congrArg (fun s : String ↦ s.toList.length) h
  simpa [unaryToken] using hlength

def ms (n : ℤ) : ℤ := n * 1000000

def claimAt (t : ℤ) (key : String) : Call := ⟨ms t, .claim key (ms 5) (ms 50)⟩

def settleAt (t : ℤ) (how : Settlement) (i : ℕ) : Call := ⟨ms t, .settle how (.lease i)⟩

def extendAt (t : ℤ) (i : ℕ) : Call := ⟨ms t, .extend (.lease i) (ms 5)⟩

/-- A lease that is taken over after its expiry, with a late commit, and a second lease that is
extended, committed and committed again. -/
def takeover : List Call :=
  [claimAt 0 "k", claimAt 2 "k", claimAt 6 "k", settleAt 7 .commit 0, extendAt 8 1,
    settleAt 12 .commit 1, settleAt 13 .commit 1, claimAt 20 "k"]

end GoCell.Idempotency
