import GoCell.Foundation.ExpiringKeys
import GoCell.Idempotency.Claimer
import GoCell.Kernel.RedisKeys

namespace GoCell.Idempotency

open Foundation Kernel List KeyStore

/-- `committed` and `released` are the results that `Commit` and `Release` have cached. -/
structure RedisReceipt where
  leaseKey : String
  doneKey : String
  token : String
  doneTTL : Duration
  committed : Option (Except Err Unit) := none
  released : Option (Except Err Unit) := none

def ordersNamespace : KeyNamespace := ⟨"orders", by decide, by decide⟩

/-- The Redis-backed claimer with the keys of its server; `receipts` are the receipts handed out so
far, by their number. -/
structure RedisClaimer where
  ns : KeyNamespace
  rdb : KeyStore String String := KeyStore.empty
  receipts : List RedisReceipt := []

def errInvalidKey : Err :=
  ⟨.internal, .adapterRedisSet,
    "redis: idempotency key must be non-empty and free of curly-brace characters", []⟩

def errTokenGeneration : Err :=
  ⟨.internal, .adapterRedisSet, "redis: idempotency claim token generation failed", []⟩

def errCommitStale : Err :=
  ⟨.internal, .adapterRedisSet, "redis: idempotency commit token mismatch (stale lease)", []⟩

def errReleaseStale : Err :=
  ⟨.internal, .adapterRedisDelete, "redis: idempotency release token mismatch (stale lease)", []⟩

def errStale : Settlement → Err
  | .commit => errCommitStale
  | .release => errReleaseStale

def validKey (key : String) : Bool := key ≠ "" && braceFree key

variable (rdb : KeyStore String String) (now : Time)

def claimScript (doneKey leaseKey token : String)
    (leaseMs : ℤ) : KeyStore String String × ClaimState :=
  if (rdb.get now doneKey).isSome then (rdb, .done)
  else if (rdb.get now leaseKey).isSome then (rdb, .busy)
  else (rdb.set now leaseKey token (pxDuration leaseMs), .acquired)

def commitScript (leaseKey doneKey token : String) (doneMs : ℤ) : KeyStore String String × Bool :=
  if rdb.get now leaseKey = some token then
    ((rdb.del leaseKey).set now doneKey "1" (pxDuration doneMs), true)
  else (rdb, false)

def releaseScript (leaseKey token : String) : KeyStore String String × Bool :=
  if rdb.get now leaseKey = some token then (rdb.del leaseKey, true) else (rdb, false)

def extendScript (leaseKey token : String) (ttlMs : ℤ) : KeyStore String String × Bool :=
  if rdb.get now leaseKey = some token then
    (rdb.expire now leaseKey (pxDuration ttlMs), true)
  else (rdb, false)

def orDefault (ttl default : Duration) : Duration := if ttl ≤ 0 then default else ttl

def settleResult (ok : Bool) (stale : Err) : Except Err Unit := if ok then .ok () else .error stale

def leaseKey (ns : KeyNamespace) (key : String) : String := applyHashtag ns.name key "lease"

def doneKey (ns : KeyNamespace) (key : String) : String := applyHashtag ns.name key "done"

namespace RedisReceipt

variable (r : RedisReceipt)

def cached : Settlement → Option (Except Err Unit)
  | .commit => r.committed
  | .release => r.released

def cache (how : Settlement) (res : Except Err Unit) : RedisReceipt :=
  match how with
  | .commit => { r with committed := some res }
  | .release => { r with released := some res }

def settleScript (how : Settlement) (rdb : KeyStore String String) (now : Time) :
    KeyStore String String × Bool :=
  match how with
  | .commit => commitScript rdb now r.leaseKey r.doneKey r.token (clampMs r.doneTTL)
  | .release => releaseScript rdb now r.leaseKey r.token

end RedisReceipt

namespace RedisClaimer

variable (c : RedisClaimer)

/-- `Claim`; `rand` is what `claimToken` draws. -/
def claim (now : Time) (rand : Option String) (key : String)
    (leaseTTL doneTTL : Duration) : RedisClaimer × Except Err (ClaimState × ReceiptRef) :=
  if validKey key then
    match rand with
    | none => (c, .error errTokenGeneration)
    | some token =>
      match claimScript c.rdb now (doneKey c.ns key) (leaseKey c.ns key) token
          (clampMs (orDefault leaseTTL defaultLeaseTTL)) with
      | (rdb, .acquired) =>
        ({ c with
          rdb := rdb
          receipts := c.receipts ++ [{
            leaseKey := leaseKey c.ns key
            doneKey := doneKey c.ns key
            token := token
            doneTTL := orDefault doneTTL defaultTTL }] }, .ok (.acquired, .lease c.receipts.length))
      | (rdb, state) => ({ c with rdb := rdb }, .ok (state, .nonAcquired))
  else (c, .error errInvalidKey)

def setReceipt (i : ℕ) (r : RedisReceipt) : RedisClaimer :=
  { c with receipts := c.receipts.set i r }

def onLease (ref : ReceiptRef)
    (f : ℕ → RedisReceipt → RedisClaimer × Except Err Unit) : RedisClaimer × Except Err Unit :=
  match ref with
  | .nonAcquired => (c, .error errNoClaimLease)
  | .lease i =>
    match c.receipts[i]? with
    | none => (c, .error errNoClaimLease)
    | some r => f i r

/-- `Commit` and `Release`: each runs its script once and caches the answer. -/
def settle (how : Settlement) (now : Time) (ref : ReceiptRef) : RedisClaimer × Except Err Unit :=
  c.onLease ref fun i r ↦
    match r.cached how with
    | some res => (c, res)
    | none =>
      let (rdb, ok) := r.settleScript how c.rdb now
      let res := settleResult ok (errStale how)
      ({ c with rdb := rdb }.setReceipt i (r.cache how res), res)

def commit (now : Time) (ref : ReceiptRef) : RedisClaimer × Except Err Unit :=
  c.settle .commit now ref

def release (now : Time) (ref : ReceiptRef) : RedisClaimer × Except Err Unit :=
  c.settle .release now ref

def extend (now : Time) (ref : ReceiptRef) (ttl : Duration) : RedisClaimer × Except Err Unit :=
  c.onLease ref fun _ r ↦
    let (rdb, ok) := extendScript c.rdb now r.leaseKey r.token (clampMs ttl)
    ({ c with rdb := rdb }, settleResult ok errLeaseExpired)

/-- The claimer that draws its tokens from `rand`, one for each lease. -/
def claimer (rand : ℕ → Option String) : Claimer RedisClaimer ReceiptRef where
  claim c now key leaseTTL doneTTL := c.claim now (rand c.receipts.length) key leaseTTL doneTTL
  commit := commit
  release := release
  extend := extend

section

variable {c} {now : Time} {i : ℕ} {r : RedisReceipt}

theorem ns_claim (c : RedisClaimer) (now : Time) (rand : Option String) (key : String)
    (leaseTTL doneTTL : Duration) : (c.claim now rand key leaseTTL doneTTL).1.ns = c.ns := by
  unfold claim
  repeat' split
  all_goals rfl

theorem receipt_of_acquired {token key : String} {leaseTTL doneTTL : Duration}
    (h : (c.claim now (some token) key leaseTTL doneTTL).2 = .ok (.acquired, .lease i)) :
    validKey key = true ∧ (c.claim now (some token) key leaseTTL doneTTL).1.receipts[i]? = some {
      leaseKey := leaseKey c.ns key
      doneKey := doneKey c.ns key
      token := token
      doneTTL := orDefault doneTTL defaultTTL } := by
  simp only [claim] at h ⊢
  split at h
  · next hkey =>
    rw [if_pos hkey]
    refine ⟨hkey, ?_⟩
    split at h
    · next heq =>
      obtain rfl : c.receipts.length = i := by simpa using h
      simp
    · cases h
  · cases h

theorem done_of_committed (hr : c.receipts[i]? = some r) (hfresh : r.committed = none)
    {c' : RedisClaimer} (h : c.commit now (.lease i) = (c', .ok ())) :
    c'.ns = c.ns ∧ c'.rdb r.doneKey = some ⟨"1", now + pxDuration (clampMs r.doneTTL)⟩ := by
  have hcached : r.cached .commit = none := hfresh
  simp only [commit, settle, onLease, hr, hcached, RedisReceipt.settleScript, commitScript] at h
  split at h
  · cases h
    exact ⟨rfl, set_self⟩
  · cases h

theorem claim_done_iff {key value : String} {expiresAt : Time} (hkey : validKey key = true)
    (h : c.rdb (doneKey c.ns key) = some ⟨value, expiresAt⟩) (token : String)
    (leaseTTL doneTTL : Duration) :
    (∃ ref, (c.claim now (some token) key leaseTTL doneTTL).2 = .ok (.done, ref)) ↔
      Live now expiresAt := by
  have hget : (c.rdb.get now (doneKey c.ns key)).isSome = decide (Live now expiresAt) := by
    rw [KeyStore.get, h, Option.bind_some]
    split
    next hlive => simp [hlive]
    next hexpired => simp [hexpired]
  simp only [claim, if_pos hkey, claimScript, hget]
  by_cases hlive : Live now expiresAt
  · simp [hlive]
  · simp only [hlive, decide_false, Bool.false_eq_true, if_false, iff_false]
    by_cases hbusy : (c.rdb.get now (leaseKey c.ns key)).isSome = true
    · simp [hbusy]
    · simp [hbusy]

theorem receipt_claim (h : c.receipts[i]? = some r) (rand : Option String) (key : String)
    (leaseTTL doneTTL : Duration) :
    (c.claim now rand key leaseTTL doneTTL).1.receipts[i]? = some r := by
  unfold claim
  split
  · split
    · exact h
    · split
      · exact List.getElem?_append_left (List.getElem?_eq_some_iff.1 h).1 ▸ h
      · exact h
  · exact h

theorem receipt_settle (h : c.receipts[i]? = some r) (how : Settlement) {ref : ReceiptRef}
    (hother : ref ≠ .lease i) :
    (c.settle how now ref).1.ns = c.ns ∧ (c.settle how now ref).1.receipts[i]? = some r := by
  cases ref with
  | nonAcquired => exact ⟨rfl, h⟩
  | lease j =>
    have hne : j ≠ i := fun heq ↦ hother (heq ▸ rfl)
    unfold settle onLease
    simp only
    split
    · exact ⟨rfl, h⟩
    · split
      · exact ⟨rfl, h⟩
      · exact ⟨rfl, (getElem?_set_ne hne).trans h⟩

theorem claim_congr {c' : RedisClaimer} {key : String} (hns : c'.ns = c.ns)
    (hdone : c'.rdb (doneKey c.ns key) = c.rdb (doneKey c.ns key))
    (hlease : c'.rdb (leaseKey c.ns key) = c.rdb (leaseKey c.ns key))
    (hlength : c'.receipts.length = c.receipts.length) (rand : Option String)
    (leaseTTL doneTTL : Duration) :
    (c'.claim now rand key leaseTTL doneTTL).2 = (c.claim now rand key leaseTTL doneTTL).2 := by
  have hgetDone : c'.rdb.get now (doneKey c.ns key) = c.rdb.get now (doneKey c.ns key) := by
    rw [KeyStore.get, hdone, KeyStore.get]
  have hgetLease : c'.rdb.get now (leaseKey c.ns key) = c.rdb.get now (leaseKey c.ns key) := by
    rw [KeyStore.get, hlease, KeyStore.get]
  simp only [claim, claimScript, hns, hgetDone, hgetLease, hlength]
  split
  · cases rand with
    | none => rfl
    | some token =>
      by_cases hdoneLive : (c.rdb.get now (doneKey c.ns key)).isSome = true
      · simp [hdoneLive]
      · by_cases hleaseLive : (c.rdb.get now (leaseKey c.ns key)).isSome = true
        · simp [hdoneLive, hleaseLive]
        · simp [hdoneLive, hleaseLive]
  · rfl

theorem commit_frame (h : c.receipts[i]? = some r) (now : Time) {name : String}
    (hlease : name ≠ r.leaseKey) (hdone : name ≠ r.doneKey) :
      (c.commit now (.lease i)).1.ns = c.ns ∧ (c.commit now (.lease i)).1.rdb name = c.rdb name ∧
      (c.commit now (.lease i)).1.receipts.length = c.receipts.length := by
  simp only [commit, settle, onLease, h]
  split
  · exact ⟨rfl, rfl, rfl⟩
  · refine ⟨rfl, ?_, length_set⟩
    simp only [setReceipt, RedisReceipt.settleScript, commitScript]
    split
    · exact (set_of_ne hdone).trans (del_of_ne hlease)
    · rfl

theorem receipt_call {rand : ℕ → Option String} {x : Call} (h : c.receipts[i]? = some r)
    (hx : x.op.touches i = false) :
    ((claimer rand).call c x).1.ns = c.ns ∧ ((claimer rand).call c x).1.receipts[i]? = some r := by
  obtain ⟨now, op⟩ := x
  cases op with
  | claim => exact ⟨ns_claim c _ _ _ _ _, receipt_claim h _ _ _ _⟩
  | settle how ref =>
    have hother : ref ≠ .lease i := by simpa [Op.touches] using hx
    cases how with
    | commit => exact receipt_settle h .commit hother
    | release => exact receipt_settle h .release hother
  | extend =>
    simp only [Claimer.call, claimer, extend, onLease]
    repeat' split
    all_goals exact ⟨rfl, h⟩

end

end RedisClaimer

end GoCell.Idempotency
