import GoCell.Foundation.ExpiringKeys
import GoCell.Foundation.Runs
import GoCell.Kernel.RedisKeys
import GoCell.Reconcile.Leases

namespace GoCell.Reconcile

open Foundation Kernel List Option Function KeyStore

section Scripts

/-- A string that is a number is what `INCR` counts on. -/
inductive RedisValue
  | text (s : String)
  | integer (n : ℕ)
  deriving DecidableEq

/-- The numbers of the server's Lua are doubles: whole up to `2 ^ 53`. -/
structure LuaNumbers where
  ofInteger : ℕ → ℕ
  exact : ∀ n ≤ 2 ^ 53, ofInteger n = n

def reconcileEpochKeyTTL : Duration := 30 * 24 * 3600 * 1000000000

def errEpochKeyTTL : Err :=
  ⟨.internal, .cellInvalidConfig, "redis reconcile elector: epoch key TTL must be at least 1s", []⟩

def reconcileEpochKeyTTLSecondsFor (ttl : Duration) : Except Err ℤ :=
  if ttl < 1000000000 then .error errEpochKeyTTL else .ok (ttl / 1000000000)

def reconcileEpochKeyTTLSeconds : Except Err ℤ :=
  reconcileEpochKeyTTLSecondsFor reconcileEpochKeyTTL

/-- `INCR`; it fails on a string that is no number and where the counter leaves its range. -/
def incr : Option RedisValue → Option ℕ
  | none => some 1
  | some (.integer n) => if n < 2 ^ 63 - 1 then some (n + 1) else none
  | some (.text _) => none

def exDuration (s : ℤ) : Duration := s * 1000000000

variable (lua : LuaNumbers) (rdb : KeyStore String RedisValue) (now : Time)
  (holderKey epochKey holderID : String) (leaseMs epochTTLs : ℤ)

/-- `reconcileAcquireScript`: whether the lease is acquired, and its epoch. -/
def reconcileAcquireScript : KeyStore String RedisValue × Except String (Bool × ℕ) :=
  match rdb.get now holderKey with
  | none =>
    let rdb := rdb.set now holderKey (.text holderID) (pxDuration leaseMs)
    match incr (rdb.get now epochKey) with
    -- A failed call aborts the script; what it did before stays.
    | none => (rdb, .error "ERR value is not an integer or out of range")
    | some e =>
      (rdb.set now epochKey (.integer e) (exDuration epochTTLs), .ok (true, lua.ofInteger e))
  | some cur =>
    if cur = .text holderID then
      match rdb.get now epochKey with
      | none => (rdb, .error "reconcile epoch key missing on same-holder re-acquire")
      | some (.text _) =>
        ((rdb.expire now holderKey (pxDuration leaseMs)).expire now epochKey
          (exDuration epochTTLs), .error "redis reconcile elector: malformed acquire result")
      | some (.integer e) =>
        ((rdb.expire now holderKey (pxDuration leaseMs)).expire now epochKey
          (exDuration epochTTLs), .ok (true, lua.ofInteger e))
    else (rdb, .ok (false, 0))

def reconcileRenewScript : KeyStore String RedisValue × Except String Bool :=
  if rdb.get now holderKey = some (.text holderID) then
    if (rdb.get now epochKey).isNone then (rdb, .error "reconcile epoch key missing on renew")
    else
      ((rdb.expire now holderKey (pxDuration leaseMs)).expire now epochKey (exDuration epochTTLs),
        .ok true)
  else (rdb, .ok false)

def releaseLockScript : KeyStore String RedisValue :=
  if rdb.get now holderKey = some (.text holderID) then rdb.del holderKey else rdb

end Scripts

section Methods

variable (ns : KeyNamespace) (lua : LuaNumbers) (e : Elector) (rdb : KeyStore String RedisValue)
  (now : Time)

def holderKey (reconcilerID : String) : String := applyHashtag ns.name reconcilerID "lease"

def epochKey (reconcilerID : String) : String := applyHashtag ns.name reconcilerID "epoch"

def errRedisAcquire : Err := ⟨.internal, .adapterRedisSet, "redis reconcile elector acquire", []⟩

def errRedisRenew : Err := ⟨.internal, .adapterRedisSet, "redis reconcile elector renew", []⟩

/-- `AcquireLease` at the server's time `now`; the elector stamps the lease with its own clock. -/
def Elector.redisAcquireLease (clk : Time) (reconcilerID : String) :
    KeyStore String RedisValue × Except Err LeaseToken :=
  match reconcileEpochKeyTTLSeconds with
  | .error err => (rdb, .error err)
  | .ok epochTTLs =>
    match reconcileAcquireScript lua rdb now (holderKey ns reconcilerID) (epochKey ns reconcilerID)
      e.holderID e.lease.ms epochTTLs with
    | (rdb, .error _) => (rdb, .error errRedisAcquire)
    | (rdb, .ok (false, _)) => (rdb, .error errLeaseHeld)
    | (rdb, .ok (true, epoch)) =>
      (rdb, .ok ⟨reconcilerID, e.holderID, epoch, clk, clk + e.lease.duration⟩)

def Elector.redisRenewLease (token : LeaseToken) : KeyStore String RedisValue × Except Err Unit :=
  match reconcileEpochKeyTTLSeconds with
  | .error err => (rdb, .error err)
  | .ok epochTTLs =>
    match reconcileRenewScript rdb now (holderKey ns token.reconcilerID)
      (epochKey ns token.reconcilerID) e.holderID e.lease.ms epochTTLs with
    | (rdb, .error _) => (rdb, .error errRedisRenew)
    | (rdb, .ok false) => (rdb, .error errReconcileLeaseLost)
    | (rdb, .ok true) => (rdb, .ok ())

def Elector.redisReleaseLease (token : LeaseToken) : KeyStore String RedisValue :=
  releaseLockScript rdb now (holderKey ns token.reconcilerID) e.holderID

end Methods

section Keys

variable (ns : KeyNamespace)

theorem holderKey_inj {loop loop' : String} (h : holderKey ns loop = holderKey ns loop') :
    loop = loop' :=
  (applyHashtag_inj_of_length rfl h).1

theorem epochKey_inj {loop loop' : String} (h : epochKey ns loop = epochKey ns loop') :
    loop = loop' :=
  (applyHashtag_inj_of_length rfl h).1

theorem holderKey_ne_epochKey (loop loop' : String) : holderKey ns loop ≠ epochKey ns loop' :=
  fun h ↦ absurd (applyHashtag_inj_of_length (by decide) h).2 (by decide)

end Keys

section System

/-- The server, and what an observer records: the leases handed out, and when a loop's epoch was
last handed out or kept. -/
structure RedisCluster where
  clock : Time
  rdb : KeyStore String RedisValue := KeyStore.empty
  grants : List LeaseToken := []
  refreshed : String → Option Time := fun _ ↦ none

inductive RedisCall
  | tick (d : ℕ)
  | acquire (e : Elector) (clk : Time) (reconcilerID : String)
  | renew (e : Elector) (token : LeaseToken)
  | release (e : Elector) (token : LeaseToken)

variable (ns : KeyNamespace) (lua : LuaNumbers)

def RedisCluster.step (s : RedisCluster) : RedisCall → Option RedisCluster
  | .tick d => some { s with clock := s.clock + d }
  | .acquire e clk reconcilerID =>
    match e.redisAcquireLease ns lua s.rdb s.clock clk reconcilerID with
    | (rdb, .ok token) =>
      some
        { s with
          rdb := rdb
          grants := s.grants ++ [token]
          refreshed := Function.update s.refreshed reconcilerID (some s.clock) }
    | (rdb, .error _) => some { s with rdb := rdb }
  | .renew e token =>
    match e.redisRenewLease ns s.rdb s.clock token with
    | (rdb, .ok ()) =>
      some
        { s with
          rdb := rdb
          refreshed := Function.update s.refreshed token.reconcilerID (some s.clock) }
    | (rdb, .error _) => some { s with rdb := rdb }
  | .release e token => some { s with rdb := e.redisReleaseLease ns s.rdb s.clock token }

def extended (rdb : KeyStore String RedisValue) (now : Time) (e : Elector) (loop : String)
    (v : RedisValue) : KeyStore String RedisValue :=
  (rdb.set now (holderKey ns loop) (.text e.holderID) (pxDuration e.lease.ms)).set now
    (epochKey ns loop) v reconcileEpochKeyTTL

inductive RedisCalled (s : RedisCluster) : RedisCall → RedisCluster → Prop
  | tick (d : ℕ) : RedisCalled s (.tick d) { s with clock := s.clock + d }
  | fresh (e : Elector) (clk : Time) (loop : String) (n : ℕ)
    (hincr : incr (s.rdb.get s.clock (epochKey ns loop)) = some n) :
    RedisCalled s (.acquire e clk loop)
      { s with
        rdb := extended ns s.rdb s.clock e loop (.integer n)
        grants := s.grants ++ [⟨loop, e.holderID, lua.ofInteger n, clk, clk + e.lease.duration⟩]
        refreshed := Function.update s.refreshed loop (some s.clock) }
  | stuck (e : Elector) (clk : Time) (loop : String)
    (hincr : incr (s.rdb.get s.clock (epochKey ns loop)) = none) :
    RedisCalled s (.acquire e clk loop)
      { s with
        rdb := s.rdb.set s.clock (holderKey ns loop) (.text e.holderID) (pxDuration e.lease.ms) }
  | again (e : Elector) (clk : Time) (loop : String) (n : ℕ)
    (hholder : s.rdb.get s.clock (holderKey ns loop) = some (.text e.holderID))
    (hepoch : s.rdb.get s.clock (epochKey ns loop) = some (.integer n)) :
    RedisCalled s (.acquire e clk loop)
      { s with
        rdb := extended ns s.rdb s.clock e loop (.integer n)
        grants := s.grants ++ [⟨loop, e.holderID, lua.ofInteger n, clk, clk + e.lease.duration⟩]
        refreshed := Function.update s.refreshed loop (some s.clock) }
  | malformed (e : Elector) (clk : Time) (loop text : String)
    (hepoch : s.rdb.get s.clock (epochKey ns loop) = some (.text text)) :
    RedisCalled s (.acquire e clk loop)
      { s with rdb := extended ns s.rdb s.clock e loop (.text text) }
  | renewed (e : Elector) (token : LeaseToken) (v : RedisValue)
    (hholder : s.rdb.get s.clock (holderKey ns token.reconcilerID) = some (.text e.holderID))
    (hepoch : s.rdb.get s.clock (epochKey ns token.reconcilerID) = some v) :
    RedisCalled s (.renew e token)
      { s with
        rdb := extended ns s.rdb s.clock e token.reconcilerID v
        refreshed := Function.update s.refreshed token.reconcilerID (some s.clock) }
  | released (e : Elector) (token : LeaseToken) :
    RedisCalled s (.release e token)
      { s with rdb := s.rdb.del (holderKey ns token.reconcilerID) }
  | failed (c : RedisCall) : RedisCalled s c s

variable {ns lua} {rdb : KeyStore String RedisValue} {now : Time} {e : Elector} {loop : String}

theorem get_epochKey_set (v : RedisValue) (ttl : ℤ) :
    (rdb.set now (holderKey ns loop) v ttl).get now (epochKey ns loop) =
      rdb.get now (epochKey ns loop) := by
  rw [KeyStore.get, KeyStore.get, KeyStore.set_of_ne (holderKey_ne_epochKey ns loop loop).symm]

theorem expire_expire {v : RedisValue}
    (hholder : rdb.get now (holderKey ns loop) = some (.text e.holderID))
    (hepoch : rdb.get now (epochKey ns loop) = some v) :
    (rdb.expire now (holderKey ns loop) (pxDuration e.lease.ms)).expire now (epochKey ns loop)
      (exDuration 2592000) = extended ns rdb now e loop v := by
  rw [expire_of_live hholder, expire_of_live ((get_epochKey_set _ _).trans hepoch)]
  rfl

theorem reconcileEpochKeyTTLSeconds_eq : reconcileEpochKeyTTLSeconds = .ok 2592000 := rfl

variable {s t : RedisCluster}

theorem RedisCluster.acquire_cases {clk : Time} (h : s.step ns lua (.acquire e clk loop) = some t) :
    RedisCalled ns lua s (.acquire e clk loop) t := by
  simp only [step, Elector.redisAcquireLease, reconcileEpochKeyTTLSeconds_eq] at h
  unfold reconcileAcquireScript at h
  cases hholder : s.rdb.get s.clock (holderKey ns loop) with
  | none =>
    simp only [hholder, get_epochKey_set] at h
    cases hincr : incr (s.rdb.get s.clock (epochKey ns loop)) with
    | none =>
      simp only [hincr, some.injEq] at h
      subst h
      exact .stuck e clk loop hincr
    | some n =>
      simp only [hincr, some.injEq] at h
      subst h
      exact .fresh e clk loop n hincr
  | some cur =>
    simp only [hholder] at h
    by_cases hcur : cur = .text e.holderID
    · subst hcur
      simp only [if_true] at h
      cases hepoch : s.rdb.get s.clock (epochKey ns loop) with
      | none =>
        simp only [hepoch, some.injEq] at h
        subst h
        exact .failed _
      | some v =>
        cases v with
        | text text =>
          simp only [hepoch, expire_expire hholder hepoch, some.injEq] at h
          subst h
          exact .malformed e clk loop text hepoch
        | integer n =>
          simp only [hepoch, expire_expire hholder hepoch, some.injEq] at h
          subst h
          exact .again e clk loop n hholder hepoch
    · simp only [if_neg hcur, some.injEq] at h
      subst h
      exact .failed _

theorem RedisCluster.renew_cases {token : LeaseToken}
    (h : s.step ns lua (.renew e token) = some t) : RedisCalled ns lua s (.renew e token) t := by
  simp only [step, Elector.redisRenewLease, reconcileEpochKeyTTLSeconds_eq] at h
  unfold reconcileRenewScript at h
  by_cases hholder : s.rdb.get s.clock (holderKey ns token.reconcilerID) = some (.text e.holderID)
  · cases hepoch : s.rdb.get s.clock (epochKey ns token.reconcilerID) with
    | none =>
      simp only [if_pos hholder, hepoch, isNone_none, if_true, some.injEq] at h
      subst h
      exact .failed _
    | some v =>
      simp only [if_pos hholder, hepoch, isNone_some, Bool.false_eq_true, if_false,
        expire_expire hholder hepoch, some.injEq] at h
      subst h
      exact .renewed e token v hholder hepoch
  · simp only [if_neg hholder, some.injEq] at h
    subst h
    exact .failed _

theorem RedisCluster.step_cases {c : RedisCall}
    (h : s.step ns lua c = some t) : RedisCalled ns lua s c t := by
  cases c with
  | tick d =>
    cases h
    exact .tick d
  | acquire => exact acquire_cases h
  | renew => exact renew_cases h
  | release e token =>
    cases h
    unfold Elector.redisReleaseLease releaseLockScript
    split
    · exact .released e token
    · exact .failed _

end System

section Epochs

variable {ns : KeyNamespace} {lua : LuaNumbers} {s t : RedisCluster} {c : RedisCall}

def RedisCluster.leasesOf (s : RedisCluster) (loop : String) : List LeaseToken :=
  s.grants.filter fun g ↦ g.reconcilerID = loop

structure Counted (ns : KeyNamespace) (s : RedisCluster) (loop : String) : Prop where
  never : s.refreshed loop = none → s.rdb (epochKey ns loop) = none ∧ s.leasesOf loop = []
  epoch : ∀ last, s.refreshed loop = some last → ∃ n,
    s.rdb (epochKey ns loop) = some ⟨.integer n, last + reconcileEpochKeyTTL⟩ ∧
      n ≤ (s.leasesOf loop).length ∧ ∀ g ∈ s.leasesOf loop, g.epoch ≤ n
  holder : ∀ cell, s.rdb (holderKey ns loop) = some cell → ∃ last,
    (s.leasesOf loop).getLast? = some last ∧ cell.value = .text last.holderID

def RedisCall.loop : RedisCall → Option String
  | .tick _ => none
  | .acquire _ _ loop => some loop
  | .renew _ token | .release _ token => some token.reconcilerID

/-- An acquire of the loop comes no later than the lifetime of the epoch key after the loop's epoch
was handed out or kept. -/
def Remembered (loop : String) (s : RedisCluster) : RedisCall → Prop
  | .acquire _ _ loop' => loop' = loop →
    ∀ last ∈ s.refreshed loop, s.clock ≤ last + reconcileEpochKeyTTL
  | .tick _ | .renew _ _ | .release _ _ => True

instance Remembered.decidable (loop : String) (s : RedisCluster) :
    ∀ c, Decidable (Remembered loop s c)
  | .acquire _ _ loop' => inferInstanceAs (Decidable (loop' = loop →
      ∀ last ∈ s.refreshed loop, s.clock ≤ last + reconcileEpochKeyTTL))
  | .tick _ | .renew _ _ | .release _ _ => isTrue trivial

variable {loop loop' : String} {e : Elector}

theorem extended_epochKey (rdb : KeyStore String RedisValue) (now : Time) (v : RedisValue) :
    extended ns rdb now e loop v (epochKey ns loop) = some ⟨v, now + reconcileEpochKeyTTL⟩ :=
  set_self

theorem extended_holderKey (rdb : KeyStore String RedisValue) (now : Time) (v : RedisValue) :
    extended ns rdb now e loop v (holderKey ns loop) =
      some ⟨.text e.holderID, now + pxDuration e.lease.ms⟩ :=
  (set_of_ne (holderKey_ne_epochKey ns loop loop)).trans set_self

theorem extended_of_ne (ns : KeyNamespace) (rdb : KeyStore String RedisValue) (now : Time)
    (e : Elector) (v : RedisValue) (h : loop' ≠ loop) :
    extended ns rdb now e loop v (epochKey ns loop') = rdb (epochKey ns loop') ∧
      extended ns rdb now e loop v (holderKey ns loop') = rdb (holderKey ns loop') := by
  refine ⟨(set_of_ne fun heq ↦ h (epochKey_inj ns heq)).trans
    (set_of_ne (holderKey_ne_epochKey ns loop loop').symm), ?_⟩
  exact (set_of_ne (holderKey_ne_epochKey ns loop' loop)).trans
    (set_of_ne fun heq ↦ h (holderKey_inj ns heq))

theorem leasesOf_append {g : LeaseToken} (hgrants : t.grants = s.grants ++ [g]) (loop : String) :
    t.leasesOf loop = s.leasesOf loop ++ if g.reconcilerID = loop then [g] else [] := by
  rw [RedisCluster.leasesOf, hgrants, filter_append, RedisCluster.leasesOf]
  congr 1
  by_cases heq : g.reconcilerID = loop
  · simp [heq]
  · simp [heq]

/-- A call for another loop leaves the keys and the leases of the loop as they are. -/
theorem RedisCalled.frame (h : RedisCalled ns lua s c t) (hother : c.loop ≠ some loop) :
    t.rdb (epochKey ns loop) = s.rdb (epochKey ns loop) ∧
      t.rdb (holderKey ns loop) = s.rdb (holderKey ns loop) ∧
      t.refreshed loop = s.refreshed loop ∧ t.leasesOf loop = s.leasesOf loop := by
  cases h with
  | tick | failed => exact ⟨rfl, rfl, rfl, rfl⟩
  | fresh e _ loop' n | again e _ loop' n =>
    have hne : loop ≠ loop' := fun heq ↦ hother (congrArg some heq.symm)
    obtain ⟨hepoch, hholder⟩ := extended_of_ne ns s.rdb s.clock e (.integer n) hne
    refine ⟨hepoch, hholder, update_of_ne hne .., (leasesOf_append rfl loop).trans ?_⟩
    rw [if_neg hne.symm, append_nil]
  | stuck _ _ loop' =>
    refine ⟨set_of_ne (holderKey_ne_epochKey ns loop' loop).symm, set_of_ne fun heq ↦ ?_, rfl, rfl⟩
    exact hother (congrArg some (holderKey_inj ns heq).symm)
  | malformed e _ loop' text =>
    have hne : loop ≠ loop' := fun heq ↦ hother (congrArg some heq.symm)
    obtain ⟨hepoch, hholder⟩ := extended_of_ne ns s.rdb s.clock e (.text text) hne
    exact ⟨hepoch, hholder, rfl, rfl⟩
  | renewed e token v =>
    have hne : loop ≠ token.reconcilerID := fun heq ↦ hother (congrArg some heq.symm)
    obtain ⟨hepoch, hholder⟩ := extended_of_ne ns s.rdb s.clock e v hne
    exact ⟨hepoch, hholder, update_of_ne hne .., rfl⟩
  | released _ token =>
    refine ⟨del_of_ne (holderKey_ne_epochKey ns _ loop).symm, del_of_ne fun heq ↦ ?_, rfl, rfl⟩
    exact hother (congrArg some (holderKey_inj ns heq).symm)

theorem Counted.frame (h : Counted ns s loop) (hcall : RedisCalled ns lua s c t)
    (hother : c.loop ≠ some loop) : Counted ns t loop := by
  obtain ⟨hepoch, hholder, hrefreshed, hleases⟩ := hcall.frame hother
  refine ⟨?_, ?_, ?_⟩
  · rw [hrefreshed, hepoch, hleases]
    exact h.never
  · rw [hrefreshed, hepoch, hleases]
    exact h.epoch
  · rw [hholder, hleases]
    exact h.holder

theorem Counted.of_extended {n : ℕ} {last : LeaseToken}
    (hrdb : t.rdb = extended ns s.rdb s.clock e loop (.integer n))
    (hrefreshed : t.refreshed loop = some s.clock) (hn : n ≤ (t.leasesOf loop).length)
    (hmax : ∀ g ∈ t.leasesOf loop, g.epoch ≤ n) (hlast : (t.leasesOf loop).getLast? = some last)
    (hholder : last.holderID = e.holderID) : Counted ns t loop := by
  refine ⟨fun hnone ↦ ?_, fun time htime ↦ ?_, fun cell hcell ↦ ?_⟩
  · cases hrefreshed.symm.trans hnone
  · cases hrefreshed.symm.trans htime
    refine ⟨n, ?_, hn, hmax⟩
    rw [hrdb]
    exact extended_epochKey s.rdb s.clock _
  · rw [hrdb, extended_holderKey] at hcell
    cases hcell
    exact ⟨last, hlast, congrArg RedisValue.text hholder.symm⟩

theorem Counted.get_epoch (h : Counted ns s loop) {v : RedisValue}
    (hget : s.rdb.get s.clock (epochKey ns loop) = some v) :
    ∃ n, v = .integer n ∧ n ≤ (s.leasesOf loop).length ∧ ∀ g ∈ s.leasesOf loop, g.epoch ≤ n := by
  obtain ⟨exp, hcell, -⟩ := get_eq_some_iff.1 hget
  cases hrefreshed : s.refreshed loop with
  | none => cases (h.never hrefreshed).1.symm.trans hcell
  | some last =>
    obtain ⟨n, hn, hle, hmax⟩ := h.epoch last hrefreshed
    obtain ⟨rfl, -⟩ := Expiring.mk.inj (some.inj (hn.symm.trans hcell))
    exact ⟨n, rfl, hle, hmax⟩

theorem Counted.incr_eq (h : Counted ns s loop) (hfew : (s.leasesOf loop).length < 2 ^ 53)
    (hgap : ∀ last ∈ s.refreshed loop, s.clock ≤ last + reconcileEpochKeyTTL) :
    ∃ n, incr (s.rdb.get s.clock (epochKey ns loop)) = some n ∧ n ≤ (s.leasesOf loop).length + 1 ∧
      ∀ g ∈ s.leasesOf loop, g.epoch < n := by
  cases hrefreshed : s.refreshed loop with
  | none =>
    obtain ⟨hcell, hnone⟩ := h.never hrefreshed
    have hget : s.rdb.get s.clock (epochKey ns loop) = none :=
      get_eq_none_iff.2 (.of_eq_none hcell)
    refine ⟨1, by rw [hget]; rfl, Nat.le_add_left _ _, fun g hg ↦ ?_⟩
    rw [hnone] at hg
    cases hg
  | some last =>
    obtain ⟨n, hn, hle, hmax⟩ := h.epoch last hrefreshed
    have hget : s.rdb.get s.clock (epochKey ns loop) = some (.integer n) :=
      get_eq_some_iff.2 ⟨_, hn, .of_le (hgap last hrefreshed)⟩
    have hlt : n < 2 ^ 63 - 1 := by omega
    refine ⟨n + 1, ?_, Nat.succ_le_succ hle, fun g hg ↦ Nat.lt_succ_of_le (hmax g hg)⟩
    rw [hget, incr, if_pos hlt]

theorem Counted.grant {g : LeaseToken} {n : ℕ}
    (hrdb : t.rdb = extended ns s.rdb s.clock e g.reconcilerID (.integer n))
    (hgrants : t.grants = s.grants ++ [g])
    (hrefreshed : t.refreshed = update s.refreshed g.reconcilerID (some s.clock))
    (hepoch : g.epoch = n) (hholder : g.holderID = e.holderID)
    (hn : n ≤ (s.leasesOf g.reconcilerID).length + 1)
    (hmax : ∀ g' ∈ s.leasesOf g.reconcilerID, g'.epoch ≤ n) : Counted ns t g.reconcilerID := by
  have hleases := leasesOf_append hgrants g.reconcilerID
  rw [if_pos rfl] at hleases
  refine .of_extended hrdb ?_ ?_ (fun g' hg' ↦ ?_) (hleases ▸ getLast?_concat) hholder
  · rw [hrefreshed, update_self]
  · rw [hleases, length_append, length_singleton]
    exact hn
  · rw [hleases] at hg'
    obtain hg' | hg' := mem_append.1 hg'
    · exact hmax g' hg'
    · rw [mem_singleton.1 hg', hepoch]

theorem Counted.step (h : Counted ns s loop) (hfew : (s.leasesOf loop).length < 2 ^ 53)
    (hgap : Remembered loop s c) (hcall : RedisCalled ns lua s c t) : Counted ns t loop := by
  by_cases hown : c.loop = some loop
  swap
  · exact h.frame hcall hown
  cases hcall with
  | tick => cases hown
  | failed => exact h
  | fresh e clk loop' n hincr =>
    obtain rfl := some.inj hown
    obtain ⟨m, hm, hle, hmax⟩ := h.incr_eq hfew (hgap rfl)
    cases hincr.symm.trans hm
    exact Counted.grant (e := e) (g := ⟨loop', e.holderID, lua.ofInteger n, clk,
      clk + e.lease.duration⟩)
      rfl rfl rfl (lua.exact n (by omega)) rfl hle fun g hg ↦ (hmax g hg).le
  | stuck e clk loop' hincr =>
    obtain rfl := some.inj hown
    obtain ⟨m, hm, -⟩ := h.incr_eq hfew (hgap rfl)
    cases hincr.symm.trans hm
  | again e clk loop' n _ hepoch =>
    obtain rfl := some.inj hown
    obtain ⟨m, hm, hle, hmax⟩ := h.get_epoch hepoch
    obtain rfl := RedisValue.integer.inj hm
    exact Counted.grant (e := e) (g := ⟨loop', e.holderID, lua.ofInteger n, clk,
      clk + e.lease.duration⟩)
      rfl rfl rfl (lua.exact n (by omega)) rfl (hle.trans (Nat.le_succ _)) hmax
  | malformed e clk loop' text hepoch =>
    obtain rfl := some.inj hown
    obtain ⟨m, hm, -⟩ := h.get_epoch hepoch
    cases hm
  | renewed e token v hholder hepoch =>
    obtain rfl := some.inj hown
    obtain ⟨n, rfl, hle, hmax⟩ := h.get_epoch hepoch
    obtain ⟨exp, hcell, -⟩ := get_eq_some_iff.1 hholder
    obtain ⟨last, hlast, hvalue⟩ := h.holder _ hcell
    refine .of_extended rfl ?_ hle hmax hlast (RedisValue.text.inj hvalue).symm
    exact update_self ..
  | released e token =>
    obtain rfl := some.inj hown
    have hepoch : s.rdb.del (holderKey ns token.reconcilerID) (epochKey ns token.reconcilerID) =
        s.rdb (epochKey ns token.reconcilerID) := del_of_ne (holderKey_ne_epochKey ns _ _).symm
    refine ⟨fun hnone ↦ ⟨hepoch.trans (h.never hnone).1, (h.never hnone).2⟩, fun last hlast ↦ ?_,
      fun cell hcell ↦ ?_⟩
    · obtain ⟨n, hn, hrest⟩ := h.epoch last hlast
      exact ⟨n, hepoch.trans hn, hrest⟩
    · cases (del_self).symm.trans hcell

theorem RedisCalled.length_leasesOf (h : RedisCalled ns lua s c t) (loop : String) :
    (s.leasesOf loop).length ≤ (t.leasesOf loop).length := by
  cases h with
  | fresh | again => exact ((sublist_append_left _ _).filter _).length_le
  | _ => exact le_rfl

theorem counted_run {now : Time} {cs : List RedisCall}
    (hrun : exec (RedisCluster.step ns lua) { clock := now } cs = some s)
    (hgaps : Along (RedisCluster.step ns lua) { clock := now } cs (Remembered loop))
    (hfew : (s.leasesOf loop).length < 2 ^ 53) : Counted ns s loop := by
  refine exec_invariant_along (fun s ↦ (s.leasesOf loop).length < 2 ^ 53 → Counted ns s loop)
    (fun u c v hu hgap hstep hfew ↦ ?_) cs _ s (fun _ ↦ ?_) hgaps hrun hfew
  · have hcall := RedisCluster.step_cases hstep
    have hless := (hcall.length_leasesOf loop).trans_lt hfew
    exact (hu hless).step hless hgap hcall
  · exact ⟨fun _ ↦ ⟨rfl, rfl⟩, nofun, nofun⟩

/-- A lease that passes to another holder has a larger epoch than every lease of the loop before it,
if the epoch key never ran out between two uses of it. -/
theorem epoch_grows_with_holder {now clk : Time} {cs : List RedisCall} {g last : LeaseToken}
    (hrun : exec (RedisCluster.step ns lua) { clock := now } cs = some s)
    (hgaps : Along (RedisCluster.step ns lua) { clock := now } cs (Remembered loop))
    (hfew : (s.leasesOf loop).length < 2 ^ 53) (hgap : Remembered loop s (.acquire e clk loop))
    (hstep : s.step ns lua (.acquire e clk loop) = some t) (hgrant : t.grants = s.grants ++ [g])
    (hlast : (s.leasesOf loop).getLast? = some last) (hholder : last.holderID ≠ g.holderID) :
    ∀ g' ∈ s.grants, g'.reconcilerID = loop → g'.epoch < g.epoch := by
  have hcounted := counted_run hrun hgaps hfew
  intro g' hg' hloop
  have hmem : g' ∈ s.leasesOf loop := mem_filter.2 ⟨hg', decide_eq_true hloop⟩
  have hsame : s.grants ≠ s.grants ++ [g] := fun heq ↦ by simpa using congrArg length heq
  cases RedisCluster.step_cases hstep with
  | fresh _ _ _ n hincr =>
    obtain rfl := singleton_inj.1 (append_cancel_left hgrant)
    obtain ⟨m, hm, hle, hmax⟩ := hcounted.incr_eq hfew (hgap rfl)
    cases hincr.symm.trans hm
    exact (hmax g' hmem).trans_eq (lua.exact n (by omega)).symm
  | again _ _ _ n hlive _ =>
    obtain rfl := singleton_inj.1 (append_cancel_left hgrant)
    obtain ⟨exp, hcell, -⟩ := get_eq_some_iff.1 hlive
    obtain ⟨last', hlast', hvalue⟩ := hcounted.holder _ hcell
    cases hlast.symm.trans hlast'
    exact absurd (RedisValue.text.inj hvalue).symm hholder
  | stuck | malformed | failed => exact absurd hgrant hsame

def sampleNamespace : KeyNamespace := ⟨"loops", by decide, by decide⟩

def wholeNumbers : LuaNumbers := ⟨fun n ↦ n, fun _ _ ↦ rfl⟩

theorem tenSeconds_usable : (1 : ℤ) ≤ 10000 := by decide

def tenSeconds : LeaseTTL := ⟨10000, tenSeconds_usable⟩

def givenBack (pause : ℕ) : List RedisCall :=
  [.acquire ⟨"a", tenSeconds⟩ 0 "loop", .release ⟨"a", tenSeconds⟩ ⟨"loop", "a", 1, 0, 10000000000⟩,
    .tick pause]

/-- The lease of one loop is given back, while the epoch of another one is forgotten. -/
def besideIdle : List RedisCall :=
  [.acquire ⟨"a", tenSeconds⟩ 0 "idle", .tick 2592000001000000] ++ givenBack 1 ++
    [.acquire ⟨"b", tenSeconds⟩ 0 "idle"]

def takeOver : RedisCall := .acquire ⟨"b", tenSeconds⟩ 0 "loop"

def firstLease : LeaseToken := ⟨"loop", "a", 1, 0, 10000000000⟩

def sampleStep : RedisCluster → RedisCall → Option RedisCluster :=
  RedisCluster.step sampleNamespace wholeNumbers

theorem epoch_grows_with_holder_soon :
    ∃ s t, exec sampleStep { clock := 0 } besideIdle = some s ∧ sampleStep s takeOver = some t ∧
      t.grants = s.grants ++ [⟨"loop", "b", 2, 0, 10000000000⟩] ∧
      ∀ g' ∈ s.grants, g'.reconcilerID = "loop" → g'.epoch < 2 := by
  have hrun : ((exec sampleStep { clock := 0 } besideIdle).bind fun s ↦
      (sampleStep s takeOver).map fun t ↦
        decide (t.grants = s.grants ++ [⟨"loop", "b", 2, 0, 10000000000⟩] ∧
          (s.leasesOf "loop").getLast? = some firstLease ∧ Remembered "loop" s takeOver ∧
          (s.leasesOf "loop").length = 1)) = some true := by
    decide +kernel
  have hgaps : Along sampleStep { clock := 0 } besideIdle (Remembered "loop") := by decide +kernel
  obtain ⟨s, hs, hrun⟩ := bind_eq_some_iff.1 hrun
  obtain ⟨t, ht, hfacts⟩ := map_eq_some_iff.1 hrun
  obtain ⟨hgrant, hlast, hgap, hlen⟩ := of_decide_eq_true hfacts
  refine ⟨s, t, hs, ht, hgrant, epoch_grows_with_holder hs hgaps ?_ hgap ht hgrant hlast ?_⟩
  · rw [hlen]
    decide
  · decide

/-- A millisecond more than thirty days after the lease was given back the epoch key is gone. -/
theorem epoch_starts_again :
    ¬∀ (cs : List RedisCall) (s t : RedisCluster) (e : Elector) (clk : Time) (loop : String)
      (g last : LeaseToken),
      exec sampleStep { clock := 0 } cs = some s → sampleStep s (.acquire e clk loop) = some t →
      t.grants = s.grants ++ [g] → (s.leasesOf loop).getLast? = some last →
      last.holderID ≠ g.holderID → ∀ g' ∈ s.grants, g'.reconcilerID = loop →
        g'.epoch < g.epoch := by
  intro h
  have hrun : ((exec sampleStep { clock := 0 } (givenBack 2592000001000000)).bind fun s ↦
      (sampleStep s takeOver).map fun t ↦
        decide (s.grants = [firstLease] ∧
          t.grants = s.grants ++ [⟨"loop", "b", 1, 0, 10000000000⟩] ∧
          (s.leasesOf "loop").getLast? = some firstLease)) = some true := by
    decide +kernel
  obtain ⟨s, hs, hrun⟩ := bind_eq_some_iff.1 hrun
  obtain ⟨t, ht, hfacts⟩ := map_eq_some_iff.1 hrun
  obtain ⟨hgrants, hgrant, hlast⟩ := of_decide_eq_true hfacts
  have hless := h _ s t _ _ _ _ _ hs ht hgrant hlast (by decide) firstLease
    (by rw [hgrants]; exact mem_cons_self) rfl
  exact absurd hless (Nat.lt_irrefl 1)

end Epochs

end GoCell.Reconcile
