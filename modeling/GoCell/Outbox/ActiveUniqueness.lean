import GoCell.Idempotency.InMemClaimer
import GoCell.Idempotency.RedisClaimer
import GoCell.Outbox.CommandDispatch

namespace GoCell.Outbox

open Foundation Kernel Idempotency

theorem dispatchClaimed_receipt {ρ : Type} {a : Answers ρ} {e : ClaimedEntry} {key : String}
    {deadline : Option Time} {receipt : ρ}
    (h : (dispatchClaimed a e key deadline).receipt = some receipt) :
    a.claim key commandLeaseTTL (doneTTL a.dispatchNow deadline) = .ok (.acquired, receipt) := by
  unfold dispatchClaimed at h
  split at h
  · cases h
  · next heq => rw [heq, Option.some.inj h]
  · cases h
  · cases h
  · cases h

theorem unseen_after_iff {deadline tick commitTime gone : ℤ} :
    (∀ t, deadline + tick ≤ t → commitTime ≤ t → ¬t < gone) ↔
      gone ≤ commitTime ∨ gone ≤ deadline + tick := by
  constructor
  · intro hunseen
    -- the first instant after the deadline at which the marker can be asked for
    have hfirst := hunseen (max (deadline + tick) commitTime) (by omega) (by omega)
    omega
  · intro hshort t hafter hcommitted
    omega

def maxDuration : Duration := 2 ^ 63 - 1

/-- The lifetime of the done key that the Redis claimer writes when it is asked for `ttl`. -/
def redisLifetime (ttl : Duration) : Duration := pxDuration (clampMs (orDefault ttl defaultTTL))

theorem activeUniquenessDoneTTL_eq (deadline now : ℤ) :
    activeUniquenessDoneTTL deadline now = max 0 (min (deadline - now) 9223372036854775807) := by
  simp only [activeUniquenessDoneTTL, timeSub, InInt64, Time, Duration]
  split_ifs <;> omega

theorem redisLifetime_of_pos {ttl : ℤ} (hpos : 0 < ttl) (hms : 1000000 ≤ ttl) :
    redisLifetime ttl = ttl / 1000000 * 1000000 := by
  have hdefault : orDefault ttl defaultTTL = ttl := if_neg (Int.not_le.2 hpos)
  have hdiv : clampMs ttl = ttl / 1000000 := by
    rw [clampMs, Int.tdiv_eq_ediv_of_nonneg (Int.le_of_lt hpos)]
    omega
  rw [redisLifetime, hdefault, hdiv, pxDuration]

section

variable {now deadline commitTime : ℤ} (hnow : (1000000 : ℤ) ∣ now)
  (hdeadline : (1000000 : ℤ) ∣ deadline) (hcommit : (1000000 : ℤ) ∣ commitTime)
  (hclock : now ≤ commitTime)
include hnow hdeadline hcommit hclock

theorem inMem_lifetime_iff : commitTime + activeUniquenessDoneTTL deadline now ≤ commitTime ∨
        commitTime + activeUniquenessDoneTTL deadline now ≤ deadline + 1 ↔
      deadline ≤ now ∨ commitTime = now ∨ commitTime + maxDuration ≤ deadline := by
  have hmax : maxDuration = (9223372036854775807 : ℤ) := rfl
  rw [activeUniquenessDoneTTL_eq, hmax]
  dsimp only [Duration]
  omega

/-- The end of the millisecond in which the done key of the Redis claimer expires. -/
def redisGone (commitTime ttl : ℤ) : ℤ :=
  (commitTime + redisLifetime ttl) / 1000000 * 1000000 + 1000000

theorem redis_lifetime_iff :
    redisGone commitTime (activeUniquenessDoneTTL deadline now) ≤ commitTime ∨
        redisGone commitTime (activeUniquenessDoneTTL deadline now) ≤ deadline + 1000000 ↔
      now < deadline ∧ (commitTime = now ∨
        commitTime + pxDuration (clampMs maxDuration) ≤ deadline) := by
  have hmax : pxDuration (clampMs maxDuration) = (9223372036854000000 : ℤ) := rfl
  have hdefault : redisLifetime 0 = (86400000000000 : ℤ) := rfl
  rw [hmax, redisGone]
  by_cases hpassed : deadline ≤ now
  · have hzero : activeUniquenessDoneTTL deadline now = 0 := by
      rw [activeUniquenessDoneTTL_eq]
      dsimp only [Duration]
      omega
    rw [hzero, hdefault]
    dsimp only [Duration]
    omega
  · have hpos : 1000000 ≤ activeUniquenessDoneTTL deadline now := by
      rw [activeUniquenessDoneTTL_eq]
      dsimp only [Duration]
      omega
    rw [redisLifetime_of_pos (Int.lt_of_lt_of_le (by decide) hpos) hpos, activeUniquenessDoneTTL_eq]
    dsimp only [Duration]
    omega

end

/-- A command with active uniqueness that the relay dispatches through the claimer `c`: a claim in
the state `before`, with a done key that is to live until the deadline as of `answers.dispatchNow`,
then any calls `others` on other receipts, and then the commit. -/
structure ActiveRun {σ : Type} (c : Claimer σ ReceiptRef) (r : CommandRelay) (e : RelayEntry) where
  key : String
  deadline : Time
  identity : commandIdentity r.parseTime e = .ok (key, some deadline)
  before : σ
  claimTime : Time
  answers : Answers ReceiptRef
  claims : ∀ key leaseTTL doneTTL res, answers.claim key leaseTTL doneTTL = .ok res →
    (c.claim before claimTime key leaseTTL doneTTL).2 = .ok res
  lease : ℕ
  dispatched : r.dispatchCommand answers e =
    { entry := e.claimed, err := none, receipt := some (.lease lease) }
  others : List Call
  untouched : ∀ x ∈ others, x.op.touches lease = false
  commitTime : Time
  clock : answers.dispatchNow ≤ commitTime
  final : σ
  committed : c.commit
    (after c.call (c.claim before claimTime key commandLeaseTTL
      (activeUniquenessDoneTTL deadline answers.dispatchNow)).1 others)
    commitTime (.lease lease) = (final, .ok ())

namespace ActiveRun

section

variable {σ : Type} {c : Claimer σ ReceiptRef} {r : CommandRelay} {e : RelayEntry}

variable (run : ActiveRun c r e)

def doneTTL : Duration :=
  activeUniquenessDoneTTL run.deadline run.answers.dispatchNow

/-- The marker is not seen after the deadline, on a clock that counts in steps of `tick`. -/
def KeyFreed (tick : ℤ) : Prop :=
  ∀ t leaseTTL doneTTL ref, run.deadline + tick ≤ t → run.commitTime ≤ t →
    (c.claim run.final t run.key leaseTTL doneTTL).2 ≠ .ok (.done, ref)

def WholeMs : Prop :=
  (1000000 : ℤ) ∣ run.answers.dispatchNow ∧ (1000000 : ℤ) ∣ run.deadline ∧
    (1000000 : ℤ) ∣ run.commitTime

theorem acquired : (c.claim run.before run.claimTime run.key commandLeaseTTL run.doneTTL).2 =
      .ok (.acquired, .lease run.lease) := by
  have hdispatched := congrArg CommandResult.receipt run.dispatched
  rw [CommandRelay.dispatchCommand, run.identity] at hdispatched
  exact run.claims _ _ _ _ (dispatchClaimed_receipt hdispatched)

theorem keyFreed_iff {tick gone : ℤ} (hdone : ∀ t leaseTTL doneTTL, (∃ ref,
      (c.claim run.final t run.key leaseTTL doneTTL).2 = .ok (.done, ref)) ↔ t < gone) :
    run.KeyFreed tick ↔ gone ≤ run.commitTime ∨ gone ≤ run.deadline + tick := by
  rw [← unseen_after_iff]
  constructor
  · intro hfreed t hafter hcommitted hseen
    obtain ⟨ref, href⟩ := (hdone t 0 0).2 hseen
    exact hfreed t 0 0 ref hafter hcommitted href
  · intro hunseen t leaseTTL doneTTL ref hafter hcommitted hclaim
    exact hunseen t hafter hcommitted ((hdone t leaseTTL doneTTL).1 ⟨ref, hclaim⟩)

end

section

variable {token : ℕ → String} {r : CommandRelay} {e : RelayEntry}

theorem inMem_keyFreed_iff (run : ActiveRun (InMemClaimer.claimer fun n ↦ some (token n)) r e) :
    run.KeyFreed 1 ↔ run.commitTime + run.doneTTL ≤ run.commitTime ∨
      run.commitTime + run.doneTTL ≤ run.deadline + 1 := by
  have hreceipt := InMemClaimer.receipt_of_acquired run.acquired
  -- the receipt is still unused when it is committed
  have hlater := after_invariant_of_mem (InMemClaimer.claimer fun n ↦ some (token n)).call
    (fun c ↦ c.receipts[run.lease]? = some _) run.others _
    (fun c x hx hc ↦ InMemClaimer.receipt_call hc (run.untouched x hx)) hreceipt
  obtain ⟨_, hentry⟩ := InMemClaimer.entry_of_committed hlater rfl run.committed
  exact run.keyFreed_iff fun t leaseTTL doneTTL ↦
    InMemClaimer.claim_done_iff hentry _ leaseTTL doneTTL

theorem redis_keyFreed_iff (run : ActiveRun (RedisClaimer.claimer fun n ↦ some (token n)) r e) :
    run.KeyFreed 1000000 ↔ redisGone run.commitTime run.doneTTL ≤ run.commitTime ∨
      redisGone run.commitTime run.doneTTL ≤ run.deadline + 1000000 := by
  obtain ⟨hkey, hreceipt⟩ := RedisClaimer.receipt_of_acquired run.acquired
  have hns := RedisClaimer.ns_claim run.before run.claimTime
    (some (token run.before.receipts.length)) run.key commandLeaseTTL run.doneTTL
  have hlater := after_invariant_of_mem (RedisClaimer.claimer fun n ↦ some (token n)).call
    (fun c ↦ c.ns = run.before.ns ∧ c.receipts[run.lease]? = some _) run.others _
    (fun c x hx hc ↦ by
      obtain ⟨hsame, hstill⟩ := RedisClaimer.receipt_call hc.2 (run.untouched x hx)
      exact ⟨hsame.trans hc.1, hstill⟩) ⟨hns, hreceipt⟩
  obtain ⟨hfinal, hdone⟩ := RedisClaimer.done_of_committed hlater.2 rfl run.committed
  rw [← hlater.1, ← hfinal] at hdone
  exact run.keyFreed_iff fun t leaseTTL doneTTL ↦
    (RedisClaimer.claim_done_iff hkey hdone _ leaseTTL doneTTL).trans KeyStore.live_iff

/-- At whole milliseconds, the done marker of a command with active uniqueness is not seen after its
deadline exactly when the clock stands still from the computation of the lifetime to the commit, or
the deadline is further away than a lifetime can be; in memory also when it has passed before, where
Redis falls back to the default lifetime. -/
theorem done_marker_freed_iff (m : ActiveRun (InMemClaimer.claimer fun n ↦ some (token n)) r e)
    (q : ActiveRun (RedisClaimer.claimer fun n ↦ some (token n)) r e)
    (hm : m.WholeMs) (hq : q.WholeMs) :
    (m.KeyFreed 1 ↔ m.deadline ≤ m.answers.dispatchNow ∨ m.commitTime = m.answers.dispatchNow ∨
        m.commitTime + maxDuration ≤ m.deadline) ∧
      (q.KeyFreed 1000000 ↔ q.answers.dispatchNow < q.deadline ∧
        (q.commitTime = q.answers.dispatchNow ∨
          q.commitTime + pxDuration (clampMs maxDuration) ≤ q.deadline)) := by
  obtain ⟨hnow, hdeadline, hcommit⟩ := hm
  obtain ⟨hnow', hdeadline', hcommit'⟩ := hq
  exact ⟨m.inMem_keyFreed_iff.trans (inMem_lifetime_iff hnow hdeadline hcommit m.clock),
    q.redis_keyFreed_iff.trans (redis_lifetime_iff hnow' hdeadline' hcommit' q.clock)⟩

end

/-- A relay with one command, on which every deadline reads as `deadline`. -/
def deadlineRelay (deadline : Time) : CommandRelay where
  batchSize := 10
  maxAttempts := 5
  claimTTL := 60000000000
  baseRetryDelay := 1000000000
  maxRetryDelay := 60000000000
  reclaimBatchSize := 100
  sanitizeError := id
  commands := ["command.device.reboot"]
  parseTime := fun _ ↦ some deadline

def uniqueEntry : RelayEntry where
  claimed := ⟨⟨"e1", 0⟩, 0, "lease"⟩
  routingTopic := "command.device.reboot"
  aggregateID := "d1"
  tenantID := ""
  metadata := fun key ↦ if key = commandIDMetadataKey then "evt" else "deadline"

/-- The claimer `c` acquires the lease `0` in the state `s` at the time `0`. -/
def claimAnswers {σ : Type} (c : Claimer σ ReceiptRef) (s : σ) : Answers ReceiptRef where
  dispatchNow := 0
  claim := fun key leaseTTL doneTTL ↦
    (c.claim s 0 key leaseTTL doneTTL).2.mapError fun err ↦ ⟨false, err.message⟩
  dispatch := fun _ ↦ none
  marshal := none
  publish := none
  commit := .ok ()
  now := 0
  rand := 0
  mark := fun _ ↦ .ok true

theorem claimAnswers_ok {σ : Type} {c : Claimer σ ReceiptRef} {s : σ} {key : String}
    {leaseTTL doneTTL : Duration} {res : ClaimState × ReceiptRef}
    (h : (claimAnswers c s).claim key leaseTTL doneTTL = .ok res) :
    (c.claim s 0 key leaseTTL doneTTL).2 = .ok res := by
  simp only [claimAnswers] at h
  cases hclaim : (c.claim s 0 key leaseTTL doneTTL).2 with
  | error err => simp [hclaim, Except.mapError] at h
  | ok x => simpa [hclaim, Except.mapError] using h

/-- A fresh claimer, the claim at the time `0` and the commit at the time `commitTime`, with nothing
in between. -/
def freshRun {σ : Type} (c : Claimer σ ReceiptRef) (s : σ) (deadline : Time) (commitTime : ℕ)
    (hdispatched : (deadlineRelay deadline).dispatchCommand (claimAnswers c s) uniqueEntry =
      { entry := uniqueEntry.claimed, err := none, receipt := some (.lease 0) })
    (hcommitted : (c.commit (c.claim s 0 "_notenant\x00d1\x00evt" commandLeaseTTL
      (activeUniquenessDoneTTL deadline 0)).1 commitTime (.lease 0)).2 = .ok ()) :
    ActiveRun c (deadlineRelay deadline) uniqueEntry where
  key := "_notenant\x00d1\x00evt"
  deadline := deadline
  identity := rfl
  before := s
  claimTime := 0
  answers := claimAnswers c s
  claims := fun _ _ _ _ ↦ claimAnswers_ok
  lease := 0
  dispatched := hdispatched
  others := []
  untouched := fun _ hx ↦ absurd hx List.not_mem_nil
  commitTime := commitTime
  clock := Int.natCast_nonneg commitTime
  final := (c.commit (c.claim s 0 "_notenant\x00d1\x00evt" commandLeaseTTL
    (activeUniquenessDoneTTL deadline 0)).1 commitTime (.lease 0)).1
  committed := Prod.ext rfl hcommitted

abbrev memTokens : Claimer InMemClaimer ReceiptRef := InMemClaimer.claimer fun _ ↦ some "t"

abbrev redisTokens : Claimer RedisClaimer ReceiptRef := RedisClaimer.claimer fun _ ↦ some "t"

def ordersRedis : RedisClaimer := { ns := ordersNamespace }

/-- The commit is made at the instant of the claim, ten milliseconds before the deadline. -/
theorem prompt_markers_freed : (freshRun memTokens {} 10000000 0 rfl rfl).KeyFreed 1 ∧
      (freshRun redisTokens ordersRedis 10000000 0 rfl rfl).KeyFreed 1000000 := by
  have hiff := @done_marker_freed_iff (fun _ ↦ "t") _ _
    (freshRun memTokens {} 10000000 0 rfl rfl)
    (freshRun redisTokens ordersRedis 10000000 0 rfl rfl)
    ⟨by decide, by decide, by decide⟩ ⟨by decide, by decide, by decide⟩
  exact ⟨hiff.1.2 (.inr (.inl rfl)), hiff.2.2 ⟨by decide, .inl rfl⟩⟩

/-- The commit is made five milliseconds after the claim: both claimers answer the marker two
milliseconds after the deadline. In Redis, a deadline in the past gives the marker a day. -/
theorem late_markers_seen : ¬(freshRun memTokens {} 10000000 5000000 rfl rfl).KeyFreed 1 ∧
      ¬(freshRun redisTokens ordersRedis 10000000 5000000 rfl rfl).KeyFreed 1000000 ∧
      ¬(freshRun redisTokens ordersRedis (-10000000) 0 rfl rfl).KeyFreed 1000000 := by
  refine ⟨fun hfreed ↦ ?_, fun hfreed ↦ ?_, fun hfreed ↦ ?_⟩
  · exact hfreed 12000000 0 0 .nonAcquired (by decide) (by decide) rfl
  · exact hfreed 12000000 0 0 .nonAcquired (by decide) (by decide) rfl
  · exact hfreed 0 0 0 .nonAcquired (by decide) (by decide) rfl

end ActiveRun

end GoCell.Outbox
