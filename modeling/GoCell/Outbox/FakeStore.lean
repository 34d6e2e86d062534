import GoCell.Foundation.Checks
import GoCell.Foundation.Tables
import GoCell.Kernel.Values

namespace GoCell.Outbox

open Foundation Kernel List

inductive State
  | pending
  | claiming
  | published
  | dead
  deriving DecidableEq

def stateTransitions : State → List State
  | .pending => [.claiming]
  | .claiming => [.published, .dead, .pending]
  | .published => []
  | .dead => []

def State.canTransitionTo (s target : State) : Bool := target ∈ stateTransitions s

def transition (src dst : State) : Except Err Unit :=
  require (src.canTransitionTo dst) (validationFailed "outbox: invalid entry state transition")

def State.isTerminal : State → Bool
  | .published | .dead => true
  | _ => false

structure Entry where
  id : String
  createdAt : Time
  deriving DecidableEq

structure FakeRow where
  entry : Entry
  status : State
  attempts : ℕ
  leaseID : String := ""
  claimedAt : Option Time := none
  publishedAt : Option Time := none
  deadAt : Option Time := none
  nextRetryAt : Option Time := none
  lastError : String := ""
  deriving DecidableEq

structure ClaimedEntry where
  entry : Entry
  attempts : ℕ
  leaseID : String
  deriving DecidableEq

structure FakeStore where
  rows : Table String FakeRow := ∅

def cappedDelay (d maxDelay : Duration) : Duration :=
  if d ≤ 0 then 0 else if maxDelay < d then maxDelay else d

namespace FakeRow

variable (now : Time)

def claimable (r : FakeRow) : Bool :=
  r.status = .pending && r.nextRetryAt.all fun t ↦ t ≤ now

/-- `next_retry_at` ascending with nil first, then `created_at` ascending. -/
def claimedBefore (a b : FakeRow) : Bool :=
  match a.nextRetryAt, b.nextRetryAt with
  | none, none => a.entry.createdAt < b.entry.createdAt
  | none, some _ => true
  | some _, none => false
  | some s, some t => if s = t then a.entry.createdAt < b.entry.createdAt else s < t

def claim (leaseID : String) (r : FakeRow) : FakeRow :=
  { r with status := .claiming, leaseID := leaseID, claimedAt := some now }

def publish (r : FakeRow) : FakeRow :=
  { r with status := .published, publishedAt := some now, claimedAt := none }

def retry (attempts : ℕ) (nextRetryAt : Time) (lastError : String) (r : FakeRow) : FakeRow :=
  { r with
    status := .pending
    attempts := attempts
    nextRetryAt := some nextRetryAt
    lastError := lastError
    claimedAt := none
    leaseID := "" }

def bury (attempts : ℕ) (lastError : String) (r : FakeRow) : FakeRow :=
  { r with
    status := .dead
    attempts := attempts
    lastError := lastError
    deadAt := some now
    claimedAt := none }

def reclaim (maxAttempts : ℕ) (baseDelay maxDelay : Duration) (r : FakeRow) : FakeRow :=
  let newAttempts := r.attempts + 1
  if maxAttempts ≤ newAttempts then
    { r with status := .dead, attempts := newAttempts, deadAt := some now, claimedAt := none }
  else
    let delay := cappedDelay (wrapInt64 (baseDelay <<< min newAttempts 30)) maxDelay
    { r with
      status := .pending
      attempts := newAttempts
      nextRetryAt := some (now + delay)
      claimedAt := none
      leaseID := "" }

end FakeRow

namespace FakeStore

variable (s : FakeStore)

def row (id : String) : Option FakeRow := s.rows.lookup id

def write (entry : Entry) : FakeStore :=
  { rows := s.rows.insert entry.id { entry := entry, status := .pending, attempts := 0 } }

def seed (entries : List ClaimedEntry) : FakeStore :=
  { rows := entries.foldl
      (fun rows ce ↦ rows.insert ce.entry.id
        { entry := ce.entry, status := .pending, attempts := ce.attempts }) s.rows }

variable (now : Time)

/-- The rows that `ClaimPending` takes. The iteration over the map visits the rows in any order, and
the sort leaves rows that it does not tell apart in any order. -/
def candidates (iteration : List String) (batchSize : ℕ) : List (String × FakeRow) :=
  (((scan s.rows iteration).filter fun e ↦ e.2.claimable now).insertionSort
    fun a b ↦ ¬b.2.claimedBefore a.2 = true).take batchSize

def claimPending (iteration : List String) (uuid : String)
    (batchSize : ℕ) : FakeStore × List ClaimedEntry :=
  let candidates := s.candidates now iteration batchSize
  ({ rows := modifyAll s.rows (candidates.map Prod.fst) (FakeRow.claim now uuid) },
    candidates.map fun e ↦ ⟨e.2.entry, e.2.attempts, uuid⟩)

variable (id leaseID : String)

/-- The compare-and-set on the lease that `MarkPublished`, `MarkRetry` and `MarkDead` share. -/
def settle (f : FakeRow → FakeRow) : FakeStore × Bool :=
  match s.row id with
  | none => (s, false)
  | some r =>
    if r.status = .claiming ∧ r.leaseID = leaseID then
      ({ rows := s.rows.insert id (f r) }, true)
    else (s, false)

def markPublished : FakeStore × Bool :=
  s.settle id leaseID (FakeRow.publish now)

def markRetry (attempts : ℕ) (nextRetryAt : Time) (lastError : String) : FakeStore × Bool :=
  s.settle id leaseID (FakeRow.retry attempts nextRetryAt lastError)

def markDead (attempts : ℕ) (lastError : String) : FakeStore × Bool :=
  s.settle id leaseID (FakeRow.bury now attempts lastError)

def eligibleByTimeAsc (status : State) (cutoff : Time)
    (tsOf : FakeRow → Option Time) (batchSize : ℕ) : List (String × FakeRow) :=
  selectFirst s.rows (fun _ r ↦ r.status = status && (tsOf r).any fun t ↦ t < cutoff)
    (fun a b ↦ (tsOf a.2).getD 0 < (tsOf b.2).getD 0 ∨
      ((tsOf a.2).getD 0 = (tsOf b.2).getD 0 ∧ a.1 ≤ b.1)) batchSize

def reclaimStale (claimTTL : Duration) (maxAttempts : ℕ)
    (baseDelay maxDelay : Duration) (batchSize : ℕ) : FakeStore × ℕ :=
  let stale := s.eligibleByTimeAsc .claiming (now - claimTTL) FakeRow.claimedAt batchSize
  ({ rows := modifyAll s.rows (stale.map Prod.fst)
      (FakeRow.reclaim now maxAttempts baseDelay maxDelay) }, stale.length)

def cleanup (status : State) (tsOf : FakeRow → Option Time) (cutoff : Time)
    (batchSize : ℕ) : FakeStore × ℕ :=
  let expired := s.eligibleByTimeAsc status cutoff tsOf batchSize
  ({ rows := eraseAll s.rows (expired.map Prod.fst) }, expired.length)

def cleanupPublished (cutoff : Time) (batchSize : ℕ) : FakeStore × ℕ :=
  s.cleanup .published FakeRow.publishedAt cutoff batchSize

def cleanupDead (cutoff : Time) (batchSize : ℕ) : FakeStore × ℕ :=
  s.cleanup .dead FakeRow.deadAt cutoff batchSize

section

variable {s} {now : Time} {id : String}

theorem row_write (s : FakeStore) (entry : Entry) (id : String) :
    (s.write entry).row id = if id = entry.id
      then some { entry := entry, status := .pending, attempts := 0 } else s.row id :=
  lookup_insert_if _ _ _ _

theorem mem_candidates {iteration : List String} {batchSize : ℕ} {r : FakeRow}
    (h : (id, r) ∈ s.candidates now iteration batchSize) :
    s.row id = some r ∧ r.claimable now = true := by
  have hsorted := mem_of_mem_take h
  rw [mem_insertionSort, mem_filter, mem_scan] at hsorted
  exact ⟨hsorted.1.2, hsorted.2⟩

theorem row_claimPending (s : FakeStore) (now : Time) {iteration : List String}
    (hiteration : iteration.Nodup) (uuid : String) (batchSize : ℕ) (id : String) :
    (s.claimPending now iteration uuid batchSize).1.row id =
      if id ∈ (s.candidates now iteration batchSize).map Prod.fst
      then (s.row id).map (FakeRow.claim now uuid) else s.row id := by
  refine lookup_modifyAll s.rows ?_ id _
  rw [candidates, map_take]
  refine List.Nodup.sublist (take_sublist _ _) ?_
  have hperm := (perm_insertionSort (fun a b ↦ ¬b.2.claimedBefore a.2 = true)
    ((scan s.rows iteration).filter fun e ↦ e.2.claimable now)).map Prod.fst
  rw [hperm.nodup_iff]
  exact (scan_keys_nodup s.rows hiteration).sublist (filter_sublist.map _)

theorem settle_stale {leaseID : String} (f : FakeRow → FakeRow)
    (h : ∀ r, s.row id = some r → ¬(r.status = .claiming ∧ r.leaseID = leaseID)) :
    s.settle id leaseID f = (s, false) := by
  unfold settle
  cases hrow : s.row id with
  | none => rfl
  | some r => exact if_neg (h r hrow)

theorem settle_held {leaseID : String} {r : FakeRow} (f : FakeRow → FakeRow)
    (hrow : s.row id = some r) (hclaiming : r.status = .claiming) (hlease : r.leaseID = leaseID) :
    s.settle id leaseID f = ({ rows := s.rows.insert id (f r) }, true) := by
  rw [settle, hrow]
  exact if_pos ⟨hclaiming, hlease⟩

theorem settle_cases (s : FakeStore) (id leaseID : String) (f : FakeRow → FakeRow) :
    (s.settle id leaseID f).1 = s ∨
      ∃ r, s.row id = some r ∧ r.status = .claiming ∧ r.leaseID = leaseID ∧
        ∀ j, (s.settle id leaseID f).1.row j = if j = id then some (f r) else s.row j := by
  by_cases h : ∃ r, s.row id = some r ∧ r.status = .claiming ∧ r.leaseID = leaseID
  · obtain ⟨r, hrow, hclaiming, hlease⟩ := h
    refine .inr ⟨r, hrow, hclaiming, hlease, fun j ↦ ?_⟩
    rw [settle_held f hrow hclaiming hlease]
    exact lookup_insert_if _ _ _ _
  · left
    rw [settle_stale f]
    intro r hrow hheld
    exact h ⟨r, hrow, hheld⟩

theorem eligibleByTimeAsc_status {status : State} {cutoff : Time} {tsOf : FakeRow → Option Time}
    {batchSize : ℕ} (h : id ∈ (s.eligibleByTimeAsc status cutoff tsOf batchSize).map Prod.fst) :
    ∃ r, s.row id = some r ∧ r.status = status := by
  obtain ⟨⟨_, r⟩, hmem, rfl⟩ := mem_map.1 h
  obtain ⟨hrow, heligible⟩ := mem_selectFirst hmem
  rw [Bool.and_eq_true] at heligible
  exact ⟨r, hrow, of_decide_eq_true heligible.1⟩

theorem row_reclaimStale (s : FakeStore) (now : Time) (claimTTL : Duration) (maxAttempts : ℕ)
    (baseDelay maxDelay : Duration) (batchSize : ℕ) (id : String) :
    (s.reclaimStale now claimTTL maxAttempts baseDelay maxDelay batchSize).1.row id = s.row id ∨
      ∃ r, s.row id = some r ∧ r.status = .claiming ∧
        (s.reclaimStale now claimTTL maxAttempts baseDelay maxDelay batchSize).1.row id =
          some (r.reclaim now maxAttempts baseDelay maxDelay) := by
  have hlookup := lookup_modifyAll s.rows
    (selectFirst_keys_nodup s.rows
      (fun _ r ↦ r.status = .claiming && r.claimedAt.any fun t ↦ t < now - claimTTL)
      (fun a b ↦ a.2.claimedAt.getD 0 < b.2.claimedAt.getD 0 ∨
        (a.2.claimedAt.getD 0 = b.2.claimedAt.getD 0 ∧ a.1 ≤ b.1)) batchSize)
    id (FakeRow.reclaim now maxAttempts baseDelay maxDelay)
  split_ifs at hlookup with hmem
  · obtain ⟨r, hrow, hclaiming⟩ := eligibleByTimeAsc_status hmem
    rw [show s.rows.lookup id = some r from hrow] at hlookup
    exact .inr ⟨r, hrow, hclaiming, hlookup⟩
  · exact .inl hlookup

theorem row_cleanup (s : FakeStore) (status : State) (tsOf : FakeRow → Option Time)
    (cutoff : Time) (batchSize : ℕ) (id : String) :
    (s.cleanup status tsOf cutoff batchSize).1.row id = s.row id ∨
      ∃ r, s.row id = some r ∧ r.status = status ∧
        (s.cleanup status tsOf cutoff batchSize).1.row id = none := by
  have hlookup := lookup_eraseAll s.rows
    ((s.eligibleByTimeAsc status cutoff tsOf batchSize).map Prod.fst) id
  split_ifs at hlookup with hmem
  · obtain ⟨r, hrow, hstatus⟩ := eligibleByTimeAsc_status hmem
    exact .inr ⟨r, hrow, hstatus, hlookup⟩
  · exact .inl hlookup

end

end FakeStore

end GoCell.Outbox
