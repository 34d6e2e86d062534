import GoCell.Foundation.Runs
import GoCell.Outbox.FakeStore

namespace GoCell.Outbox

open Foundation Kernel

/-- The settings of a relay, with `SanitizeError` at the limit it is called with. -/
structure Relay where
  batchSize : ℕ
  maxAttempts : ℕ
  claimTTL : Duration
  baseRetryDelay : Duration
  maxRetryDelay : Duration
  reclaimBatchSize : ℕ
  sanitizeError : String → String

/-- What a publish attempt returned; `permanent` is `isPermanentDispatch`. -/
structure PublishError where
  permanent : Bool
  message : String
  deriving DecidableEq

/-- `receipt` tells that the entry was dispatched under a live idempotency claim. -/
structure PublishResult where
  entry : ClaimedEntry
  err : Option PublishError
  receipt : Bool
  isCommand : Bool
  deriving DecidableEq

def PublishResult.commitReceipt (res : PublishResult) (commit : Except Err Unit) :
    Except Err Unit :=
  if res.receipt then commit else .ok ()

structure OutcomeCounts where
  published : ℕ := 0
  retried : ℕ := 0
  dead : ℕ := 0
  skipped : ℕ := 0
  lost : ℕ := 0
  deriving DecidableEq

structure PollStats where
  event : OutcomeCounts := {}
  command : OutcomeCounts := {}
  deriving DecidableEq

def PollStats.count (stats : PollStats) (isCommand : Bool) (f : OutcomeCounts → OutcomeCounts) :
    PollStats :=
  if isCommand then { stats with command := f stats.command }
  else { stats with event := f stats.event }

def PollStats.settled (stats : PollStats) (isCommand : Bool) (x : FakeStore × Bool)
    (updated stale : OutcomeCounts → OutcomeCounts) : FakeStore × PollStats :=
  (x.1, stats.count isCommand (if x.2 then updated else stale))

namespace Relay

/-- `retryDelay`; the jitter is drawn with the random number `rand`. -/
def retryDelay (r : Relay) (attempts rand : ℕ) : Duration :=
  let delay :=
    cappedDelay (wrapInt64 (r.baseRetryDelay * ((1 : ℤ) <<< min attempts 30))) r.maxRetryDelay
  if 0 < delay then wrapInt64 (delay + (rand : ℤ) % (delay / 4 + 1)) else delay

def handleFailedEntry (r : Relay) (now : Time) (rand : ℕ) (store : FakeStore) (res : PublishResult)
    (err : PublishError) (stats : PollStats) : Except Err (FakeStore × PollStats) :=
  let newAttempts := res.entry.attempts + 1
  let errMsg := r.sanitizeError err.message
  if err.permanent = true ∨ r.maxAttempts ≤ newAttempts then do
    transition .claiming .dead
    return stats.settled res.isCommand
      (store.markDead now res.entry.entry.id res.entry.leaseID newAttempts errMsg)
      (fun c ↦ { c with dead := c.dead + 1 }) (fun c ↦ { c with lost := c.lost + 1 })
  else do
    transition .claiming .pending
    return stats.settled res.isCommand
      (store.markRetry res.entry.entry.id res.entry.leaseID newAttempts
        (now + r.retryDelay newAttempts rand) errMsg)
      (fun c ↦ { c with retried := c.retried + 1 }) (fun c ↦ { c with lost := c.lost + 1 })

/-- `writeBackOne`; `commit` is what the `Commit` of a live receipt returns. -/
def writeBackOne (r : Relay) (now : Time) (rand : ℕ) (commit : Except Err Unit)
    (store : FakeStore) (res : PublishResult) (stats : PollStats) :
    Except Err (FakeStore × PollStats) :=
  match res.err with
  | some err => r.handleFailedEntry now rand store res err stats
  | none => do
    res.commitReceipt commit
    transition .claiming .published
    return stats.settled res.isCommand
      (store.markPublished now res.entry.entry.id res.entry.leaseID)
      (fun c ↦ { c with published := c.published + 1 })
      (fun c ↦ { c with skipped := c.skipped + 1 })

end Relay

/-- Where `pollOnce` of a worker stands: the entries it has still to publish, with the results so
far, or the results it has still to write back. -/
inductive WorkerPc
  | idle
  | publishing (todo : List ClaimedEntry) (results : List PublishResult)
  | writingBack (results : List PublishResult) (stats : PollStats)
  deriving DecidableEq

def WorkerPc.afterPublish (todo : List ClaimedEntry) (results : List PublishResult) : WorkerPc :=
  if todo.isEmpty then .writingBack results {} else .publishing todo results

structure Delivery where
  worker : ℕ
  id : String
  leaseID : String
  deriving DecidableEq

def PublishResult.delivery (res : PublishResult) (worker : ℕ) : List Delivery :=
  match res.err with
  | some _ => []
  | none => [⟨worker, res.entry.entry.id, res.entry.leaseID⟩]

/-- Any number of relay workers over one store. `leases` are the lease ids handed out so far and
`deliveries` the publishes that succeeded. -/
structure Relays where
  store : FakeStore
  now : Time := 0
  workers : ℕ → WorkerPc := fun _ ↦ .idle
  leases : List String := []
  deliveries : List Delivery := []

/-- `publish` is the next publish of a worker with an arbitrary result; `abandon` a worker that
gives its batch up, so that what it has not written back stays in claiming. -/
inductive Action
  | tick (elapsed : ℕ)
  | write (entry : Entry)
  | claim (worker : ℕ) (iteration : List String) (uuid : String)
  | publish (worker : ℕ) (err : Option PublishError) (receipt isCommand : Bool)
  | writeBack (worker rand : ℕ) (commit : Except Err Unit)
  | abandon (worker : ℕ)
  | reclaimStale
  | cleanupPublished (cutoff : Time)
  | cleanupDead (cutoff : Time)

def cleanupBatchLimit : ℕ := 1000

namespace Relays

def setWorker (s : Relays) (worker : ℕ) (pc : WorkerPc) : Relays :=
  { s with workers := Function.update s.workers worker pc }

/-- `pollOnce` up to the claim: nothing is left to do for an empty batch. -/
def claimed (s : Relays) (worker : ℕ) (entries : List ClaimedEntry) : Relays :=
  s.setWorker worker (if entries.isEmpty then .idle else .publishing entries [])

def publish (s : Relays) (worker : ℕ) (todo : List ClaimedEntry) (results : List PublishResult)
    (res : PublishResult) : Relays :=
  { s with deliveries := s.deliveries ++ res.delivery worker }.setWorker worker
    (.afterPublish todo (results ++ [res]))

def writeBack (r : Relay) (s : Relays) (worker rand : ℕ) (commit : Except Err Unit)
    (res : PublishResult) (rest : List PublishResult) (stats : PollStats) : Relays :=
  match r.writeBackOne s.now rand commit s.store res stats with
  -- the remaining entries stay in claiming
  | .error _ => s.setWorker worker .idle
  | .ok (store, stats) =>
    { s with store := store }.setWorker worker
      (if rest.isEmpty then .idle else .writingBack rest stats)

def step (r : Relay) (s : Relays) : Action → Option Relays
  | .tick elapsed => some { s with now := s.now + elapsed }
  | .write entry =>
    if (s.store.row entry.id).isNone then some { s with store := s.store.write entry } else none
  | .claim worker iteration uuid =>
    match s.workers worker with
    | .idle =>
      if iteration.isPerm s.store.rows.keys ∧ uuid ∉ s.leases then
        let (store, entries) := s.store.claimPending s.now iteration uuid r.batchSize
        some ({ s with store := store, leases := uuid :: s.leases }.claimed worker entries)
      else none
    | _ => none
  | .publish worker err receipt isCommand =>
    match s.workers worker with
    | .publishing (entry :: todo) results =>
      some (s.publish worker todo results ⟨entry, err, receipt, isCommand⟩)
    | _ => none
  | .writeBack worker rand commit =>
    match s.workers worker with
    | .writingBack (res :: rest) stats => some (s.writeBack r worker rand commit res rest stats)
    | _ => none
  | .abandon worker => some (s.setWorker worker .idle)
  | .reclaimStale =>
    some { s with
      store := (s.store.reclaimStale s.now r.claimTTL r.maxAttempts r.baseRetryDelay
        r.maxRetryDelay r.reclaimBatchSize).1 }
  | .cleanupPublished cutoff =>
    some { s with store := (s.store.cleanupPublished cutoff cleanupBatchLimit).1 }
  | .cleanupDead cutoff =>
    some { s with store := (s.store.cleanupDead cutoff cleanupBatchLimit).1 }

end Relays

end GoCell.Outbox
