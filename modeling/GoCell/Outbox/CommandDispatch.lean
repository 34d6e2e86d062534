import GoCell.Foundation.FirstFailure
import GoCell.Idempotency.Claimer
import GoCell.Idempotency.Keys
import GoCell.Kernel.Timestamps
import GoCell.Outbox.Relay

namespace GoCell.Outbox

open Foundation Kernel Idempotency

/-- A relay with `WithCommandDispatch`: the routing topics with a registered handler, and
`time.Parse` for `RFC3339Nano`. -/
structure CommandRelay extends Relay where
  commands : List String
  parseTime : String → Option Time

/-- What the relay reads of a claimed entry; `metadata` is `""` for an absent key. -/
structure RelayEntry where
  claimed : ClaimedEntry
  routingTopic : String
  aggregateID : String
  tenantID : String
  metadata : String → String

inductive StoreMark
  | published (id leaseID : String)
  | dead (id leaseID : String) (attempts : ℕ) (lastError : String)
  | retry (id leaseID : String) (attempts : ℕ) (nextRetryAt : Time) (lastError : String)
  deriving DecidableEq

def FakeStore.mark (store : FakeStore) (now : Time) : StoreMark → FakeStore × Bool
  | .published id leaseID => store.markPublished now id leaseID
  | .dead id leaseID attempts lastError => store.markDead now id leaseID attempts lastError
  | .retry id leaseID attempts nextRetryAt lastError =>
    store.markRetry id leaseID attempts nextRetryAt lastError

/-- What the relay is answered while it handles one entry: the clock when the lifetime of the done
key is computed, `Claim`, the handler with the uniqueness in its context, the failure of
`MarshalEnvelope`, `Publish`, `Commit`, and at the write-back the clock, the jitter and the
store. -/
structure Answers (ρ : Type) where
  dispatchNow : Time
  claim : String → Duration → Duration → Except PublishError (ClaimState × ρ)
  dispatch : Option (String × Time) → Option PublishError
  marshal : Option String
  publish : Option PublishError
  commit : Except Err Unit
  now : Time
  rand : ℕ
  mark : StoreMark → Except Err Bool

/-- `publishResult`: the receipt is there for a dispatch under an acquired claim only. -/
structure CommandResult (ρ : Type) where
  entry : ClaimedEntry
  err : Option PublishError := none
  receipt : Option ρ := none
  isCommand : Bool := false
  deriving DecidableEq

def commandIDMetadataKey : String := "gocell.command.idempotency_id"

def commandDeadlineMetadataKey : String := "gocell.command.overall_deadline"

def commandLeaseTTL : Duration := defaultLeaseTTL

def commandDoneTTL : Duration := defaultTTL

def relayOp (permanent : Bool) (message : String) : PublishError :=
  ⟨permanent, (if permanent then "permanent: " else "") ++ "[ERR_OUTBOX_RELAY_OP] " ++ message⟩

def errMissingIdentity : PublishError :=
  relayOp true "outbox relay: command entry missing idempotency identity"

def errUnparseableDeadline : PublishError :=
  relayOp true "outbox relay: command entry has unparseable overall_deadline"

def errCommandDispatchBusy : PublishError :=
  relayOp false "outbox relay: command dispatch busy; another worker holds the claim"

def errUnknownClaimState : PublishError :=
  relayOp true "outbox relay: command claim returned unknown state"

def claimKeyFromEntry (e : RelayEntry) : Option String :=
  let commandID := e.metadata commandIDMetadataKey
  if e.aggregateID = "" ∨ commandID = "" then none
  else some (deriveCommandKey e.tenantID e.aggregateID commandID).flat

def activeUniquenessDoneTTL (deadline now : Time) : Duration :=
  if 0 < timeSub deadline now then timeSub deadline now else 0

/-- `none` for a command without active uniqueness. -/
def activeDeadline (parseTime : String → Option Time) (e : RelayEntry) :
    Except PublishError (Option Time) :=
  let dl := e.metadata commandDeadlineMetadataKey
  if dl = "" then .ok none
  else
    match parseTime dl with
    | none => .error errUnparseableDeadline
    | some deadline => .ok (some deadline)

/-- The lifetime of the done key that is asked for at the time `now`. -/
def doneTTL (now : Time) : Option Time → Duration
  | none => commandDoneTTL
  | some deadline => activeUniquenessDoneTTL deadline now

/-- `dispatchCommand` up to the claim: the key and the deadline of the command. -/
def commandIdentity (parseTime : String → Option Time) (e : RelayEntry) :
    Except PublishError (String × Option Time) :=
  match claimKeyFromEntry e with
  | none => .error errMissingIdentity
  | some key => do
    let deadline ← activeDeadline parseTime e
    return (key, deadline)

section

variable {ρ : Type}

def dispatchClaimed (a : Answers ρ) (e : ClaimedEntry) (key : String) (deadline : Option Time) :
    CommandResult ρ :=
  match a.claim key commandLeaseTTL (doneTTL a.dispatchNow deadline) with
  | .error err => { entry := e, err := some err }
  | .ok (.acquired, receipt) =>
    { entry := e, err := a.dispatch (deadline.map fun d ↦ (key, d)), receipt := some receipt }
  | .ok (.done, _) => { entry := e }
  | .ok (.busy, _) => { entry := e, err := some errCommandDispatchBusy }
  | .ok (.unknown, _) => { entry := e, err := some errUnknownClaimState }

namespace CommandRelay

def dispatchCommand (r : CommandRelay) (a : Answers ρ) (e : RelayEntry) : CommandResult ρ :=
  match commandIdentity r.parseTime e with
  | .error err => { entry := e.claimed, err := some err }
  | .ok (key, deadline) => dispatchClaimed a e.claimed key deadline

def publishOne (r : CommandRelay) (e : RelayEntry) (a : Answers ρ) : CommandResult ρ :=
  if e.routingTopic ∈ r.commands then { r.dispatchCommand a e with isCommand := true }
  else
    match a.marshal with
    | some text => { entry := e.claimed, err := some ⟨true, "permanent: " ++ text⟩ }
    | none => { entry := e.claimed, err := a.publish }

/-- `publishBatch`: each result comes with the answers that its write-back will get. -/
def publishBatch (r : CommandRelay) (batch : List (RelayEntry × Answers ρ)) :
    List (CommandResult ρ × Answers ρ) :=
  batch.map fun x ↦ (r.publishOne x.1 x.2, x.2)

/-- The store's answer to a settlement is counted; `false` is a lost lease. -/
def counted (stats : PollStats) (isCommand : Bool) (updated stale : OutcomeCounts → OutcomeCounts)
    (b : Bool) : PollStats :=
  stats.count isCommand (if b then updated else stale)

def handleFailedEntry (r : CommandRelay) (a : Answers ρ) (res : CommandResult ρ)
    (err : PublishError) (stats : PollStats) : Except Err PollStats :=
  let newAttempts := res.entry.attempts + 1
  let errMsg := r.sanitizeError err.message
  if err.permanent = true ∨ r.maxAttempts ≤ newAttempts then do
    transition .claiming .dead
    let updated ← a.mark (.dead res.entry.entry.id res.entry.leaseID newAttempts errMsg)
    return counted stats res.isCommand
      (fun c ↦ { c with dead := c.dead + 1 }) (fun c ↦ { c with lost := c.lost + 1 }) updated
  else do
    transition .claiming .pending
    let nextRetryAt := a.now + r.retryDelay newAttempts a.rand
    let updated ←
      a.mark (.retry res.entry.entry.id res.entry.leaseID newAttempts nextRetryAt errMsg)
    return counted stats res.isCommand
      (fun c ↦ { c with retried := c.retried + 1 }) (fun c ↦ { c with lost := c.lost + 1 }) updated

def publishedEntry (a : Answers ρ) (res : CommandResult ρ) (stats : PollStats) :
    Except Err PollStats := do
  transition .claiming .published
  let updated ← a.mark (.published res.entry.entry.id res.entry.leaseID)
  return counted stats res.isCommand (fun c ↦ { c with published := c.published + 1 })
    (fun c ↦ { c with skipped := c.skipped + 1 }) updated

/-- `writeBackOne`, with the settlement calls it makes on receipts. -/
def writeBackOne (r : CommandRelay) (a : Answers ρ) (res : CommandResult ρ) (stats : PollStats) :
    List (Settlement × ρ) × Except Err PollStats :=
  match res.err, res.receipt with
  | some err, none => ([], r.handleFailedEntry a res err stats)
  | some err, some receipt => ([(.release, receipt)], r.handleFailedEntry a res err stats)
  | none, none => ([], publishedEntry a res stats)
  | none, some receipt =>
    ([(.commit, receipt)], do
      a.commit
      publishedEntry a res stats)

/-- `writeBackResults` from the counts `stats` on: the settlement calls, the counts and the error
that ended the loop. -/
def writeBackResults (r : CommandRelay) :
    List (CommandResult ρ × Answers ρ) → PollStats → List (Settlement × ρ) × PollStats × Option Err
  | [], stats => ([], stats, none)
  | (res, a) :: rest, stats =>
    match r.writeBackOne a res stats with
    -- the remaining entries stay in claiming, and their receipts unsettled
    | (calls, .error err) => (calls, stats, some err)
    | (calls, .ok stats) =>
      let (later, final) := writeBackResults r rest stats
      (calls ++ later, final)

end CommandRelay

end

end GoCell.Outbox
