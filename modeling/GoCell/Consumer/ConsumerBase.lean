import GoCell.Foundation.Runs
import GoCell.Idempotency.Claimer

namespace GoCell.Consumer

open Foundation Kernel Idempotency

/-- `invalid` is any other value of the underlying integer, the zero value among them. -/
inductive Disposition
  | ack
  | requeue
  | reject
  | invalid
  deriving DecidableEq

structure HandleResult where
  disposition : Disposition
  err : Option Err := none
  deriving DecidableEq

structure DeliveryOutcome where
  disposition : Disposition
  err : Option Err := none
  processReason : String := ""
  deriving DecidableEq

def processReasonRetryExhausted : String := "retry_exhausted"

def deliveryFrom (r : HandleResult) : DeliveryOutcome :=
  { disposition := r.disposition, err := r.err }

def requeueResult (err : Option Err) : DeliveryOutcome := { disposition := .requeue, err := err }

inductive ClaimPolicy
  | failClosed
  | failOpen
  deriving DecidableEq

structure ConsumerBaseConfig where
  retryCount : ℤ := 0
  retryBaseDelay : Duration := 0
  idempotencyTTL : Duration := 0
  leaseTTL : Duration := 0
  claimPolicy : ClaimPolicy := .failClosed
  claimRetryCount : ℤ := 0
  claimRetryBaseDelay : Duration := 0
  maxRetryDelay : Duration := 0
  leaseRenewalInterval : Duration := 0

def orElse (n default : ℤ) : ℤ := if n ≤ 0 then default else n

def ConsumerBaseConfig.setDefaults (c : ConsumerBaseConfig) : ConsumerBaseConfig :=
  let retryCount := orElse c.retryCount 3
  let retryBaseDelay := orElse c.retryBaseDelay 1000000000
  let leaseTTL := orElse c.leaseTTL defaultLeaseTTL
  { retryCount := retryCount
    retryBaseDelay := retryBaseDelay
    idempotencyTTL := orElse c.idempotencyTTL defaultTTL
    leaseTTL := leaseTTL
    claimPolicy := c.claimPolicy
    claimRetryCount := orElse c.claimRetryCount retryCount
    claimRetryBaseDelay := orElse c.claimRetryBaseDelay retryBaseDelay
    maxRetryDelay := orElse c.maxRetryDelay 30000000000
    leaseRenewalInterval :=
      if c.leaseRenewalInterval = 0 then leaseTTL.tdiv 3 else c.leaseRenewalInterval }

/-- What `NewConsumerBase` returns: a configuration with its defaults set. -/
structure ConsumerBase where
  config : ConsumerBaseConfig
  built : ∃ c : ConsumerBaseConfig, config = c.setDefaults

def newConsumerBase (c : ConsumerBaseConfig) : ConsumerBase := ⟨c.setDefaults, c, rfl⟩

structure Subscription where
  consumerGroup : String
  brokerDelaySchedule : List Duration := []

def Subscription.brokerDelayPassthrough (sub : Subscription) : Bool :=
  !sub.brokerDelaySchedule.isEmpty

def idempotencyKey (consumerGroup entryID : String) : String := consumerGroup ++ ":" ++ entryID

/-- What `Extend` answers, by `errors.Is` for `ErrLeaseExpired`. -/
inductive ExtendReply
  | ok
  | leaseExpired
  | failed (err : Err)
  deriving DecidableEq

/-- What a delivery does outside: the claims with their answers, the invocations of the handler and
their results, and the answers of the lease renewals. -/
inductive Event (ρ : Type)
  | claimed (key : String) (leaseTTL doneTTL : Duration)
      (reply : Except Err (ClaimState × Option ρ))
  | invoked
  | handled (result : HandleResult)
  | extended (ttl : Duration) (reply : ExtendReply)

/-- Where the delivery stands: `claimFailed`, `waitBackoff` and `exhausted` are about to look at the
context, `claimBackoff`, `busyBackoff` and `backoff` wait for a timer, `looped` has the result of
`retryLoop`, and `join` waits for the renewal to stop. -/
inductive MainPc (ρ : Type)
  | claiming (attempt : ℕ)
  | claimFailed (attempt : ℕ) (err : Err)
  | claimBackoff (attempt : ℕ)
  | busyBackoff
  | invoking (attempt : ℕ)
  | handling (attempt : ℕ)
  | waitBackoff (attempt : ℕ)
  | backoff (attempt : ℕ)
  | exhausted (last : HandleResult)
  | looped (result : DeliveryOutcome)
  | join (result : DeliveryOutcome)
  | returned (out : DeliveryOutcome) (settlement : Option ρ)

/-- The renewal goroutine: `lost` has been told that the lease is lost and `latched` has stored
it. -/
inductive RenewalPc
  | off
  | ticking
  | lost
  | latched
  | exited
  deriving DecidableEq

/-- One delivery. `ctx` is the error of the subscriber's context and `renewCtx` that of the context
derived from it, once they are done. -/
structure Delivery (ρ : Type) where
  main : MainPc ρ := .claiming 0
  renewal : RenewalPc := .off
  receipt : Option ρ := none
  ctx : Option Err := none
  renewCtx : Option Err := none
  leaseLost : Bool := false
  log : List (Event ρ) := []

/-- `proceed` is the next step of the delivery itself, `timer` the timer it waits for and `aborted`
the end of the wait because the context is done; `renew` is the next step of the renewal. -/
inductive Action (ρ : Type)
  | cancel (err : Err)
  | claim (reply : Except Err (ClaimState × Option ρ))
  | invoke
  | handle (result : HandleResult)
  | proceed
  | timer
  | aborted
  | extend (reply : ExtendReply)
  | renew

def errCanceled : Err := ⟨.internal, .internal, "context canceled", []⟩

namespace Delivery

variable {ρ : Type}

variable (s : Delivery ρ)

def record (e : Event ρ) : Delivery ρ := { s with log := s.log ++ [e] }

def goto (pc : MainPc ρ) : Delivery ρ := { s with main := pc }

def finish (out : DeliveryOutcome) : Delivery ρ := s.goto (.returned out none)

def loopCtx : Option Err := if s.renewal = .off then s.ctx else s.renewCtx

def cancel (err : Err) : Delivery ρ :=
  { s with ctx := s.ctx.or (some err), renewCtx := s.renewCtx.or (some err) }

def cancelRenew : Delivery ρ :=
  { s with renewCtx := s.renewCtx.or (some errCanceled) }

variable (cb : ConsumerBase)

/-- `runWithRenewal` up to the handler loop. -/
def runWithRenewal (s : Delivery ρ) (receipt : Option ρ) : Delivery ρ :=
  let s := { s with receipt := receipt, main := .invoking 0 }
  if cb.config.leaseRenewalInterval ≤ 0 ∨ receipt.isNone then s
  else { s with renewal := .ticking, renewCtx := s.ctx }

def handleClaimState (s : Delivery ρ) (state : ClaimState) (receipt : Option ρ) : Delivery ρ :=
  match state with
  | .done => s.finish (deliveryFrom { disposition := .ack })
  | .busy => s.goto .busyBackoff
  | _ => s.runWithRenewal cb receipt

/-- A claim was answered: `claimWithRetry` under the fail-closed policy, the single attempt under
the fail-open one. -/
def onClaim (s : Delivery ρ) (attempt : ℕ) :
    Except Err (ClaimState × Option ρ) → Delivery ρ
  | .ok (state, receipt) => s.handleClaimState cb state receipt
  | .error err =>
    match cb.config.claimPolicy with
    | .failClosed => s.goto (.claimFailed attempt err)
    | .failOpen => s.goto (.invoking 0)

/-- `retryLoop` returns: to `runWithRenewal` if the renewal runs, and out of `Wrap` otherwise. -/
def loopReturn (result : DeliveryOutcome) : Delivery ρ :=
  if s.renewal = .off then s.goto (.returned result s.receipt) else s.goto (.looped result)

def onResult (passthrough : Bool) (s : Delivery ρ) (attempt : ℕ)
    (result : HandleResult) : Delivery ρ :=
  if passthrough = true ∨ result.disposition = .ack ∨ result.disposition = .reject then
    s.loopReturn (deliveryFrom result)
  else if (attempt : ℤ) < cb.config.retryCount - 1 then s.goto (.waitBackoff attempt)
  else s.goto (.exhausted result)

def onExhausted (last : HandleResult) : Delivery ρ :=
  match s.loopCtx with
  | some err => s.loopReturn (requeueResult (some err))
  | none => s.loopReturn
      { disposition := .reject, err := last.err, processReason := processReasonRetryExhausted }

def fence (leaseLost : Bool) (result : DeliveryOutcome) : DeliveryOutcome :=
  if leaseLost = true ∧ result.disposition = .ack then
    { disposition := .requeue, err := some errLeaseExpired, processReason := result.processReason }
  else result

def onClaimFailed (s : Delivery ρ) (attempt : ℕ) (err : Err) : Delivery ρ :=
  match s.ctx with
  | some ctxErr => s.finish (requeueResult (some ctxErr))
  | none =>
    if (attempt : ℤ) < cb.config.claimRetryCount - 1 then s.goto (.claimBackoff attempt)
    else s.finish (requeueResult (some err))

def proceed (s : Delivery ρ) : Option (Delivery ρ) :=
  match s.main with
  | .claimFailed attempt err => some (s.onClaimFailed cb attempt err)
  | .waitBackoff attempt =>
    match s.loopCtx with
    | some err => some (s.loopReturn (requeueResult (some err)))
    | none => some (s.goto (.backoff attempt))
  | .exhausted last => some (s.onExhausted last)
  | .looped result => some (s.cancelRenew.goto (.join result))
  | .join result =>
    if s.renewal = .exited then some (s.goto (.returned (fence s.leaseLost result) s.receipt))
    else none
  | _ => none

def timer : Option (Delivery ρ) :=
  match s.main with
  | .claimBackoff attempt => some (s.goto (.claiming (attempt + 1)))
  | .busyBackoff => some (s.finish (requeueResult none))
  | .backoff attempt => some (s.goto (.invoking (attempt + 1)))
  | _ => none

def aborted : Option (Delivery ρ) :=
  match s.main with
  | .claimBackoff _ => s.ctx.map fun err ↦ s.finish (requeueResult (some err))
  | .busyBackoff => s.ctx.map fun _ ↦ s.finish (requeueResult none)
  | .backoff _ => s.loopCtx.map fun err ↦ s.loopReturn (requeueResult (some err))
  | _ => none

/-- `leaseRenewalLoop` has a tick and is answered on `Extend`. -/
def extend (s : Delivery ρ) (reply : ExtendReply) : Option (Delivery ρ) :=
  match s.renewal with
  | .ticking =>
    let s := s.record (.extended cb.config.leaseTTL reply)
    some (if reply = .leaseExpired then { s with renewal := .lost } else s)
  | _ => none

/-- The other steps of the renewal goroutine: it ends with its context, or stores that the lease is
lost and cancels the context. -/
def renew : Option (Delivery ρ) :=
  match s.renewal with
  | .ticking => s.renewCtx.map fun _ ↦ { s with renewal := .exited }
  | .lost => some { s with leaseLost := true, renewal := .latched }
  | .latched => some { s.cancelRenew with renewal := .exited }
  | _ => none

def step (sub : Subscription) (entryID : String) (s : Delivery ρ) :
    Action ρ → Option (Delivery ρ)
  | .cancel err => some (s.cancel err)
  | .claim reply =>
    match s.main with
    | .claiming attempt =>
      some ((s.record (.claimed (idempotencyKey sub.consumerGroup entryID) cb.config.leaseTTL
        cb.config.idempotencyTTL reply)).onClaim cb attempt reply)
    | _ => none
  | .invoke =>
    match s.main with
    | .invoking attempt => some ((s.record .invoked).goto (.handling attempt))
    | _ => none
  | .handle result =>
    match s.main with
    | .handling attempt =>
      some ((s.record (.handled result)).onResult cb sub.brokerDelayPassthrough attempt result)
    | _ => none
  | .proceed => s.proceed cb
  | .timer => s.timer
  | .aborted => s.aborted
  | .extend reply => s.extend cb reply
  | .renew => s.renew

end Delivery

end GoCell.Consumer
