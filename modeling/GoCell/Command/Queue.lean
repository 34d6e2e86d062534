import GoCell.Command.Entry
import GoCell.Foundation.Orders

namespace GoCell.Command

open Foundation Kernel

def defaultLeaseDuration : Duration := 300000000000

inductive AckReason
  | success
  | failed
  | timeout
  | rejected
  | other (code : ℕ)
  deriving DecidableEq

namespace AckReason

def valid : AckReason → Bool
  | .other _ => false
  | _ => true

def targetStatus : AckReason → Status
  | .success => .succeeded
  | .failed => .failed
  | .timeout => .expired
  | .rejected => .canceled
  | .other _ => .other 0

end AckReason

/-- An error that a queue returns: an `errcode` error below the texts that wrap it, or an error
without a code. -/
inductive Failure
  | coded (context : String) (err : Err)
  | plain (text : String)
  deriving DecidableEq

namespace Failure

def wrap (context : String) : Failure → Failure
  | .coded inner err => .coded (context ++ inner) err
  | .plain text => .plain (context ++ text)

end Failure

/-- `EnqueueOptions`; `authz` is the error of the `Authz` function, `none` where there is no such
function or it lets the request pass. -/
structure EnqueueOptions where
  idempotencyKey : String := ""
  authz : Option Failure := none
  maxPendingPerDevice : ℤ := 0
  deriving DecidableEq

def idempotencyKeyField : String := "_idempotency_key"

namespace Entry

variable (e : Entry)

/-- The idempotency key that an entry carries; a key that is missing reads as `""`. -/
def idempotencyKey : String := (e.metadata.lookup idempotencyKeyField).getD ""

def withID (newID : String) : Entry := if e.id = "" then { e with id := newID } else e

def stampIdempotencyKey (key : String) : Entry :=
  if key = "" then e else { e with metadata := e.metadata.insert idempotencyKeyField key }

variable (opts : EnqueueOptions) (newID : String)

def prepared : Entry :=
  (e.withID newID).stampIdempotencyKey opts.idempotencyKey

theorem prepared_deviceID : (e.prepared opts newID).deviceID = e.deviceID := by
  unfold prepared stampIdempotencyKey withID
  split <;> split <;> rfl

theorem prepared_callerMap : (e.prepared opts newID).callerMap = e.callerMap := by
  unfold prepared stampIdempotencyKey withID
  split <;> split <;> rfl

theorem prepared_lookup : (e.prepared opts newID).metadata.lookup idempotencyKeyField =
      if opts.idempotencyKey = "" then e.metadata.lookup idempotencyKeyField
      else some opts.idempotencyKey := by
  have hid : (e.withID newID).metadata = e.metadata := by
    unfold withID
    split <;> rfl
  unfold prepared stampIdempotencyKey
  split
  · rw [hid]
  · exact AList.lookup_insert _

/-- `stripInternalMetaKeys`: the keys that begin with an underscore are not shown. A map that holds
something is copied. -/
def stripInternalMetaKeys : Entry :=
  { e with
    metadata := restrict e.metadata fun k ↦ k.toList.head? ≠ some '_'
    callerMap := if e.metadata = ∅ then e.callerMap else none }

end Entry

/-- A call of a method of `command.Queue`, with the clock reading that it uses; `newID` is the id
that is generated for an entry without one. -/
inductive Call
  | enqueue (entry : Entry) (opts : EnqueueOptions) (newID : String)
  | dequeue (targetID : String) (n : ℤ) (leaseDuration : Duration) (now : Time)
  | report (commandID : String) (now : Time)
  | ack (commandID : String) (reason : AckReason) (now : Time)
  | extendLease (commandID : String) (extension : Duration) (now : Time)
  | cancel (commandID : String) (now : Time)

inductive Answer
  | done (result : Except Failure Unit)
  | commands (result : Except Failure (List Entry))
  | swept (errs : List Failure)
  | panicked

def leaseOf (leaseDuration : Duration) : Duration :=
  if leaseDuration ≤ 0 then defaultLeaseDuration else leaseDuration

/-- The order in which a list of commands is given out: by creation, with no rule for commands that
were created at one time. -/
abbrev FIFO := Arrangement Entry.createdAt

end GoCell.Command
