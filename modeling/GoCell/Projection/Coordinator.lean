import GoCell.Foundation.Checks
import GoCell.Foundation.OrderedLog
import GoCell.Foundation.Runs
import GoCell.Kernel.Values

namespace GoCell.Projection

open Foundation Kernel

/-- What a coordinator is given: the topic it subscribes to, the stream and the cursor position of
an event, `Apply` as a function of the read model, and the read model that `OnReset` leaves. -/
structure Spec (Ev Model : Type) where
  topic : String
  stream : Ev → String
  position : Ev → ℕ
  apply : Model → Ev → Model
  empty : Model

/-- What the transactions of a projection write: the read model and the checkpoint. `applied` lists
the events that were applied since the last reset. -/
structure ReadSide (Ev Model : Type) where
  model : Model
  checkpoint : ℕ
  applied : List Ev := []

inductive Stage
  | replay
  | catchup
  deriving DecidableEq

inductive RebuildResult
  | succeeded (head0 : ℕ) (head1 : Option ℕ)
  | failed
  deriving DecidableEq

/-- Where `runRebuild` stands; the phase is `PhaseLive` in `idle` only. `drain` is about to call
`Replay`; `replaying` is inside it, past `cursor`, and `due` is the last position that was in the
journal when it was called. -/
inductive RebuildPc
  | idle (last : Option RebuildResult)
  | shutGate
  | captureHead
  | reset (head0 : ℕ)
  | drain (stage : Stage) (head0 through : ℕ)
  | replaying (stage : Stage) (head0 through cursor due : ℕ)
  | catchup (head0 : ℕ)
  | openGate (result : RebuildResult)
  | live (result : RebuildResult)
  deriving DecidableEq

def Stage.next (head0 through : ℕ) : Stage → RebuildPc
  | .replay => .catchup head0
  | .catchup => .openGate (.succeeded head0 (some through))

inductive LivePc (Ev : Type)
  | idle
  | gated (e : Ev) (gate : ℕ)
  | admitted (e : Ev)

/-- A coordinator with its journal. `gate` is the current gate channel and `opened` the channels
that were closed so far; `delivered` is the last position that live delivery acknowledged. -/
structure Coordinator (Ev Model : Type) where
  journal : List Ev := []
  readSide : ReadSide Ev Model
  gate : ℕ := 0
  opened : List ℕ := [0]
  rebuild : RebuildPc := .idle none
  live : LivePc Ev := .idle
  delivered : ℕ := 0

inductive Fault
  | none
  | error
  | canceled
  deriving DecidableEq

/-- `rebuildStep` is the next atomic step of `runRebuild`, `replayEnd` the return of `Replay` when
it has caught up. `commitLive` is the transaction of the live handler. -/
inductive Action (Ev : Type)
  | append (e : Ev)
  | startRebuild
  | rebuildStep (fault : Fault)
  | replayEnd
  | deliver
  | passGate
  | commitLive
  | requeue
  deriving DecidableEq

def errNonPositivePosition : Err :=
  validationFailed ("projection.position: cursor returned a non-positive position; " ++
    "Cursor must honor the 1-based invariant")

section

variable {Ev Model : Type} (p : Spec Ev Model)

def Spec.own (e : Ev) : Bool := p.stream e = p.topic

variable (r : ReadSide Ev Model)

def resolvePosition (e : Ev) : Except Err (ℕ × Bool) := do
  require (1 ≤ p.position e) errNonPositivePosition
  return (p.position e, !decide (p.position e ≤ r.checkpoint))

def applyOne (e : Ev) : Except Err (ReadSide Ev Model) := do
  let (pos, proceed) ← resolvePosition p r e
  if proceed then
    return { model := p.apply r.model e, checkpoint := pos, applied := r.applied ++ [e] }
  else return r

def advanceOffsetPastForeign (e : Ev) : Except Err (ReadSide Ev Model) := do
  let (pos, proceed) ← resolvePosition p r e
  if proceed then return { r with checkpoint := pos } else return r

def drainEntry (e : Ev) : Except Err (ReadSide Ev Model) :=
  if p.own e then applyOne p r e else advanceOffsetPastForeign p r e

def resetPhase : ReadSide Ev Model := { model := p.empty, checkpoint := 0 }

namespace Coordinator

variable (s : Coordinator Ev Model)

def failRebuild : Coordinator Ev Model :=
  { s with rebuild := .openGate .failed }

def drained (stage : Stage) (head0 through : ℕ) : Coordinator Ev Model :=
  { s with rebuild := Stage.next head0 through stage }

def drainStep (stage : Stage) (head0 through due : ℕ) (e : Ev) : Coordinator Ev Model :=
  match drainEntry p s.readSide e with
  | .error _ => s.failRebuild
  | .ok r =>
    let s := { s with readSide := r }
    if 0 < through ∧ through ≤ p.position e then s.drained stage head0 through
    else { s with rebuild := .replaying stage head0 through (p.position e) due }

def drainFrom (stage : Stage) (head0 : ℕ) : ℕ :=
  match stage with
  | .replay => 0
  | .catchup => head0

def rebuildStep (fault : Fault) : Option (Coordinator Ev Model) :=
  match s.rebuild with
  | .idle _ => none
  | .shutGate => some { s with gate := s.gate + 1, rebuild := .captureHead }
  | .captureHead =>
    if fault = .none then some { s with rebuild := .reset (lastPos p.position s.journal) }
    else some s.failRebuild
  | .reset head0 =>
    if fault = .none then
      some { s with readSide := resetPhase p, rebuild := .drain .replay head0 head0 }
    else some s.failRebuild
  | .drain stage head0 through =>
    if fault = .none then
      some { s with
        rebuild := .replaying stage head0 through (drainFrom stage head0)
          (lastPos p.position s.journal) }
    else some s.failRebuild
  | .replaying stage head0 through cursor due =>
    if fault = .none then
      (since p.position s.journal cursor).head?.map (s.drainStep p stage head0 through due)
    else some s.failRebuild
  | .catchup head0 =>
    match fault with
    | .none =>
      some { s with rebuild := .drain .catchup head0 (lastPos p.position s.journal) }
    -- without a cutoff the catch-up is degraded, and live delivery resumes
    | .error => some { s with rebuild := .openGate (.succeeded head0 none) }
    | .canceled => some s.failRebuild
  | .openGate result => some { s with opened := s.gate :: s.opened, rebuild := .live result }
  | .live result => some { s with rebuild := .idle (some result) }

/-- The transaction of the live handler for the event it was admitted with. A rejected event is
acknowledged without effect. -/
def commitLive (e : Ev) : Coordinator Ev Model :=
  let s := { s with live := .idle, delivered := p.position e }
  match applyOne p s.readSide e with
  | .ok r => { s with readSide := r }
  | .error _ => s

/-- The stream is delivered serially and in order: the next own event after the last acknowledged
one, again if it was requeued. -/
def nextLive : Option Ev :=
  (since p.position s.journal s.delivered).find? p.own

def step : Action Ev → Option (Coordinator Ev Model)
  | .append e =>
    if lastPos p.position s.journal < p.position e then
      some { s with journal := s.journal ++ [e] }
    else none
  | .startRebuild =>
    match s.rebuild with
    | .idle _ => some { s with rebuild := .shutGate }
    -- `ErrRebuildInProgress`
    | _ => some s
  | .rebuildStep fault => s.rebuildStep p fault
  | .replayEnd =>
    match s.rebuild with
    | .replaying stage head0 through cursor due =>
      if due ≤ cursor then some (s.drained stage head0 through) else none
    | _ => none
  | .deliver =>
    match s.live with
    | .idle => (s.nextLive p).map fun e ↦ { s with live := .gated e s.gate }
    | _ => none
  | .passGate =>
    match s.live with
    | .gated e gate => if gate ∈ s.opened then some { s with live := .admitted e } else none
    | _ => none
  | .commitLive =>
    match s.live with
    | .admitted e => some (s.commitLive p e)
    | _ => none
  | .requeue => some { s with live := .idle }

end Coordinator

end

end GoCell.Projection
