import GoCell.Foundation.PointerHeap
import GoCell.Kernel.Values

namespace GoCell.DistLock

open Foundation Kernel

structure LockState where
  id : ℕ
  key : String
  token : String
  ttl : Duration
  deriving DecidableEq

structure HeapItem where
  nextRenew : Time
  id : ℕ
  deriving DecidableEq

/-- `ErrLockReleased`, `ErrLockLost` and `ErrLockOrphaned`. -/
inductive Cause
  | released
  | lost
  | orphaned
  deriving DecidableEq

/-- `renewAfter` is the renewal's share of a time to live, computed in floating point. -/
structure Config where
  renewAfter : Duration → Duration

/-- What `run` owns; `causes` are the calls of `markCause` on a lock's handle, in order. -/
structure Manager where
  locks : ℕ → Option LockState := fun _ ↦ none
  items : ℕ → Option ℕ := fun _ ↦ none
  h : PointerHeap HeapItem := {}
  inflightRenew : ℕ → Bool := fun _ ↦ false
  causes : ℕ → List Cause := fun _ ↦ []

def HeapItem.before (a b : HeapItem) : Bool := a.nextRenew < b.nextRenew

variable (m : Manager) (id : ℕ)

/-- `Cause`: only the first call of `markCause` has an effect. -/
def Manager.cause : Option Cause := (m.causes id).head?

def Manager.markCause (cause : Cause) : Manager :=
  { m with causes := Function.update m.causes id (m.causes id ++ [cause]) }

def Manager.nextTimer : Option Time :=
  ((m.h.heap[0]?).bind m.h.contentOf).map HeapItem.nextRenew

def Manager.handleAdd (cfg : Config) (m : Manager) (now : Time) (state : LockState) : Manager :=
  let (h, ref) := m.h.alloc ⟨now + cfg.renewAfter state.ttl, state.id⟩
  { m with
    locks := Function.update m.locks state.id (some state)
    items := Function.update m.items state.id (some ref)
    h := h.push HeapItem.before ref }

/-- `handleRenew`, with the lock and the item of the renewal that it starts. -/
def Manager.handleRenew : Manager × Option (ℕ × ℕ) :=
  match m.h.pop HeapItem.before with
  | none => (m, none)
  | some (ref, h) =>
    match h.contentOf ref with
    | none => (m, none)
    | some item =>
      let m := { m with h := h, items := Function.update m.items item.id none }
      match m.locks item.id with
      | none => (m, none)
      | some _ =>
        ({ m with inflightRenew := Function.update m.inflightRenew item.id true },
          some (item.id, ref))

def Manager.lose : Manager :=
  { m.markCause id .lost with locks := Function.update m.locks id none }

def Manager.handleRenewResult (cfg : Config) (m : Manager) (now : Time) (id item : ℕ) (held : Bool)
    (renewErr : Option Err) : Manager :=
  let m := { m with inflightRenew := Function.update m.inflightRenew id false }
  match m.locks id with
  | none => m
  | some state =>
    if renewErr.isSome then m.lose id
    else if !held then m.lose id
    else
      let h := (m.h.contentOf item).elim m.h fun c ↦
        m.h.store item { c with nextRenew := now + cfg.renewAfter state.ttl }
      { m with
        items := Function.update m.items id (some item)
        h := h.push HeapItem.before item }

def Manager.unschedule : Manager :=
  match (m.items id).bind fun ref ↦ m.h.cells[ref]? with
  | none => m
  | some cell =>
    match m.h.remove HeapItem.before cell.index.toNat with
    | none => m
    | some (_, h) => { m with h := h, items := Function.update m.items id none }

def Manager.detachLock (cause : Cause) : Manager × Option LockState :=
  match m.locks id with
  | none => (m, none)
  | some state =>
    let m := { m with locks := Function.update m.locks id none }
    let m := m.unschedule id
    let m := { m with inflightRenew := Function.update m.inflightRenew id false }
    (m.markCause id cause, some state)

/-- `handleRemove`, with the lock whose key a goroutine of its own releases in the backend; without
one the caller is answered at once. -/
def Manager.handleRemove : Manager × Option LockState :=
  m.detachLock id .released

def Manager.handleOrphan : Manager := (m.detachLock id .orphaned).1

end GoCell.DistLock
