import GoCell.Foundation.OrderedLog
import GoCell.Projection.Checkpoints
import GoCell.Saga.JournalInvariant

namespace GoCell.Saga

open Foundation Kernel Projection List

def replayBatchSize : ℕ := 256

/-- `GlobalReader` over the events of a journal in the order in which they become visible. -/
def loadSince (journal : List GlobalEvent) (afterGlobalSeq limit : ℕ) : List GlobalEvent :=
  (since GlobalEvent.globalSeq journal afterGlobalSeq).take limit

def headSeq (journal : List GlobalEvent) : ℕ := lastPos GlobalEvent.globalSeq journal

theorem since_dense {journal : List GlobalEvent} {start n : ℕ}
    (h : journal.map GlobalEvent.globalSeq = range' start n) (cursor : ℕ) :
    since GlobalEvent.globalSeq journal cursor = journal.drop (cursor + 1 - start) := by
  induction journal generalizing start n with
  | nil => simp [since]
  | cons e _ ih =>
    cases n with
    | zero => cases h
    | succ n =>
      rw [map_cons, range'_succ, cons.injEq] at h
      obtain ⟨hstart, htail⟩ := h
      have hrest := ih htail
      by_cases hcursor : cursor < start
      · have hzero : cursor + 1 - start = 0 := by omega
        have hzero' : cursor + 1 - (start + 1) = 0 := by omega
        rw [hzero', drop_zero] at hrest
        rw [hzero, drop_zero, since, filter_cons]
        simp only [hstart, hcursor, decide_true, if_true]
        exact congrArg (e :: ·) hrest
      · have hsucc : cursor + 1 - start = cursor + 1 - (start + 1) + 1 := by omega
        rw [hsucc, drop_succ_cons, ← hrest, since, filter_cons]
        simp only [hstart, hcursor, decide_false, Bool.false_eq_true, if_false]
        rfl

theorem MemJournal.Consistent.globalReader {m : MemJournal} (hm : m.Consistent) :
    Ascending GlobalEvent.globalSeq m.globalLog ∧ m.headSeq = Saga.headSeq m.globalLog ∧
      ∀ afterGlobalSeq limit : ℕ, 0 < limit →
        m.loadSince afterGlobalSeq limit =
          .ok (Saga.loadSince m.globalLog afterGlobalSeq limit) := by
  refine ⟨?_, ?_, fun afterGlobalSeq limit hlimit ↦ ?_⟩
  · have hlt : (range' 1 m.globalSeq).Pairwise (· < ·) := pairwise_lt_range'
    rw [← hm.globalSeqs, pairwise_map] at hlt
    exact hlt
  · rw [Saga.headSeq, lastPos, ← getLast?_map, hm.globalSeqs, getLast?_range']
    cases hseq : m.globalSeq with
    | zero => exact hseq
    | succ n => simp [MemJournal.headSeq, hseq]
  · have hpos : decide (0 < (limit : ℤ)) = true := by simpa using hlimit
    have hnonneg : decide (0 ≤ (afterGlobalSeq : ℤ)) = true := by simp
    rw [Saga.loadSince, since_dense hm.globalSeqs, Nat.add_sub_cancel]
    simp only [MemJournal.loadSince, hpos, hnonneg, Int.toNat_natCast]
    rfl

/-- Where a drain stands. Between two calls it holds the `head` it read once, the `cursor` of its
replay, and what is left of the page it loaded; `short` says that no page follows. -/
inductive DrainPc
  | head
  | load (head : ℕ)
  | page (head cursor : ℕ)
  | deliver (head cursor : ℕ) (batch : List GlobalEvent) (short : Bool)
  | poison (head cursor : ℕ) (event : GlobalEvent) (batch : List GlobalEvent) (short : Bool)

inductive Disposition
  | applied
  | deadLettered
  deriving DecidableEq

structure Effect where
  event : GlobalEvent
  disposition : Disposition
  deriving DecidableEq

inductive ApplyResult
  | ok
  | transient
  | permanent

/-- The tailers of one projection over one journal and one checkpoint store, with the effects in
the order of their commits. `tokens` holds every owner token minted so far. -/
structure Tailers where
  journal : List GlobalEvent := []
  store : MemOwnerCheckpointStore := {}
  effects : List Effect := []
  tokens : List SafeID := []
  drains : Table SafeID DrainPc := ∅

/-- `txOk` is whether the transaction commits once its body has succeeded. -/
inductive DrainAction
  | readHead
  | loadOffset
  | loadPage
  | deliver (apply : ApplyResult) (txOk : Bool)
  | skip (txOk : Bool)
  | crash

inductive TailerAction
  | record (e : GlobalEvent)
  | poll (ownerToken : SafeID)
  | drain (ownerToken : SafeID) (a : DrainAction)

namespace Tailers

def resume (s : Tailers) (ownerToken : SafeID) (pc : DrainPc) : Tailers :=
  { s with drains := s.drains.insert ownerToken pc }

def finish (s : Tailers) (ownerToken : SafeID) : Tailers :=
  { s with drains := s.drains.erase ownerToken }

section

variable (cellID projectionID : String) (s : Tailers) (ownerToken : SafeID)

/-- The transaction of `commitEvent` and of `skipPoisonEvent`: an effect and the advance past its
event, or neither. -/
def commitTx (e : GlobalEvent) (disposition : Disposition)
    (txOk : Bool) (next : DrainPc) : Tailers :=
  match s.store.advanceIfOwner cellID projectionID ownerToken e.globalSeq with
  | .error _ => s.finish ownerToken
  | .ok store =>
    if txOk then
      ({ s with
          store := store
          effects := s.effects ++ [⟨e, disposition⟩] } : Tailers).resume ownerToken next
    else s.finish ownerToken

theorem commitTx_cases (e : GlobalEvent)
    (disposition : Disposition) (txOk : Bool) (next : DrainPc) :
    s.commitTx cellID projectionID ownerToken e disposition txOk next = s.finish ownerToken ∨
      ∃ store, s.store.advanceIfOwner cellID projectionID ownerToken e.globalSeq = .ok store ∧
        s.commitTx cellID projectionID ownerToken e disposition txOk next = ({ s with
              store := store
              effects := s.effects ++ [⟨e, disposition⟩] } : Tailers).resume ownerToken next := by
  unfold commitTx
  cases hadvance : s.store.advanceIfOwner cellID projectionID ownerToken e.globalSeq with
  | error err => exact .inl rfl
  | ok store =>
    cases txOk with
    | false => exact .inl rfl
    | true => exact .inr ⟨store, rfl, rfl⟩

/-- The callback of `drain` on the next event of the page, or the next page. -/
def deliver (head cursor : ℕ) (batch : List GlobalEvent)
    (short : Bool) (apply : ApplyResult) (txOk : Bool) : Tailers :=
  match batch with
  | [] => if short then s.finish ownerToken else s.resume ownerToken (.page head cursor)
  | e :: rest =>
    if e.globalSeq < 1 then s.finish ownerToken
    else if head < e.globalSeq then s.finish ownerToken
    else match apply with
      | .ok =>
        s.commitTx cellID projectionID ownerToken e .applied txOk
          (.deliver head e.globalSeq rest short)
      | .transient => s.finish ownerToken
      | .permanent => s.resume ownerToken (.poison head cursor e rest short)

def drainStep : DrainPc → DrainAction → Option Tailers
  | .head, .readHead => some (s.resume ownerToken (.load (headSeq s.journal)))
  | .load head, .loadOffset =>
    some (s.resume ownerToken (.page head (s.store.loadOffset cellID projectionID)))
  | .page head cursor, .loadPage =>
    let batch := loadSince s.journal cursor replayBatchSize
    some (s.resume ownerToken (.deliver head cursor batch (batch.length < replayBatchSize)))
  | .deliver head cursor batch short, .deliver apply txOk =>
    some (s.deliver cellID projectionID ownerToken head cursor batch short apply txOk)
  | .poison head _ e rest short, .skip txOk =>
    some (s.commitTx cellID projectionID ownerToken e .deadLettered txOk
      (.deliver head e.globalSeq rest short))
  | _, .crash => some (s.finish ownerToken)
  | _, _ => none

/-- `record` makes an event of the journal visible, at a position after all visible ones; `poll`
starts a drain under an owner token that was never used. -/
def step : TailerAction → Option Tailers
  | .record e =>
    if 1 ≤ e.globalSeq ∧ headSeq s.journal < e.globalSeq then
      some { s with journal := s.journal ++ [e] }
    else none
  | .poll ownerToken =>
    if ownerToken = "" ∨ ownerToken ∈ s.tokens then none
    else some (({ s with tokens := ownerToken :: s.tokens } : Tailers).resume ownerToken .head)
  | .drain ownerToken a =>
    (s.drains.lookup ownerToken).bind fun pc ↦ s.drainStep cellID projectionID ownerToken pc a

end

end Tailers

end GoCell.Saga
