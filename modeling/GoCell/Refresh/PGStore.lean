import GoCell.Refresh.MemStore
import Mathlib.Data.List.Sort

namespace GoCell.Refresh

open Foundation Kernel

structure RefreshRow where
  id : UUID
  parentID : Option UUID
  sessionID : Bytes
  subjectID : Bytes
  selector : Bytes
  verifierHash : Bytes
  createdAt : Time
  expiresAt : Time
  idleExpiresAt : Time
  rotatedAt : Option Time
  revokedAt : Option Time
  firstUsedAt : Option Time
  usedTimes : ℤ
  authzEpochAtIssue : ℤ
  deriving DecidableEq

abbrev RefreshTable := List RefreshRow

/-- `text` says which strings a column of type `TEXT` can hold. -/
structure PGEnv extends Env where
  text : Bytes → Bool

def gcBatchSize : ℕ := 1000

def maxInt32 : ℤ := 2147483647

namespace RefreshRow

def toToken (r : RefreshRow) : Token :=
  ⟨r.id, r.sessionID, r.subjectID, r.createdAt, r.expiresAt, r.authzEpochAtIssue⟩

/-- The row of a token that is handed out, as `insertRowSQL` stores it. -/
def new (env : Env) (id : UUID) (parentID : Option UUID) (sessionID subjectID : Bytes) (epoch : ℤ)
    (now : Time) (p : Pair) : RefreshRow where
  id := id
  parentID := parentID
  sessionID := sessionID
  subjectID := subjectID
  selector := p.selector
  verifierHash := env.sha256 p.verifier
  createdAt := pgTime now
  expiresAt := pgTime (now + env.policy.maxAge)
  idleExpiresAt := pgTime (now + env.policy.maxIdle)
  rotatedAt := none
  revokedAt := none
  firstUsedAt := none
  usedTimes := 0
  authzEpochAtIssue := epoch

/-- The rows in the partial index `idx_refresh_tokens_selector_live`. -/
def isLive (r : RefreshRow) : Bool := r.rotatedAt.isNone && r.revokedAt.isNone

def revoke (now : Time) (r : RefreshRow) : RefreshRow :=
  if r.revokedAt.isNone then { r with revokedAt := some (pgTime now) } else r

def markRotated (now : Time) (r : RefreshRow) : RefreshRow :=
  if r.rotatedAt.isNone then { r with rotatedAt := some (pgTime now) } else r

def markGraceUsed (now : Time) (r : RefreshRow) : RefreshRow :=
  { r with
    firstUsedAt := some (r.firstUsedAt.getD (pgTime now))
    usedTimes := r.usedTimes + 1 }

def isStale (olderThan : Time) (r : RefreshRow) : Bool :=
  min r.expiresAt r.idleExpiresAt < olderThan

def orphan (deleted : List UUID) (r : RefreshRow) : RefreshRow :=
  { r with parentID := r.parentID.filter (· ∉ deleted) }

end RefreshRow

inductive Target
  | session (sessionID : Bytes)
  | subject (subjectID : Bytes)
  deriving DecidableEq

def Target.covers : Target → RefreshRow → Bool
  | session sessionID, r => r.sessionID = sessionID
  | subject subjectID, r => r.subjectID = subjectID

namespace RefreshTable

/-- `insertRowSQL`; `none` where the row breaks a constraint of the table. -/
def insertRow (env : PGEnv) (t : RefreshTable) (r : RefreshRow) : Option RefreshTable :=
  if r.id ∈ t.map RefreshRow.id ∨ (∃ x ∈ t, x.selector = r.selector ∧ x.isLive = true) ∨
      r.authzEpochAtIssue ≤ 0 ∨ env.text r.sessionID = false ∨ env.text r.subjectID = false ∨
      (∃ p ∈ r.parentID, p ∉ t.map RefreshRow.id) then
    none
  else some (t ++ [r])

variable (t : RefreshTable)

def selectBySelector (sel : Bytes) : Option RefreshRow :=
  ((t.filter fun r ↦ r.selector = sel).insertionSort fun a b ↦ b.createdAt ≤ a.createdAt).head?

def updateByID (id : UUID) (f : RefreshRow → RefreshRow) : RefreshTable :=
  t.map fun r ↦ if r.id = id then f r else r

def markRotated (now : Time) (id : UUID) : RefreshTable :=
  t.updateByID id (RefreshRow.markRotated now)

/-- `markGraceUsedSQL`; `none` where the counter leaves its range. -/
def markGraceUsed (now : Time) (id : UUID) : Option RefreshTable :=
  if ∃ r ∈ t, r.id = id ∧ maxInt32 < r.usedTimes + 1 then none
  else some (t.updateByID id (RefreshRow.markGraceUsed now))

def revoke (target : Target) (now : Time) : RefreshTable :=
  t.map fun r ↦ if target.covers r then r.revoke now else r

def gcBatch (olderThan : Time) : RefreshTable × ℕ :=
  let deleted := ((t.filter (RefreshRow.isStale (pgTime olderThan))).take gcBatchSize).map
    RefreshRow.id
  let kept := t.filter fun r ↦ r.id ∉ deleted
  (kept.map (RefreshRow.orphan deleted), t.length - kept.length)

def gcLoop (olderThan : Time) : ℕ → RefreshTable → ℕ → RefreshTable × ℕ
  | 0, t, total => (t, total)
  | fuel + 1, t, total =>
    let (t', deleted) := t.gcBatch olderThan
    if deleted < gcBatchSize then (t', total + deleted)
    else gcLoop olderThan fuel t' (total + deleted)

end RefreshTable

inductive PGRefusal
  | rejected
  | reused (r : RefreshRow)
  | failed (e : Err)

namespace RefreshTable

variable (env : PGEnv)

variable (t : RefreshTable)

def issue (sessionID subjectID : Bytes) (epoch : ℤ) (now : Time) (id : UUID)
    (pair : Option Pair) : RefreshTable × Answer :=
  if epoch = 0 then (t, .failed errEpochRequired)
  else
    match pair with
    | none => (t, .failed (errPGQuery "refresh store: rng"))
    | some p =>
      match t.insertRow env (.new env.toEnv id none sessionID subjectID epoch now p) with
      | none => (t, .failed (errPGQuery "refresh store: issue"))
      | some t' =>
        (t', .issued (encodeOpaque p.selector p.verifier)
          ⟨id, sessionID, subjectID, now, now + env.policy.maxAge, epoch⟩)

variable (row : RefreshRow)

def checkBasicValidity (ver : Bytes) (now : Time) : Bool :=
  env.sha256 ver = row.verifierHash ∧ row.revokedAt = none ∧ now < row.expiresAt ∧
    now < row.idleExpiresAt

/-- A row that was rotated before, at the time `rotated`. Only a rotation counts as a retry; the
revocation of the session is committed on its own. -/
def handleRotatedRow (rotated now : Time) (mutate : Bool) : RefreshTable × Except PGRefusal Unit :=
  if env.policy.graceMaxReuses ≤ row.usedTimes ∨ env.policy.reuseInterval < now - rotated then
    (t.revoke (.session row.sessionID) now, .error (.reused row))
  else if mutate then
    match t.markGraceUsed now row.id with
    | none => (t, .error (.failed (errPGQuery "refresh store: mark grace used")))
    | some t' => (t', .ok ())
  else (t, .ok ())

/-- The clock is read at `checked` for the deadlines and at `handled` for a row that was rotated. -/
def validatePresented (sel ver : Bytes) (checked handled : Time)
    (mutate : Bool) : RefreshTable × Except PGRefusal RefreshRow :=
  match t.selectBySelector sel with
  | none => (t, .error .rejected)
  | some row =>
    if checkBasicValidity env row ver checked = false then (t, .error .rejected)
    else
      match row.rotatedAt with
      | none => (t, .ok row)
      | some rotated =>
        match t.handleRotatedRow env row rotated handled mutate with
        | (t', .error e) => (t', .error e)
        | (t', .ok _) => (t', .ok row)

def refuse : PGRefusal → Answer
  | .rejected => .failed errRejected
  | .reused r => .reused r.toToken
  | .failed e => .failed e

def peek (presented : Bytes) (checked handled : Time) : RefreshTable × Answer :=
  match parseOpaque presented with
  | none => (t, .failed errRejected)
  | some (sel, ver) =>
    match t.validatePresented env sel ver checked handled false with
    | (t', .error e) => (t', refuse e)
    | (t', .ok row) => (t', .peeked row.toToken)

def insertChild (now : Time) (id : UUID) (p : Pair) : Option RefreshTable := do
  let t' ← t.insertRow env
    (.new env.toEnv id (some row.id) row.sessionID row.subjectID row.authzEpochAtIssue now p)
  return if row.rotatedAt.isNone then t'.markRotated now row.id else t'

/-- An error after the validation rolls the transaction back to `t`. -/
def rotate (presented : Bytes) (checked handled now : Time) (id : UUID)
    (pair : Option Pair) : RefreshTable × Answer :=
  match parseOpaque presented with
  | none => (t, .failed errRejected)
  | some (sel, ver) =>
    match t.validatePresented env sel ver checked handled true with
    | (t', .error e) => (t', refuse e)
    | (t', .ok row) =>
      match pair with
      | none => (t, .failed (errPGQuery "refresh store: rng"))
      | some p =>
        match t'.insertChild env row now id p with
        | none => (t, .failed (errPGQuery "refresh store: rotate insert child"))
        | some t'' =>
          (t'', .issued (encodeOpaque p.selector p.verifier)
            ⟨id, row.sessionID, row.subjectID, now, now + env.policy.maxAge, row.authzEpochAtIssue⟩)

def revokeSession (sessionID : Bytes) (now : Time) : RefreshTable × Answer :=
  if env.text sessionID then (t.revoke (.session sessionID) now, .done)
  else (t, .failed (errPGQuery "refresh store: revoke session"))

def revokeUser (subjectID : Bytes) (now : Time) : RefreshTable × Answer :=
  if env.text subjectID then (t.revoke (.subject subjectID) now, .done)
  else (t, .failed (errPGQuery "refresh store: revoke user"))

def gc (olderThan : Time) : RefreshTable × Answer :=
  let (t', total) := gcLoop olderThan (t.length + 1) t 0
  (t', .removed total)

end RefreshTable

/-- A call as an atomic method of the PostgreSQL store. It reads the clock once more for a row that
was rotated before, at the instant of the validation. -/
def Call.runPG (env : PGEnv) (t : RefreshTable) : Call → RefreshTable × Answer
  | issue sessionID subjectID epoch now id pair =>
    t.issue env sessionID subjectID epoch now id pair
  | peek presented now => t.peek env presented now now
  | rotate presented checked now id pair => t.rotate env presented checked checked now id pair
  | revokeSession sessionID now => t.revokeSession env sessionID now
  | revokeUser subjectID now => t.revokeUser env subjectID now
  | gc olderThan => t.gc olderThan

end GoCell.Refresh
