import GoCell.Refresh.PGStore
import GoCell.Foundation.Tables

namespace GoCell.Refresh

open Foundation Kernel

inductive Write
  | graceUsed (now : Time)
  | rotated (now : Time)
  | revoked (now : Time)
  deriving DecidableEq

def Write.apply : Write → RefreshRow → RefreshRow
  | graceUsed now, r => r.markGraceUsed now
  | rotated now, r => r.markRotated now
  | revoked now, r => r.revoke now

def writtenBy (writes : List (UUID × Write)) (r : RefreshRow) : RefreshRow :=
  writes.foldl (fun r w ↦ if w.1 = r.id then w.2.apply r else r) r

/-- A transaction of `Rotate` for a parsed token, or the statement of a revocation with the time
that it writes. -/
inductive Job
  | rotate (sel ver : Bytes)
  | revoke (target : Target) (now : Time)
  deriving DecidableEq

inductive Stage
  | begun
  | found (sessionID : Bytes)
  | locked
  | validated (handled : Time)
  | retried
  | inserted (now : Time)
  | reusing (sessionID : Bytes) (handled : Time)
  | cascading (k : ℕ)
  | answered
  | updating (ids : List UUID)
  | committed
  | aborted
  deriving DecidableEq

/-- A transaction: the row that it validated, the advisory lock that it holds, and what it wrote.
The rows of its writes are locked for the others. -/
structure Tx where
  job : Job
  stage : Stage
  row : Option RefreshRow
  advisory : Option Bytes
  writes : List (UUID × Write)
  inserts : List RefreshRow
  deriving DecidableEq

namespace Tx

def new (job : Job) : Tx := ⟨job, .begun, none, none, [], []⟩

def finish (tx : Tx) (stage : Stage) : Tx := ⟨tx.job, stage, none, none, [], []⟩

def isEnded (tx : Tx) : Bool := tx.stage = .committed ∨ tx.stage = .aborted

def flush (tx : Tx) (t : RefreshTable) : RefreshTable := t.map (writtenBy tx.writes) ++ tx.inserts

end Tx

structure DB where
  table : RefreshTable
  txs : List Tx
  deriving DecidableEq

namespace DB

def rowFree (d : DB) (k : ℕ) (id : UUID) : Bool :=
  d.txs.zipIdx.all fun x ↦ x.2 = k ∨ id ∉ x.1.writes.map Prod.fst

def sessionFree (d : DB) (k : ℕ) (sessionID : Bytes) : Bool :=
  d.txs.zipIdx.all fun x ↦ x.2 = k ∨ x.1.advisory ≠ some sessionID

end DB

inductive Statement
  | select
  | lock
  | reread (checked handled : Time)
  | retry
  | insert (now : Time) (id : UUID) (p : Pair)
  | mark
  | resume
  | snapshot
  | update (id : UUID)

namespace Tx

variable (env : PGEnv)

/-- `selectBySelectorSQL` after the advisory lock, and what `validateRow` makes of the row. -/
def reread (tx : Tx) (t : RefreshTable) (sel ver : Bytes) (checked handled : Time) : Tx :=
  match t.selectBySelector sel with
  | none => { tx with stage := .answered }
  | some row =>
    if RefreshTable.checkBasicValidity env row ver checked = false then
      { tx with stage := .answered }
    else
      match row.rotatedAt with
      | none => { tx with stage := .validated handled, row := some row }
      | some rotated =>
        if env.policy.graceMaxReuses ≤ row.usedTimes ∨ env.policy.reuseInterval < handled - rotated
        then { tx with stage := .reusing row.sessionID handled }
        else { tx with stage := .validated handled, row := some row }

/-- `insertRowSQL` for the child, which the others see after the commit. -/
def insert (tx : Tx) (t : RefreshTable) (row : RefreshRow) (now : Time) (id : UUID) (p : Pair) :
    Option Tx :=
  let child : RefreshRow :=
    .new env.toEnv id (some row.id) row.sessionID row.subjectID row.authzEpochAtIssue now p
  if (t.insertRow env child).isSome then
    some { tx with
      stage := if row.rotatedAt.isNone then .inserted now else .answered
      inserts := [child] }
  else none

/-- An `UPDATE` of the row `id`. Its condition is evaluated on the committed row once the row is
free: a transaction that wrote it has ended by then. -/
def update (tx : Tx) (t : RefreshTable) (id : UUID) (p : RefreshRow → Bool) (w : Write)
    (stage : Stage) : Tx :=
  if t.any (fun r ↦ r.id = id ∧ p r = true) then
    { tx with stage := stage, writes := tx.writes ++ [(id, w)] }
  else { tx with stage := stage }

/-- One statement of the transaction `k`; `none` where it is not the next one or has to wait. A
statement that fails is an abort. -/
def execute (d : DB) (k : ℕ) (tx : Tx) : Statement → Option Tx
  | .select =>
    match tx.job, tx.stage with
    | .rotate sel _, .begun =>
      match d.table.selectBySelector sel with
      | none => some { tx with stage := .answered }
      | some row => some { tx with stage := .found row.sessionID }
    | _, _ => none
  | .lock =>
    match tx.stage with
    | .found sessionID =>
      if d.sessionFree k sessionID then
        some { tx with stage := .locked, advisory := some sessionID }
      else none
    | _ => none
  | .reread checked handled =>
    match tx.job, tx.stage with
    | .rotate sel ver, .locked => some (tx.reread env d.table sel ver checked handled)
    | _, _ => none
  | .retry =>
    match tx.stage, tx.row with
    | .validated handled, some row =>
      if row.rotatedAt.isSome ∧ d.rowFree k row.id ∧ row.usedTimes < maxInt32 then
        some (tx.update d.table row.id (fun _ ↦ true) (.graceUsed handled) .retried)
      else none
    | _, _ => none
  | .insert now id p =>
    match tx.stage, tx.row with
    | .validated _, some row =>
      if row.rotatedAt.isNone then tx.insert env d.table row now id p else none
    | .retried, some row => tx.insert env d.table row now id p
    | _, _ => none
  | .mark =>
    match tx.stage, tx.row with
    | .inserted now, some row =>
      if d.rowFree k row.id then
        some (tx.update d.table row.id (fun r ↦ r.rotatedAt.isNone) (.rotated now) .answered)
      else none
    | _, _ => none
  | .resume =>
    match tx.stage with
    | .cascading j =>
      if (d.txs[j]?.map Tx.stage) = some .committed then
        some { tx with stage := .answered } else none
    | _ => none
  | .snapshot =>
    match tx.job, tx.stage with
    | .revoke target _, .begun =>
      let ids := (d.table.filter fun r ↦ target.covers r && r.revokedAt.isNone).map RefreshRow.id
      some { tx with stage := .updating ids }
    | _, _ => none
  | .update id =>
    match tx.job, tx.stage with
    | .revoke target now, .updating ids =>
      if id ∈ ids ∧ d.rowFree k id then
        some (tx.update d.table id (fun r ↦ target.covers r && r.revokedAt.isNone) (.revoked now)
          (.updating (ids.filter (· ≠ id))))
      else none
    | _, _ => none

end Tx

/-- What happens next: a transaction begins, executes a statement, revokes a session on a connection
of its own, commits, or rolls back. -/
inductive Action
  | start (job : Job)
  | execute (k : ℕ) (stmt : Statement)
  | cascade (k : ℕ)
  | commit (k : ℕ)
  | abort (k : ℕ)

namespace DB

variable (env : PGEnv)

def step (d : DB) : Action → Option DB
  | .start job => some { d with txs := d.txs ++ [.new job] }
  | .execute k stmt => do
    let tx ← d.txs[k]?
    let tx' ← tx.execute env d k stmt
    return { d with txs := d.txs.set k tx' }
  | .cascade k => do
    let tx ← d.txs[k]?
    match tx.stage with
    | .reusing sessionID handled =>
      some { d with txs := d.txs.set k { tx with stage := .cascading d.txs.length } ++
        [.new (.revoke (.session sessionID) handled)] }
    | _ => none
  | .commit k => do
    let tx ← d.txs[k]?
    if tx.stage = .answered ∨ tx.stage = .updating [] then
      some ⟨tx.flush d.table, d.txs.set k (tx.finish .committed)⟩
    else none
  | .abort k => do
    let tx ← d.txs[k]?
    if tx.isEnded then none else some { d with txs := d.txs.set k (tx.finish .aborted) }

end DB

end GoCell.Refresh
