import GoCell.Foundation.Runs
import GoCell.Kernel.Encodings
import GoCell.Kernel.Strings

namespace GoCell.Refresh

open Foundation Kernel

def selectorLen : ℕ := 16

def verifierLen : ℕ := 32

def wireLen : ℕ := 22 + 1 + 43

structure Pair where
  selector : Bytes
  verifier : Bytes
  selector_length : selector.length = selectorLen
  verifier_length : verifier.length = verifierLen
  deriving DecidableEq

def encodeOpaque (selector verifier : Bytes) : Bytes :=
  rawURLEncode selector ++ 0x2e :: rawURLEncode verifier

def parseOpaque (s : Bytes) : Option (Bytes × Bytes) := do
  guard (s.length = wireLen)
  let (sel, ver) ← cut 0x2e s
  let selB ← rawURLDecode sel
  let verB ← rawURLDecode ver
  guard (selB.length = selectorLen ∧ verB.length = verifierLen)
  return (selB, verB)

structure Policy where
  reuseInterval : Duration
  maxAge : Duration
  maxIdle : Duration
  graceMaxReuses : ℤ
  maxAge_pos : 0 < maxAge
  reuseInterval_nonneg : 0 ≤ reuseInterval
  maxIdle_pos : 0 < maxIdle
  graceMaxReuses_pos : 0 < graceMaxReuses

abbrev UUID := ℕ

structure Token where
  id : UUID
  sessionID : Bytes
  subjectID : Bytes
  createdAt : Time
  expiresAt : Time
  authzEpochAtIssue : ℤ
  deriving DecidableEq

/-- A row. The times from `rotatedAt` on are zero until they are set. -/
structure TokenRecord where
  id : UUID
  parentID : UUID
  sessionID : Bytes
  subjectID : Bytes
  selector : Bytes
  verifierHash : Bytes
  createdAt : Time
  expiresAt : Time
  idleExpiresAt : Time
  rotatedAt : Time
  revokedAt : Time
  firstUsedAt : Time
  usedTimes : ℤ
  authzEpochAtIssue : ℤ
  deriving DecidableEq

namespace TokenRecord

variable (r : TokenRecord)

def isRotated : Bool := r.rotatedAt ≠ 0

def isRevoked : Bool := r.revokedAt ≠ 0

def toToken : Token :=
  ⟨r.id, r.sessionID, r.subjectID, r.createdAt, r.expiresAt, r.authzEpochAtIssue⟩

def revoke (now : Time) (r : TokenRecord) : TokenRecord :=
  if r.isRevoked then r else { r with revokedAt := now }

def effectiveExpiry : Time :=
  if r.idleExpiresAt < r.expiresAt then r.idleExpiresAt else r.expiresAt

end TokenRecord

structure Env where
  policy : Policy
  sha256 : Bytes → Bytes

/-- The row that `Issue` and `Rotate` add. -/
def newRow (env : Env) (id parentID : UUID) (sessionID subjectID : Bytes) (epoch : ℤ) (now : Time)
    (p : Pair) : TokenRecord where
  id := id
  parentID := parentID
  sessionID := sessionID
  subjectID := subjectID
  selector := p.selector
  verifierHash := env.sha256 p.verifier
  createdAt := now
  expiresAt := now + env.policy.maxAge
  idleExpiresAt := now + env.policy.maxIdle
  rotatedAt := 0
  revokedAt := 0
  firstUsedAt := 0
  usedTimes := 0
  authzEpochAtIssue := epoch

structure Store where
  rows : List TokenRecord
  deriving DecidableEq

def errRejected : Err := ⟨.unauthenticated, .refreshTokenRejected, "refresh token rejected", []⟩

def errEpochRequired : Err :=
  validationFailed "refresh.Issue: authzEpochAtIssue required (non-zero)"

/-- What the methods return. `reused` is the error `ErrReused` together with the token of the row,
`unreadable` the error of the source of randomness. -/
inductive Answer
  | issued (wire : Bytes) (tok : Token)
  | peeked (tok : Token)
  | reused (tok : Token)
  | failed (e : Err)
  | unreadable
  | done
  | removed (n : ℕ)
  deriving DecidableEq

inductive Refusal
  | rejected
  | reused (r : TokenRecord)

namespace Store

def empty : Store := ⟨[]⟩

variable (s : Store)

def revokeWhere (p : TokenRecord → Bool) (now : Time) : Store :=
  ⟨s.rows.map fun r ↦ if p r then r.revoke now else r⟩

def revokeSession (sessionID : Bytes) (now : Time) : Store :=
  s.revokeWhere (fun r ↦ r.sessionID = sessionID) now

def revokeUser (subjectID : Bytes) (now : Time) : Store :=
  s.revokeWhere (fun r ↦ r.subjectID = subjectID) now

def findBySelector (sel : Bytes) : Option (TokenRecord × ℕ) :=
  s.rows.zipIdx.reverse.find? fun r ↦ r.1.selector = sel

variable (env : Env)

def issue (sessionID subjectID : Bytes) (epoch : ℤ) (now : Time) (id : UUID)
    (pair : Option Pair) : Store × Answer :=
  if epoch = 0 then (s, .failed errEpochRequired)
  else
    match pair with
    | none => (s, .unreadable)
    | some p =>
      let r := newRow env id 0 sessionID subjectID epoch now p
      (⟨s.rows ++ [r]⟩, .issued (encodeOpaque p.selector p.verifier) r.toToken)

def validatePresented (sel ver : Bytes) (now : Time) : Store × Except Refusal (TokenRecord × ℕ) :=
  match s.findBySelector sel with
  | none => (s, .error .rejected)
  | some (r, i) =>
    if env.sha256 ver ≠ r.verifierHash ∨ r.isRevoked = true ∨ r.expiresAt ≤ now ∨
        r.idleExpiresAt ≤ now then
      (s, .error .rejected)
    -- the grace retries are used up, or the grace window is over
    else if r.isRotated = true ∧ (env.policy.graceMaxReuses ≤ r.usedTimes ∨
        env.policy.reuseInterval < now - r.rotatedAt) then
      (s.revokeSession r.sessionID now, .error (.reused r))
    else (s, .ok (r, i))

def refuse : Refusal → Answer
  | .rejected => .failed errRejected
  | .reused r => .reused r.toToken

def peek (presented : Bytes) (now : Time) : Store × Answer :=
  match parseOpaque presented with
  | none => (s, .failed errRejected)
  | some (sel, ver) =>
    match s.validatePresented env sel ver now with
    | (s, .error e) => (s, refuse e)
    | (s, .ok (r, _)) => (s, .peeked r.toToken)

def rotatedParent (r : TokenRecord) (now : Time) : TokenRecord :=
  if r.isRotated then
    { r with
      firstUsedAt := if r.firstUsedAt = 0 then now else r.firstUsedAt
      usedTimes := r.usedTimes + 1 }
  else { r with rotatedAt := now }

/-- The clock is read at `checked` for the validation and at `now` for the child. -/
def rotate (presented : Bytes) (checked now : Time) (id : UUID) (pair : Option Pair) :
    Store × Answer :=
  match parseOpaque presented with
  | none => (s, .failed errRejected)
  | some (sel, ver) =>
    match s.validatePresented env sel ver checked with
    | (s, .error e) => (s, refuse e)
    | (s, .ok (r, i)) =>
      match pair with
      | none => (s, .unreadable)
      | some p =>
        let child := newRow env id r.id r.sessionID r.subjectID r.authzEpochAtIssue now p
        (⟨s.rows.set i (rotatedParent r now) ++ [child]⟩,
          .issued (encodeOpaque p.selector p.verifier) child.toToken)

def gc (olderThan : Time) : Store × Answer :=
  let kept := s.rows.filter fun r ↦ ¬r.effectiveExpiry < olderThan
  (⟨kept⟩, .removed (s.rows.length - kept.length))

end Store

inductive Call
  | issue (sessionID subjectID : Bytes) (epoch : ℤ) (now : Time) (id : UUID) (pair : Option Pair)
  | peek (presented : Bytes) (now : Time)
  | rotate (presented : Bytes) (checked now : Time) (id : UUID) (pair : Option Pair)
  | revokeSession (sessionID : Bytes) (now : Time)
  | revokeUser (subjectID : Bytes) (now : Time)
  | gc (olderThan : Time)

namespace Call

def run (env : Env) (s : Store) : Call → Store × Answer
  | issue sessionID subjectID epoch now id pair =>
    s.issue env sessionID subjectID epoch now id pair
  | peek presented now => s.peek env presented now
  | rotate presented checked now id pair => s.rotate env presented checked now id pair
  | revokeSession sessionID now => (s.revokeSession sessionID now, .done)
  | revokeUser subjectID now => (s.revokeUser subjectID now, .done)
  | gc olderThan => s.gc olderThan

def selector : Call → Option Bytes
  | issue _ _ _ _ _ pair | rotate _ _ _ _ pair => pair.map Pair.selector
  | _ => none

def presented : Call → Option Bytes
  | peek presented _ | rotate presented _ _ _ _ => some presented
  | _ => none

def revokedAt : Call → Time
  | peek _ now | rotate _ now _ _ _ | revokeSession _ now | revokeUser _ now => now
  | _ => 0

end Call

end GoCell.Refresh
