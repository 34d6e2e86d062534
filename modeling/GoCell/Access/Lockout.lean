import GoCell.Foundation.Runs
import GoCell.Kernel.Timestamps

namespace GoCell.Access

open Foundation Kernel

section Model

inductive UserStatus
  | active
  | suspended
  | locked
  deriving DecidableEq

structure UserRow where
  status : UserStatus := .active
  authzEpoch : ℤ := 1
  failedLoginCount : ℤ := 0
  lastFailedAt : Option Time := none
  lockedUntil : Option Time := none
  deriving DecidableEq

def threshold : ℤ := 5

def staleWindow : Duration := 15 * 60000000000

def lockoutTTL : Duration := 15 * 60000000000

def maxFailedLoginCount : ℤ := 2 ^ 30

def errLastAdmin : Err :=
  ⟨.permissionDenied, .authLastAdminProtected, "cannot remove the last effective admin", []⟩

inductive Mutation
  | lockUser
  | activateUser
  deriving DecidableEq

def Mutation.invalidates : Mutation → Bool
  | .lockUser => true
  | .activateUser => false

def Mutation.status : Mutation → UserStatus
  | .lockUser => .locked
  | .activateUser => .active

namespace UserRow

def registerFailedLogin (u : UserRow) (now : Time) (staleWindow lockoutTTL : Duration)
    (threshold : ℤ) : UserRow × Bool :=
  let count :=
    match u.lastFailedAt with
    | none => 1
    | some last => if staleWindow < timeSub now last then 1 else u.failedLoginCount + 1
  if threshold ≤ count then
    ({ u with
        failedLoginCount := count
        lastFailedAt := some now
        lockedUntil := some (now + lockoutTTL) }, true)
  else ({ u with failedLoginCount := count, lastFailedAt := some now }, false)

def resetFailedLogins (u : UserRow) : UserRow :=
  { u with failedLoginCount := 0, lastFailedAt := none, lockedUntil := none }

def updateLockoutFields (row user : UserRow) : Except Err UserRow :=
  if user.failedLoginCount < 0 ∨ maxFailedLoginCount < user.failedLoginCount then
    .error ⟨.internal, .internal, "user_repo: failed_login_count out of range", []⟩
  else .ok
    { row with
      failedLoginCount := user.failedLoginCount
      lastFailedAt := user.lastFailedAt.map pgTime
      lockedUntil := user.lockedUntil.map pgTime }

variable (row : UserRow)

/-- `updateLockStateSQL`: only an activation clears the lockout columns. -/
def updateLockState (status : UserStatus) : UserRow :=
  { row with
    status := status
    failedLoginCount := if status = .active then 0 else row.failedLoginCount
    lastFailedAt := if status = .active then none else row.lastFailedAt
    lockedUntil := if status = .active then none else row.lockedUntil }

/-- `BumpAuthzEpoch` is the part of the invalidation that touches the row. -/
def applyInTx (m : Mutation) : UserRow :=
  let row := row.updateLockState m.status
  if m.invalidates then { row with authzEpoch := row.authzEpoch + 1 } else row

def recordFailure (now : Time) : Except Err UserRow :=
  if row.status ≠ .active then .ok row
  else
    let (user, shouldLock) := row.registerFailedLogin now staleWindow lockoutTTL threshold
    (row.updateLockoutFields user).map fun row ↦
      if shouldLock then row.applyInTx .lockUser else row

def recordSuccess : Except Err UserRow :=
  if row.failedLoginCount = 0 ∧ row.lastFailedAt = none ∧ row.lockedUntil = none then .ok row
  else row.updateLockoutFields row.resetFailedLogins

def tryLazyUnlock (now : Time) : UserRow × Bool :=
  if row.status ≠ .locked then (row, false)
  else
    match row.lockedUntil with
    | none => (row, false)
    | some deadline => if now < deadline then (row, false) else (row.applyInTx .activateUser, true)

end UserRow

/-- A step of an operation fails: a statement, after which the database only rolls back, or one
outside of the database. -/
structure Fault where
  statement : Bool
  err : Err

inductive Op
  | recordFailure
  | recordSuccess
  | tryLazyUnlock
  /-- `Lock` of an administrator; the guard reads the status in a transaction before. -/
  | lock (read : UserStatus) (lastAdmin : Bool)
  /-- `Unlock` of an administrator. -/
  | unlock
  deriving DecidableEq

structure Call where
  op : Op
  now : Time
  fault : Option Fault := none

inductive Answer
  | done
  | unlocked (b : Bool)
  | failed (e : Err)
  deriving DecidableEq

def settle (row written : UserRow) (answer : Answer) : Option Fault → UserRow × Answer
  | none => (written, answer)
  | some fault => (row, .failed fault.err)

/-- The end of a transaction of the login, which commits although the recording failed, unless the
database refuses to. -/
def settleBestEffort (row : UserRow) (written : Except Err UserRow) :
    Option Fault → UserRow × Answer
  | none =>
    match written with
    | .ok row' => (row', .done)
    | .error e => (row, .failed e)
  | some fault =>
    if fault.statement then (row, .failed fault.err)
    else ((written.toOption.getD row), .failed fault.err)

def Call.run (row : UserRow) (c : Call) : UserRow × Answer :=
  match c.op with
  | .recordFailure => settleBestEffort row (row.recordFailure c.now) c.fault
  | .recordSuccess => settleBestEffort row row.recordSuccess c.fault
  | .tryLazyUnlock =>
    settle row (row.tryLazyUnlock c.now).1 (.unlocked (row.tryLazyUnlock c.now).2) c.fault
  | .lock read lastAdmin =>
    if lastAdmin = true ∧ read = .active then (row, .failed errLastAdmin)
    else settle row (row.applyInTx .lockUser) .done c.fault
  | .unlock => settle row (row.applyInTx .activateUser) .done c.fault

end Model

section AdminLock

structure Held (row : UserRow) : Prop where
  locked : row.status = .locked
  endless : row.lockedUntil = none

def Forward (now : Time) (calls : List Call) : Prop :=
  (now :: calls.map Call.now).Pairwise (· ≤ ·)

theorem settle_cases {P : UserRow → Prop} {row written : UserRow} {answer : Answer}
    {fault : Option Fault} (hrow : P row) (hwritten : P written) :
    P (settle row written answer fault).1 := by
  cases fault with
  | none => exact hwritten
  | some fault => exact hrow

theorem settleBestEffort_cases {P : UserRow → Prop} {row : UserRow} {written : Except Err UserRow}
    {fault : Option Fault} (hrow : P row) (hwritten : ∀ row', written = .ok row' → P row') :
    P (settleBestEffort row written fault).1 := by
  cases written with
  | error e =>
    cases fault with
    | none => exact hrow
    | some fault =>
      rw [settleBestEffort]
      split
      · exact hrow
      · exact hrow
  | ok row' =>
    cases fault with
    | none => exact hwritten row' rfl
    | some fault =>
      rw [settleBestEffort]
      split
      · exact hrow
      · exact hwritten row' rfl

variable {row : UserRow}

theorem Held.lock (h : row.lockedUntil = none) : Held (row.applyInTx .lockUser) := by
  constructor
  · rfl
  · simpa [UserRow.applyInTx, UserRow.updateLockState, Mutation.status,
      Mutation.invalidates] using h

theorem Held.recordSuccess (h : Held row) {row' : UserRow} (hok : row.recordSuccess = .ok row') :
    Held row' := by
  unfold UserRow.recordSuccess UserRow.updateLockoutFields at hok
  split at hok
  · cases hok
    exact h
  · split at hok
    · cases hok
    · cases hok
      exact ⟨h.locked, rfl⟩

theorem Held.step (h : Held row) {c : Call} (hop : c.op ≠ .unlock) : Held (c.run row).1 := by
  unfold Call.run
  cases hcall : c.op with
  | recordFailure =>
    refine settleBestEffort_cases h fun row' hok ↦ ?_
    rw [UserRow.recordFailure, h.locked] at hok
    cases hok
    exact h
  | recordSuccess => exact settleBestEffort_cases h fun row' hok ↦ h.recordSuccess hok
  | tryLazyUnlock =>
    refine settle_cases h ?_
    rw [UserRow.tryLazyUnlock, h.locked, h.endless]
    exact h
  | lock =>
    simp only
    split
    · exact h
    · exact settle_cases h (Held.lock h.endless)
  | unlock => exact absurd hcall hop

theorem Held.after (h : Held row) {calls : List Call} (hops : ∀ c ∈ calls, c.op ≠ .unlock) :
    Held (after Call.run row calls) :=
  after_invariant_of_mem _ Held calls row (fun _ c hc hheld ↦ hheld.step (hops c hc)) h

theorem run_lock {lock : Call} {read : UserStatus} {lastAdmin : Bool}
    (hop : lock.op = .lock read lastAdmin) (hdone : (lock.run row).2 = .done) :
    (lock.run row).1 = row.applyInTx .lockUser := by
  simp only [Call.run, hop] at hdone ⊢
  split at hdone
  · cases hdone
  · next hguard =>
    rw [if_neg hguard]
    cases hfault : lock.fault with
    | none => rfl
    | some fault =>
      rw [hfault] at hdone
      cases hdone

theorem tryLazyUnlock_lock {deadline now : Time} (h : row.lockedUntil = some deadline)
    (hnow : deadline ≤ now) :
    ((row.applyInTx .lockUser).tryLazyUnlock now).1.status = .active := by
  have hlocked : (row.applyInTx .lockUser).status = .locked := rfl
  have hdeadline : (row.applyInTx .lockUser).lockedUntil = some deadline := by
    simpa [UserRow.applyInTx, UserRow.updateLockState, Mutation.status,
      Mutation.invalidates] using h
  rw [UserRow.tryLazyUnlock, hlocked, hdeadline]
  simp only [ne_eq, not_true_eq_false, if_false, if_neg (not_lt.2 hnow)]
  rfl

/-- An administrator's lock lasts until an administrator's unlock exactly when the account had no
deadline when the lock was written. -/
theorem admin_lock_lasts_iff {start : UserRow} {before : List Call} {lock : Call}
    {read : UserStatus} {lastAdmin : Bool} (hop : lock.op = .lock read lastAdmin)
    (hdone : (lock.run (after Call.run start before)).2 = .done) :
    (∀ calls, Forward lock.now calls → (∀ c ∈ calls, c.op ≠ .unlock) →
        (after Call.run (lock.run (after Call.run start before)).1 calls).status ≠ .active) ↔
      (after Call.run start before).lockedUntil = none := by
  rw [run_lock hop hdone]
  constructor
  · intro hlasts
    cases hdeadline : (after Call.run start before).lockedUntil with
    | none => rfl
    | some deadline =>
      -- the login after the deadline
      refine absurd ?_ (hlasts [⟨.tryLazyUnlock, max lock.now deadline, none⟩] ?_ ?_)
      · exact tryLazyUnlock_lock hdeadline (le_max_right _ _)
      · simp [Forward]
      · simp
  · intro hnone calls _ hops
    rw [((Held.lock hnone).after hops).locked]
    exact nofun

def failedLogin (now : Time) : Call := ⟨.recordFailure, now, none⟩

def adminLock (now : Time) : Call := ⟨.lock .active false, now, none⟩

theorem admin_lock_lasts_iff_mistyped : (adminLock 1).op = .lock .active false ∧
      ((∀ calls, Forward (adminLock 1).now calls → (∀ c ∈ calls, c.op ≠ .unlock) →
          (after Call.run ((adminLock 1).run (after Call.run {} [failedLogin 0])).1 calls).status
            ≠ .active) ↔
        (after Call.run {} [failedLogin 0]).lockedUntil = none) :=
  ⟨rfl, admin_lock_lasts_iff rfl (by decide)⟩

/-- Five failures lock the account for a quarter of an hour. The administrator locks it as well,
and the first login after that quarter of an hour activates it. -/
theorem admin_lock_expires :
    ¬∀ (start : UserRow) (before : List Call) (lock : Call) (read : UserStatus) (lastAdmin : Bool),
      lock.op = .lock read lastAdmin → (lock.run (after Call.run start before)).2 = .done →
      ∀ calls, Forward lock.now calls → (∀ c ∈ calls, c.op ≠ .unlock) →
        (after Call.run (lock.run (after Call.run start before)).1 calls).status ≠ .active := by
  intro h
  refine h {} ([0, 1000, 2000, 3000, 4000].map failedLogin) ⟨.lock .locked false, 5000, none⟩
    .locked false rfl (by decide) [⟨.tryLazyUnlock, lockoutTTL + 4000, none⟩] ?_ ?_ (by decide)
  · simp [Forward, lockoutTTL]
  · simp

end AdminLock

end GoCell.Access
