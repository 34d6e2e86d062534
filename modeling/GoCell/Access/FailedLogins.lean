import GoCell.Access.Lockout

namespace GoCell.Access

open Foundation Kernel List

section Runs

/-- Each failure lies within the window of the one before it, of which the time is known by
`seen`. -/
def Consecutive (seen : Time → Time) (window : Duration) (times : List Time) : Prop :=
  times.IsChain fun a b ↦ b - seen a ≤ window

instance (seen : Time → Time) (window : Duration) (times : List Time) :
    Decidable (Consecutive seen window times) :=
  inferInstanceAs (Decidable (times.IsChain _))

/-- The longest run of consecutive failures that ends with the last one. -/
structure CurrentRun (seen : Time → Time) (window : Duration) (times run : List Time) : Prop where
  suffix : run <:+ times
  consecutive : Consecutive seen window run
  longest : ∀ run', run' <:+ times → Consecutive seen window run' → run'.length ≤ run.length

/-- The columns of a row after failures since the last reset. -/
structure Counted (seen : Time → Time) (window : Duration) (times : List Time) (count : ℤ)
    (lastFailedAt : Option Time) : Prop where
  last : lastFailedAt = times.getLast?.map seen
  run : ∃ run, CurrentRun seen window times run ∧ count = run.length

def nextCount (window : Duration) (now : Time) (count : ℤ) : Option Time → ℤ
  | none => 1
  | some last => if window < now - last then 1 else count + 1

variable {seen : Time → Time} {window : Duration} {times run : List Time} {last now : Time}

theorem consecutive_concat_iff (h : run <:+ times ++ [last]) :
    Consecutive seen window (run ++ [now]) ↔
      Consecutive seen window run ∧ (run ≠ [] → now - seen last ≤ window) := by
  obtain rfl | ⟨rest, rfl, -⟩ := suffix_concat_iff.1 h
  · simp [Consecutive]
  · rw [Consecutive, isChain_append]
    simp [Consecutive]

theorem CurrentRun.restart (times : List Time) (h : window < now - seen last) :
    CurrentRun seen window (times ++ [last] ++ [now]) [now] := by
  refine ⟨suffix_append _ _, isChain_singleton now, fun run' hsuffix hrun ↦ ?_⟩
  obtain rfl | ⟨rest, rfl, hrest⟩ := suffix_concat_iff.1 hsuffix
  · exact Nat.zero_le _
  · have hnil : rest = [] := by
      by_contra hne
      exact absurd (((consecutive_concat_iff hrest).1 hrun).2 hne) (not_le.2 h)
    rw [hnil]
    rfl

theorem CurrentRun.extend (h : CurrentRun seen window (times ++ [last]) run)
    (hwithin : now - seen last ≤ window) :
    CurrentRun seen window (times ++ [last] ++ [now]) (run ++ [now]) := by
  refine ⟨suffix_concat_iff.2 (.inr ⟨run, rfl, h.suffix⟩),
    (consecutive_concat_iff h.suffix).2 ⟨h.consecutive, fun _ ↦ hwithin⟩,
    fun run' hsuffix hrun ↦ ?_⟩
  obtain rfl | ⟨rest, rfl, hrest⟩ := suffix_concat_iff.1 hsuffix
  · exact Nat.zero_le _
  · have hle := h.longest rest hrest ((consecutive_concat_iff hrest).1 hrun).1
    simpa using hle

theorem CurrentRun.exists_iff (h : CurrentRun seen window times run) (n : ℕ) :
    (∃ recent, recent <:+ times ∧ recent.length = n ∧ Consecutive seen window recent) ↔
      n ≤ run.length := by
  constructor
  · rintro ⟨recent, hsuffix, rfl, hrecent⟩
    exact h.longest recent hsuffix hrecent
  · intro hle
    refine ⟨run.drop (run.length - n), (drop_suffix _ _).trans h.suffix, ?_, h.consecutive.drop _⟩
    rw [length_drop]
    omega

theorem Counted.reset (seen : Time → Time) (window : Duration) : Counted seen window [] 0 none :=
  ⟨rfl, [], ⟨suffix_rfl, .nil, fun _ h _ ↦ h.length_le⟩, rfl⟩

/-- The next failure starts a run or goes on with the one before. -/
theorem Counted.failure {count : ℤ} {lastFailedAt : Option Time}
    (h : Counted seen window times count lastFailedAt) (now : Time) :
    Counted seen window (times ++ [now]) (nextCount window now count lastFailedAt)
      (some (seen now)) := by
  obtain ⟨rfl, run, hrun, rfl⟩ := h
  refine ⟨by rw [getLast?_concat]; rfl, ?_⟩
  cases times using reverseRecOn with
  | nil => exact ⟨[now], ⟨suffix_rfl, isChain_singleton now, fun _ h _ ↦ h.length_le⟩, rfl⟩
  | append_singleton times last =>
    rw [getLast?_concat]
    by_cases hstale : window < now - seen last
    · exact ⟨[now], .restart times hstale, by simp [nextCount, hstale]⟩
    · exact ⟨run ++ [now], hrun.extend (not_lt.1 hstale), by simp [nextCount, hstale]⟩

theorem Counted.threshold_le_iff {count : ℤ} {lastFailedAt : Option Time}
    (h : Counted seen window times count lastFailedAt) (threshold : ℤ) :
    threshold ≤ count ↔ ∃ recent, recent <:+ times ∧ recent.length = threshold.toNat ∧
      Consecutive seen window recent := by
  obtain ⟨run, hrun, rfl⟩ := h.run
  rw [hrun.exists_iff, Int.toNat_le]

end Runs

namespace UserRow

variable (u : UserRow)

theorem registerFailedLogin_spec {window : Duration} (hmin : 0 < window)
    (hmax : window < 2 ^ 63 - 1) (lockoutTTL : Duration) (threshold : ℤ) (now : Time) :
    let res := u.registerFailedLogin now window lockoutTTL threshold
    res.1.lastFailedAt = some now ∧
      res.1.failedLoginCount = nextCount window now u.failedLoginCount u.lastFailedAt ∧
      (res.2 = true ↔ threshold ≤ res.1.failedLoginCount) := by
  have hsub : ∀ last, window < timeSub now last ↔ window < now - last := fun last ↦
    lt_timeSub_iff (hmin.le.trans' (by decide)) hmax
  unfold registerFailedLogin nextCount
  cases u.lastFailedAt with
  | none => grind
  | some last => grind

def afterFailures (window lockoutTTL : Duration) (threshold : ℤ) (times : List Time) : UserRow :=
  after (fun u now ↦ u.registerFailedLogin now window lockoutTTL threshold)
    u.resetFailedLogins times

theorem afterFailures_counted {window : Duration} (hmin : 0 < window) (hmax : window < 2 ^ 63 - 1)
    (lockoutTTL : Duration) (threshold : ℤ) (times : List Time) :
    Counted id window times (u.afterFailures window lockoutTTL threshold times).failedLoginCount
      (u.afterFailures window lockoutTTL threshold times).lastFailedAt := by
  induction times using reverseRecOn with
  | nil => exact .reset id window
  | append_singleton times now ih =>
    obtain ⟨hlast, hcount, -⟩ := (u.afterFailures window lockoutTTL threshold
      times).registerFailedLogin_spec hmin hmax lockoutTTL threshold now
    have hstep : u.afterFailures window lockoutTTL threshold (times ++ [now]) =
        ((u.afterFailures window lockoutTTL threshold times).registerFailedLogin now window
          lockoutTTL threshold).1 := by
      rw [afterFailures, Foundation.after, foldl_append]
      rfl
    rw [hstep, hlast, hcount]
    exact ih.failure now

variable {u}

/-- One recorded failure of an account that is not locked yet. -/
theorem recordFailure_counted {times : List Time} (hactive : u.status = .active)
    (h : Counted pgTime staleWindow times u.failedLoginCount u.lastFailedAt)
    (hopen : u.failedLoginCount < Access.threshold) (now : Time) :
    ∃ row, u.recordFailure now = .ok row ∧
      Counted pgTime staleWindow (times ++ [now]) row.failedLoginCount row.lastFailedAt ∧
      row.status = if Access.threshold ≤ row.failedLoginCount then .locked else .active := by
  obtain ⟨hlast, hcount, hlock⟩ := u.registerFailedLogin_spec (by decide : 0 < staleWindow)
    (by decide) Access.lockoutTTL Access.threshold now
  have hnext := h.failure now
  obtain ⟨run, -, hrun⟩ := h.run
  have hbounds : ¬(nextCount staleWindow now u.failedLoginCount u.lastFailedAt < 0 ∨
      maxFailedLoginCount < nextCount staleWindow now u.failedLoginCount u.lastFailedAt) := by
    simp only [Access.threshold, maxFailedLoginCount, nextCount] at hopen ⊢
    split
    · omega
    · split_ifs <;> omega
  rw [hcount] at hlock
  simp only [recordFailure, hactive, ne_eq, not_true_eq_false, if_false,
    updateLockoutFields, hcount, hlast, if_neg hbounds, Except.map, Option.map_some]
  refine ⟨_, rfl, ?_⟩
  by_cases hlocks : Access.threshold ≤ nextCount staleWindow now u.failedLoginCount u.lastFailedAt
  · rw [if_pos (hlock.2 hlocks)]
    exact ⟨hnext, (if_pos hlocks).symm⟩
  · rw [if_neg (mt hlock.1 hlocks)]
    exact ⟨hnext, (if_neg hlocks).symm⟩

/-- The rows that recorded failures reach while the account is not locked. -/
theorem after_failures {times : List Time}
    (hopen : (after Call.run u.resetFailedLogins (times.map failedLogin)).status = .active) :
    Counted pgTime staleWindow times
        (after Call.run u.resetFailedLogins (times.map failedLogin)).failedLoginCount
        (after Call.run u.resetFailedLogins (times.map failedLogin)).lastFailedAt ∧
      (after Call.run u.resetFailedLogins (times.map failedLogin)).failedLoginCount <
        Access.threshold := by
  induction times using reverseRecOn with
  | nil => exact ⟨.reset _ _, (by decide : (0 : ℤ) < Access.threshold)⟩
  | append_singleton times now ih =>
    have hstep : after Call.run u.resetFailedLogins ((times ++ [now]).map failedLogin) =
        ((failedLogin now).run (after Call.run u.resetFailedLogins (times.map failedLogin))).1 := by
      rw [map_append, Foundation.after, foldl_append]
      rfl
    rw [hstep] at hopen ⊢
    generalize after Call.run u.resetFailedLogins (times.map failedLogin) = row at *
    by_cases hrow : row.status = .active
    · obtain ⟨hcounted, hlt⟩ := ih hrow
      obtain ⟨row', hrecord, hcounted', hstatus⟩ := recordFailure_counted hrow hcounted hlt now
      simp only [Call.run, failedLogin, hrecord, settleBestEffort] at hopen ⊢
      refine ⟨hcounted', not_le.1 fun hle ↦ ?_⟩
      rw [hstatus, if_pos hle] at hopen
      cases hopen
    · have hsame : row.recordFailure now = .ok row := if_pos hrow
      simp only [Call.run, failedLogin, hsame, settleBestEffort] at hopen
      exact absurd hopen hrow

/-- A failure locks the account exactly when it and the `threshold - 1` failures before it, since
the last reset, are consecutive; the counter is the length of the run. Behind `RecordFailure` the
time of the failure before is the stored one, in microseconds. -/
theorem failures_counted (u : UserRow) :
    (∀ (window lockoutTTL : Duration) (threshold : ℤ), 0 < window → window < 2 ^ 63 - 1 →
      ∀ (times : List Time) (now : Time),
        let res := (u.afterFailures window lockoutTTL threshold times).registerFailedLogin now
          window lockoutTTL threshold
        (res.2 = true ↔ ∃ recent, recent <:+ times ++ [now] ∧
            recent.length = threshold.toNat ∧ Consecutive id window recent) ∧
          ∃ run, CurrentRun id window (times ++ [now]) run ∧
            res.1.failedLoginCount = run.length) ∧
    ∀ (times : List Time) (now : Time),
      (after Call.run u.resetFailedLogins (times.map failedLogin)).status = .active →
      let res := (failedLogin now).run (after Call.run u.resetFailedLogins (times.map failedLogin))
      res.2 = .done ∧
        (res.1.status = .locked ↔ ∃ recent, recent <:+ times ++ [now] ∧
          recent.length = Access.threshold.toNat ∧ Consecutive pgTime staleWindow recent) ∧
        ∃ run, CurrentRun pgTime staleWindow (times ++ [now]) run ∧
          res.1.failedLoginCount = run.length := by
  constructor
  · intro window lockoutTTL threshold hmin hmax times now
    obtain ⟨-, hcount, hlock⟩ := (u.afterFailures window lockoutTTL threshold
      times).registerFailedLogin_spec hmin hmax lockoutTTL threshold now
    have hcounted := (u.afterFailures_counted hmin hmax lockoutTTL threshold times).failure now
    dsimp only
    rw [hlock, hcount]
    exact ⟨hcounted.threshold_le_iff threshold, hcounted.run⟩
  · intro times now hopen
    obtain ⟨hcounted, hlt⟩ := after_failures hopen
    obtain ⟨row, hrecord, hcounted', hstatus⟩ := recordFailure_counted hopen hcounted hlt now
    simp only [Call.run, failedLogin, hrecord, settleBestEffort, true_and]
    refine ⟨?_, hcounted'.run⟩
    rw [hstatus, ← hcounted'.threshold_le_iff Access.threshold]
    split_ifs with hle <;> simp [hle]

theorem failures_counted_typing :
    (({} : UserRow).afterFailures staleWindow Access.lockoutTTL 2 [0]).failedLoginCount = 1 ∧
      ((({} : UserRow).afterFailures staleWindow Access.lockoutTTL 2 [0]).registerFailedLogin 1000
        staleWindow Access.lockoutTTL 2).2 = true :=
  ⟨by decide, ((failures_counted {}).1 staleWindow Access.lockoutTTL 2 (by decide) (by decide) [0]
    1000).1.2 ⟨[0, 1000], by decide, rfl, by decide⟩⟩

/-- Five failures, each exactly a window after the one before, are not a run behind `RecordFailure`,
where the first is stored a nanosecond early. The longest window there is has no end. -/
theorem failures_miscounted :
    Consecutive id staleWindow [1, staleWindow + 1, 2 * staleWindow + 1, 3 * staleWindow + 1,
        4 * staleWindow + 1] ∧
      (after Call.run {} ([1, staleWindow + 1, 2 * staleWindow + 1, 3 * staleWindow + 1,
        4 * staleWindow + 1].map failedLogin)).failedLoginCount = 1 ∧
      ¬Consecutive id (2 ^ 63 - 1) [0, 2 ^ 63] ∧
      ((({} : UserRow).afterFailures (2 ^ 63 - 1) Access.lockoutTTL 2 [0]).registerFailedLogin
        (2 ^ 63) (2 ^ 63 - 1) Access.lockoutTTL 2).2 = true := by
  decide

end UserRow

end GoCell.Access
