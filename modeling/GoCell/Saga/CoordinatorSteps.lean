import GoCell.Saga.Coordinator
import GoCell.Saga.JournalInvariant

namespace GoCell.Saga

open Foundation Kernel MemJournal List Option Coordinators

variable {j j' j'' : MemJournal} {k : DriveKey} {id : SafeID} {now : Time}

/-- What journal calls made under the key `k` do to the instance `id`. -/
@[grind intro] inductive Written (k : DriveKey) (j j' : MemJournal) (id : SafeID) : Prop
  | same (hrow : j'.row id = j.row id) (hlog : j'.log id = j.log id)
  | own (row row' : InstanceRow) (hrow : j.row id = some row) (hkey : k = (id, row.leaseID))
      (hrow' : j'.row id = some row') (hlease : row'.leaseID = row.leaseID ∨ row'.leaseID = "")
      (horigin : row'.inst.origin = row.inst.origin) (hlog : j.log id <+: j'.log id)

def Writes (k : DriveKey) (j j' : MemJournal) : Prop := ∀ id, Written k j j' id

theorem Writes.refl (k : DriveKey) (j : MemJournal) : Writes k j j := fun _ ↦ .same rfl rfl

theorem Writes.trans (h₁ : Writes k j j') (h₂ : Writes k j' j'') : Writes k j j'' := by
  intro id
  cases h₁ id with
  | same => cases h₂ id <;> grind -ring -linarith
  | own row _ hrow hkey _ _ _ hpre =>
    cases h₂ id with
    | same => grind -ring -linarith
    | own mid row'' _ _ h'' hlease' _ hpre' =>
      have hsame : mid.leaseID = row.leaseID := by grind -ring -linarith
      exact .own row row'' hrow hkey h'' (hsame ▸ hlease') (by grind -ring -linarith)
        (hpre.trans hpre')

theorem writes_append (j : MemJournal) (now : Time) (k : DriveKey) (e : Event) :
    Writes k j (j.append now k.1 k.2 e).1 := by
  intro id
  rcases j.append_cases now k.1 k.2 e with ⟨err, h⟩ | ⟨row, inst, hrow, hfenced, -, hproj, h⟩
  · rw [h]
    exact .same rfl rfl
  · have hlease := (fenced_iff.1 hfenced).2.1
    have horigin := applyProjection_origin hproj
    have hlog := prefix_append (j.log id)
    grind -ring -linarith

theorem writes_heartbeat (j : MemJournal) (now : Time) (k : DriveKey) (leaseDuration : Duration) :
    Writes k j (j.heartbeat now k.1 k.2 leaseDuration).1 := by
  intro id
  rcases j.heartbeat_cases now k.1 k.2 leaseDuration with ⟨r, h, -⟩ | ⟨row, hrow, hfenced, -, h⟩
  · rw [h]
    exact .same rfl rfl
  · have hlease := (fenced_iff.1 hfenced).2.1
    have hlog := prefix_refl (j.log id)
    grind -ring -linarith

theorem writes_markTerminal (j : MemJournal) (now : Time) (k : DriveKey) (final : Status) :
    Writes k j (j.markTerminal now k.1 k.2 final).1 := by
  intro id
  rcases j.markTerminal_cases now k.1 k.2 final with
    ⟨r, h, -⟩ | ⟨row, kind, inst, hrow, hfenced, -, hadv, h⟩
  · rw [h]
    exact .same rfl rfl
  · have hlease := (fenced_iff.1 hfenced).2.1
    have horigin := advanceSaga_origin hadv
    have hlog := prefix_append (j.log id)
    grind -ring -linarith

theorem writes_commitStep {later : Time} {a : CommitStepArgs} {emit : Except Err Unit}
    (h : commitStep j now later k.1 k.2 a emit = .ok j') : Writes k j j' := by
  obtain ⟨-, hj⟩ := commitStep_ok h
  have happ := writes_append j now k a.event
  cases hclose : a.closes with
  | some final =>
    rw [hclose] at hj
    exact hj ▸ happ.trans (writes_markTerminal _ later k final)
  | none =>
    rw [hclose] at hj
    exact hj ▸ happ

/-- What one step of the coordinators does to the instance `id`. A row is written only by the drive
that acts and only under the lease the row holds; a claim hands out a lease not in `leases`. -/
@[grind intro] inductive RowChange (leases : List SafeID) (actor : Option DriveKey)
    (j j' : MemJournal) (id : SafeID) : Prop
  | same (hrow : j'.row id = j.row id) (hlog : j'.log id = j.log id)
  | added (inst : Instance) (hrow : j.row id = none) (hrow' : j'.row id = some { inst := inst })
      (hlog' : j'.log id = [])
  | claimed (row : InstanceRow) (leaseID : SafeID) (t : Time) (hrow : j.row id = some row)
      (hopen : row.inst.status.isTerminal = false) (hfresh : leaseID ∉ leases)
      (hrow' : j'.row id = some (leaseTo leaseID t row)) (hlog : j'.log id = j.log id)
  | own (row row' : InstanceRow) (hrow : j.row id = some row)
      (hactor : actor = some (id, row.leaseID)) (hrow' : j'.row id = some row')
      (hlease : row'.leaseID = row.leaseID ∨ row'.leaseID = "")
      (horigin : row'.inst.origin = row.inst.origin) (hlog : j.log id <+: j'.log id)

def Action.actor : Action → Option DriveKey
  | .drive k _ => some k
  | _ => none

variable {resolver : Resolver} {s s' : Coordinators} {d : Drive}

@[simp] theorem resume_journal (s : Coordinators) (k : DriveKey) (d : Drive) (j : MemJournal)
    (pc : Pc) : (s.resume k d j pc).journal = j := rfl

@[simp] theorem resume_now (s : Coordinators) (k : DriveKey) (d : Drive) (j : MemJournal)
    (pc : Pc) : (s.resume k d j pc).now = s.now := rfl

theorem resume_lookup {pc : Pc} {k' : DriveKey} {d' : Drive}
    (h : (s.resume k d j pc).drives.lookup k' = some d') :
    (k' ≠ k ∧ s.drives.lookup k' = some d') ∨ (k' = k ∧ d' = { d with pc := pc }) := by
  simp only [resume, lookup_insert_if] at h
  split_ifs at h with hk
  · exact .inr ⟨hk, (some.inj h).symm⟩
  · exact .inl ⟨hk, h⟩

def Definition.compensable (d : Definition) (name : SafeID) : Bool :=
  (d.stepByName name).any (·.hasCompensate)

@[grind intro] inductive DriveStep (resolver : Resolver) (s : Coordinators) (k : DriveKey)
    (d : Drive) : Coordinators → Prop
  | lookup (hpc : d.pc = .lookup) :
    DriveStep resolver s k d
      (s.resume k d s.journal (Coordinators.afterLookup resolver s.now d.ci.inst))
  | load (defn : Definition) (hpc : d.pc = .load defn) :
    DriveStep resolver s k d
      (s.resume k d s.journal (Coordinators.afterLoad d.ci.inst defn (s.journal.load k.1)))
  | execute (defn : Definition) (events : List Event) (cursor : ℕ) (prevState : Bytes)
      (step : Step) (outcome : Outcome) (hpc : d.pc = .execute defn events cursor prevState)
      (hstep : defn.steps[cursor]? = some step) :
    DriveStep resolver s k d
      (s.resume k d s.journal (Coordinators.routeOutcome defn events cursor step outcome))
  | commit (a : CommitStepArgs) (later : Time) (emit : Except Err Unit) (j : MemJournal)
      (hpc : d.pc = .commit a) (hlater : s.now ≤ later)
      (hj : commitStep s.journal s.now later k.1 k.2 a emit = .ok j) :
    DriveStep resolver s k d ({ s with now := later }.resume k d j (.returned none))
  | rollBackCommit (a : CommitStepArgs) (later : Time) (hpc : d.pc = .commit a)
      (hlater : s.now ≤ later) :
    DriveStep resolver s k d ({ s with now := later }.resume k d s.journal (.returned none))
  | startCompensation (defn : Definition) (events : List Event) (reason : Bytes)
      (hpc : d.pc = .startCompensation defn events reason) (hok : (s.journal.append s.now k.1 k.2
        { kind := .compensationStarted, payload := reason }).2.isOk = true) :
    DriveStep resolver s k d
      (s.resume k d
        (s.journal.append s.now k.1 k.2 { kind := .compensationStarted, payload := reason }).1
        (.preflight (startRollback defn events false)))
  | preflight (r : Rollback) (leaseDuration : Duration) (hpc : d.pc = .preflight r) :
    DriveStep resolver s k d
      (s.resume k d (s.journal.heartbeat s.now k.1 k.2 leaseDuration).1
        (.walk { r with
          undisturbed := r.undisturbed && Coordinators.leaseValid s.journal s.now k }))
  | skip (r : Rollback) (cs : CommittedStepEntry) (rest : List CommittedStepEntry)
      (hpc : d.pc = .walk r) (hremaining : r.remaining = cs :: rest)
      (hskip : r.defn.compensable cs.name = false) :
    DriveStep resolver s k d (s.resume k d s.journal (.walk { r with remaining := rest }))
  | compensate (r : Rollback) (cs : CommittedStepEntry) (rest : List CommittedStepEntry)
      (failure : Option Bytes) (hpc : d.pc = .walk r) (hremaining : r.remaining = cs :: rest)
      (hcall : r.defn.compensable cs.name = true) :
    DriveStep resolver s k d
      ({ s with
        compensated := if failure.isNone then (k.1, cs.name) :: s.compensated
          else s.compensated }.resume k d s.journal
        (.record { r with remaining := rest } cs.name failure))
  | record (r : Rollback) (step : SafeID) (failure : Option Bytes)
      (hpc : d.pc = .record r step failure)
      (hok : (s.journal.append s.now k.1 k.2 (compensationEvent step failure)).2.isOk = true) :
    DriveStep resolver s k d
      (s.resume k d (s.journal.append s.now k.1 k.2 (compensationEvent step failure)).1
        (.walk (r.outcome step failure)))
  | loseRecord (r : Rollback) (step : SafeID) (failure : Option Bytes)
      (hpc : d.pc = .record r step failure) :
    DriveStep resolver s k d
      (s.resume k d s.journal (.walk { r.outcome step failure with undisturbed := false }))
  | finishWalk (r : Rollback) (hpc : d.pc = .walk r) (hremaining : r.remaining = []) :
    DriveStep resolver s k d
      (s.resume k d s.journal (.markTerminal r.finalStatus (some r)))
  | markTerminal (final : Status) (r : Option Rollback) (hpc : d.pc = .markTerminal final r) :
    DriveStep resolver s k d
      (s.resume k d (s.journal.markTerminal s.now k.1 k.2 final).1 (.returned (r.map fun r ↦
        { r with undisturbed := r.undisturbed && Coordinators.leaseValid s.journal s.now k })))
  | heartbeat (leaseDuration : Duration) :
    DriveStep resolver s k d
      { s with journal := (s.journal.heartbeat s.now k.1 k.2 leaseDuration).1 }
  | stop : DriveStep resolver s k d (s.resume k d s.journal (.returned none))
  | crash : DriveStep resolver s k d { s with drives := s.drives.erase k }

theorem stepByName_name {d : Definition} {name : SafeID} {step : Step}
    (h : d.stepByName name = some step) : step ∈ d.steps ∧ step.name = name := by
  refine ⟨mem_reverse.1 (mem_of_find?_eq_some h), ?_⟩
  simpa using find?_some h

theorem driveStep_compensate {failure : Option Bytes}
    (h : s.driveStep resolver k d (.compensate failure) = some s') :
    DriveStep resolver s k d s' := by
  cases hpc : d.pc <;> simp only [driveStep, hpc, reduceCtorEq] at h
  rename_i r
  cases hrem : r.remaining with
  | nil => simp [hrem] at h
  | cons cs rest =>
    simp only [hrem] at h
    cases hstep : r.defn.stepByName cs.name with
    | none =>
      simp only [hstep, some.injEq] at h
      exact h ▸ .skip r cs rest hpc hrem (by simp [Definition.compensable, hstep])
    | some step =>
      simp only [hstep] at h
      cases hcomp : step.hasCompensate with
      | false =>
        simp only [hcomp, Bool.false_eq_true, if_false, some.injEq] at h
        exact h ▸ .skip r cs rest hpc hrem (by simp [Definition.compensable, hstep, hcomp])
      | true =>
        simp only [hcomp, if_true, some.injEq, (stepByName_name hstep).2] at h
        exact h ▸ .compensate r cs rest failure hpc hrem
          (by simp [Definition.compensable, hstep, hcomp])

theorem driveStep_record {txOk : Bool} (h : s.driveStep resolver k d (.record txOk) = some s') :
    DriveStep resolver s k d s' := by
  cases hpc : d.pc <;> simp only [driveStep, hpc, reduceCtorEq] at h
  rename_i r step failure
  cases hrec : txOk && (s.journal.append s.now k.1 k.2 (compensationEvent step failure)).2.isOk with
  | true =>
    simp only [hrec, if_true, Bool.and_true, some.injEq] at h
    exact h ▸ .record r step failure hpc (Bool.and_eq_true_iff.1 hrec).2
  | false =>
    simp only [hrec, Bool.false_eq_true, if_false, Bool.and_false, some.injEq] at h
    exact h ▸ .loseRecord r step failure hpc

theorem driveStep_commit {later : Time} {emit : Except Err Unit}
    (h : s.driveStep resolver k d (.commit later emit) = some s') :
    DriveStep resolver s k d s' := by
  cases hpc : d.pc <;> simp only [driveStep, hpc, reduceCtorEq] at h
  rename_i a
  split_ifs at h with hlater
  cases hcommit : commitStep s.journal s.now later k.1 k.2 a emit with
  | error e =>
    simp only [hcommit, Except.toOption, getD_none, some.injEq] at h
    exact h ▸ .rollBackCommit a later hpc (not_lt.1 hlater)
  | ok j =>
    simp only [hcommit, Except.toOption, getD_some, some.injEq] at h
    exact h ▸ .commit a later emit j hpc (not_lt.1 hlater) hcommit

theorem driveStep_preflight {leaseDuration : Duration}
    (h : s.driveStep resolver k d (.preflight leaseDuration) = some s') :
    DriveStep resolver s k d s' := by
  cases hpc : d.pc <;> simp only [driveStep, hpc, reduceCtorEq] at h
  rename_i r
  split at h
  · rename_i hlost
    rcases s.journal.heartbeat_cases s.now k.1 k.2 leaseDuration with
      ⟨res, hres, -⟩ | ⟨row, -, -, -, hres⟩
    · rw [hres, some.injEq] at h
      exact h ▸ .stop
    · rw [hres] at hlost
      cases hlost
  · rw [some.injEq] at h
    exact h ▸ .preflight r leaseDuration hpc

theorem driveStep_cases {a : DriveAction} (h : s.driveStep resolver k d a = some s') :
    DriveStep resolver s k d s' := by
  cases a with
  | commit => exact driveStep_commit h
  | preflight => exact driveStep_preflight h
  | compensate => exact driveStep_compensate h
  | record txOk => exact driveStep_record h
  | _ => grind -ring -linarith [driveStep]

theorem DriveStep.writes (h : DriveStep resolver s k d s') : Writes k s.journal s'.journal := by
  cases h with
  | lookup | load | execute | rollBackCommit | skip | compensate | loseRecord | finishWalk | stop
  | crash => exact .refl k _
  | commit _ _ _ _ _ _ hj => exact writes_commitStep hj
  | startCompensation => exact writes_append _ _ _ _
  | preflight => exact writes_heartbeat _ _ _ _
  | record => exact writes_append _ _ _ _
  | markTerminal => exact writes_markTerminal _ _ _ _
  | heartbeat => exact writes_heartbeat _ _ _ _

theorem tick_cases {leaseID : SafeID} {batchSize : ℤ} {leaseDuration : Duration}
    (h : s.tick leaseID batchSize leaseDuration = some s') :
    s' = s ∨ (leaseID ≠ "" ∧ leaseID ∉ s.leases ∧ (s' = { s with leases := leaseID :: s.leases } ∨
        s' = { s with
          journal := s.journal.leaseAll (s.journal.candidates s.now batchSize) leaseID
            (s.now + leaseDuration)
          leases := leaseID :: s.leases
          drives := (s.journal.candidates s.now batchSize).foldl
            (fun drives c ↦ drives.insert (c.2.inst.id, leaseID) ⟨⟨c.2.inst, leaseID⟩, .lookup⟩)
            s.drives })) := by
  unfold tick at h
  split_ifs at h with hlease
  rw [not_or] at hlease
  rcases s.journal.claimPending_cases s.now (.ok leaseID) batchSize leaseDuration with
    ⟨e, hc⟩ | hc | ⟨lease, hl, -, hc⟩
  · simp only [hc, some.injEq] at h
    exact .inl h.symm
  · simp only [hc, some.injEq] at h
    exact .inr ⟨hlease.1, hlease.2, .inl h.symm⟩
  · cases hl
    simp only [hc, some.injEq, foldl_map] at h
    exact .inr ⟨hlease.1, hlease.2, .inr h.symm⟩

theorem Written.rowChange {leases : List SafeID} (h : Written k j j' id) :
    RowChange leases (some k) j j' id := by
  cases h with
  | same hrow hlog => exact .same hrow hlog
  | own row row' hrow hkey hrow' hlease horigin hlog =>
    exact .own row row' hrow (congrArg some hkey) hrow' hlease horigin hlog

theorem leaseAll_rowChange {leases : List SafeID} {actor : Option DriveKey} (j : MemJournal)
    (now : Time) (batchSize : ℤ) (t : Time) (id : SafeID) {leaseID : SafeID}
    (hfresh : leaseID ∉ leases) :
    RowChange leases actor j (j.leaseAll (j.candidates now batchSize) leaseID t) id := by
  by_cases hid : id ∈ (j.candidates now batchSize).map Prod.fst
  · obtain ⟨⟨id, row⟩, hmem, rfl⟩ := mem_map.1 hid
    obtain ⟨hrow, hclaim⟩ := mem_candidates hmem
    refine .claimed row leaseID t hrow ?_ hfresh ?_ rfl
    · rw [claimable, Bool.and_eq_true, Bool.not_eq_true'] at hclaim
      exact hclaim.1
    · rw [row_leaseAll, if_pos hid, hrow, map_some]
  · exact .same (by rw [row_leaseAll, if_neg hid]) rfl

theorem step_rowChange {a : Action} (h : s.step resolver a = some s') (id : SafeID) :
    RowChange s.leases a.actor s.journal s'.journal id := by
  cases a with
  | advanceClock now => grind -ring -linarith [step]
  | enqueue inst =>
    have henqueue := s.journal.enqueue_cases inst
    grind -ring -linarith [step]
  | tick =>
    rcases tick_cases h with rfl | ⟨-, hfresh, rfl | rfl⟩
    · exact .same rfl rfl
    · exact .same rfl rfl
    · exact leaseAll_rowChange _ _ _ _ _ hfresh
  | drive k a =>
    obtain ⟨d, -, hd⟩ := bind_eq_some_iff.1 h
    exact ((driveStep_cases hd).writes id).rowChange

end GoCell.Saga
