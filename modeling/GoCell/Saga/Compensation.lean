import GoCell.Saga.StepOrder

namespace GoCell.Saga

open Foundation Kernel MemJournal List Option

variable {resolver : Resolver} {s s' : Coordinators} {j : MemJournal} {k : DriveKey} {d : Drive}
  {now : Time}

/-- The events that an action taken at `pc` may add to the log of its instance. -/
def Appends (pc : Pc) (added : List Event) : Prop :=
  match pc with
  | .record _ step failure => ∃ e, added = [e] ∧ e.stepName = step ∧
      e.kind = if failure.isSome then .stepCompensationFailed else .stepCompensated
  | .markTerminal final _ => ∃ e, added = [e] ∧ terminalEventKind final = some e.kind
  | _ => ∀ e ∈ added, e.kind ≠ .stepCompensated ∧ e.kind ≠ .stepCompensationFailed ∧
      e.kind ≠ .sagaCompensated

theorem commit_added {later : Time} {a : CommitStepArgs} {emit : Except Err Unit}
    {j' : MemJournal} (h : commitStep j now later k.1 k.2 a emit = .ok j') :
    ∃ row added, j.row k.1 = some row ∧ row.leaseID = k.2 ∧ j'.log k.1 = j.log k.1 ++ added ∧
      Appends (.commit a) added := by
  obtain ⟨row, e, closing, hrow, hlease, hlog, hkind, -, hclosing⟩ := commit_events h
  refine ⟨row, e :: closing, hrow, hlease, hlog, ?_⟩
  intro e' he'
  rcases mem_cons.1 he' with rfl | he'
  · rw [hkind]
    unfold CommitStepArgs.event
    cases a.result <;> simp
  · rcases hclosing e' he' with hfailed | hsucceeded
    · rw [hfailed]
      simp
    · rw [hsucceeded]
      simp

theorem DriveStep.added (h : DriveStep resolver s k d s') :
    s'.journal.log k.1 = s.journal.log k.1 ∨
      ∃ row added, s.journal.row k.1 = some row ∧ row.leaseID = k.2 ∧
        s'.journal.log k.1 = s.journal.log k.1 ++ added ∧ Appends d.pc added := by
  cases h with
  | lookup | load | execute | rollBackCommit | skip | compensate | loseRecord | finishWalk | stop
  | crash => exact .inl rfl
  | commit _ _ _ _ hpc _ hj =>
    obtain ⟨row, added, hrow, hlease, hlog, happ⟩ := commit_added hj
    exact .inr ⟨row, added, hrow, hlease, hlog, hpc ▸ happ⟩
  | startCompensation _ _ _ hpc hok =>
    obtain ⟨row, e, hrow, hlease, hlog, hkind, -⟩ := append_added hok
    refine .inr ⟨row, [e], hrow, hlease, hlog, ?_⟩
    rw [hpc]
    intro e' he'
    rw [mem_singleton.1 he', hkind]
    simp
  | preflight => exact .inl (heartbeat_log _ _ _ _ _ _)
  | record r step failure hpc hok =>
    obtain ⟨row, e, hrow, hlease, hlog, hkind, hname⟩ := append_added hok
    refine .inr ⟨row, [e], hrow, hlease, hlog, ?_⟩
    rw [hpc]
    cases failure <;> exact ⟨e, rfl, hname, hkind⟩
  | markTerminal final r hpc =>
    rcases markTerminal_added s.journal s.now k final with
      hsame | ⟨row, e, hrow, hlease, hlog, hkind⟩
    · exact .inl hsame
    · exact .inr ⟨row, [e], hrow, hlease, hlog, by rw [hpc]; exact ⟨e, rfl, hkind⟩⟩
  | heartbeat => exact .inl (heartbeat_log _ _ _ _ _ _)

theorem stepByName_of_mem {d : Definition} {step : Step} (hnodup : (d.steps.map Step.name).Nodup)
    (hstep : step ∈ d.steps) : d.stepByName step.name = some step := by
  cases hfind : d.stepByName step.name with
  | none =>
    have h := find?_eq_none.1 hfind step (mem_reverse.2 hstep)
    simp at h
  | some step' =>
    obtain ⟨hmem, hname⟩ := stepByName_name hfind
    rw [inj_on_of_nodup_map hnodup hmem hstep hname]

theorem compensable_iff {d : Definition} (hnodup : (d.steps.map Step.name).Nodup) {name : SafeID} :
    d.compensable name = true ↔ ∃ step ∈ d.steps, step.name = name ∧ step.hasCompensate = true := by
  constructor
  · intro h
    obtain ⟨step, hfind, hcomp⟩ := (any_eq_true _ _).1 h
    obtain ⟨hmem, hname⟩ := stepByName_name hfind
    exact ⟨step, hmem, hname, hcomp⟩
  · rintro ⟨step, hmem, rfl, hcomp⟩
    rw [Definition.compensable, stepByName_of_mem hnodup hmem]
    exact hcomp

/-- Recorded compensations happened, and a saga closed as compensated had no failed compensation
and a successful one for each committed step that has to be compensated. -/
structure Coordinators.Accounted (resolver : Resolver) (s : Coordinators) : Prop where
  recorded : ∀ id, ∀ e ∈ s.journal.log id, e.kind = .stepCompensated →
    (id, e.stepName) ∈ s.compensated
  rolledBack : ∀ id row d, s.journal.row id = some row →
    resolver.lookup row.inst.definitionID = some d →
    (∃ e ∈ s.journal.log id, e.kind = .sagaCompensated) →
    (∀ e ∈ s.journal.log id, e.kind ≠ .stepCompensationFailed) ∧
      ∀ name ∈ completedNames (s.journal.log id), d.compensable name = true →
        (id, name) ∈ s.compensated

theorem Appends.recorded {comp : List (SafeID × SafeID)} {inst : Instance} {pc : Pc}
    {added : List Event} (h : Appends pc added) (hpc : PcInv resolver j comp k inst pc) :
    ∀ e ∈ added, e.kind = .stepCompensated → (k.1, e.stepName) ∈ comp := by
  intro e he hkind
  cases pc with
  | record r step failure =>
    obtain ⟨e', rfl, hname, hkind'⟩ := h
    obtain rfl := mem_singleton.1 he
    cases failure with
    | some => simp [hkind] at hkind'
    | none =>
      rw [hname]
      exact hpc.2.2 rfl
  | markTerminal =>
    obtain ⟨e', rfl, hkind'⟩ := h
    obtain rfl := mem_singleton.1 he
    rw [hkind] at hkind'
    exact Bool.noConfusion (terminalEventKind_isTerminal hkind').2
  | _ => exact absurd hkind (h e he).1

theorem Coordinators.Accounted.close (ha : s.Accounted resolver) {row : InstanceRow}
    {inst : Instance} {pc : Pc} {added : List Event} {e : Event} (happ : Appends pc added)
    (hpc : PcInv resolver s.journal s.compensated k inst pc) (he : e ∈ added)
    (hkind : e.kind = .sagaCompensated) (hrow : s.journal.row k.1 = some row)
    (hlease : row.leaseID = k.2) :
    ∃ d, resolver.lookup inst.definitionID = some d ∧
      (∀ e ∈ s.journal.log k.1 ++ added, e.kind ≠ .stepCompensationFailed) ∧
      ∀ name ∈ completedNames (s.journal.log k.1 ++ added), d.compensable name = true →
        (k.1, name) ∈ s.compensated := by
  cases pc with
  | record =>
    obtain ⟨e', rfl, -, hkind'⟩ := happ
    obtain rfl := mem_singleton.1 he
    rw [hkind] at hkind'
    split_ifs at hkind'
  | markTerminal final r =>
    obtain ⟨e', rfl, hkind'⟩ := happ
    obtain rfl := mem_singleton.1 he
    rw [hkind] at hkind'
    have hfinal : final = .compensated := by
      cases final <;> simp [terminalEventKind] at hkind' ⊢
    subst hfinal
    cases r with
    | none => simp [PcInv] at hpc
    | some r =>
      obtain ⟨hfinal, hrem, hinv, -⟩ := hpc
      have herr : r.compensateErrors = 0 := by
        unfold Rollback.finalStatus at hfinal
        split_ifs at hfinal with hpos
        omega
      obtain ⟨-, hpre, hcompleted, hclean⟩ := hinv.held row hrow hlease
      refine ⟨r.defn, hinv.registered, ?_, ?_⟩
      · intro e' he'
        rcases mem_append.1 he' with he' | he'
        · exact hclean herr e' he'
        · rw [mem_singleton.1 he', hkind]
          simp
      · intro name hname hcomp
        rw [completedNames_append, hcompleted] at hname
        simp only [completedNames, hkind, filter_cons, reduceCtorEq, decide_false,
          Bool.false_eq_true, if_false, filter_nil, map_nil, append_nil] at hname
        rcases hinv.covered herr name hname hcomp with ⟨e', he', hkind', rfl⟩ | hdone | hahead
        · exact ha.recorded k.1 e' (hpre.subset he') hkind'
        · exact hdone
        · simp [hrem] at hahead
  | _ => exact absurd hkind (happ e he).2.2

theorem step_compensated {a : Action} (h : s.step resolver a = some s') :
    s.compensated ⊆ s'.compensated := by
  cases a with
  | advanceClock now =>
    simp only [Coordinators.step] at h
    split_ifs at h
    cases h
    exact List.Subset.refl _
  | enqueue inst =>
    cases h
    exact List.Subset.refl _
  | tick =>
    rcases tick_cases h with rfl | ⟨-, -, rfl | rfl⟩ <;> exact List.Subset.refl _
  | drive k a =>
    obtain ⟨d, -, h⟩ := bind_eq_some_iff.1 h
    exact (driveStep_cases h).extends.2

theorem Coordinators.Accounted.step (ha : s.Accounted resolver) (hs : s.Inv resolver) {a : Action}
    (h : s.step resolver a = some s') : s'.Accounted resolver := by
  have hcomp := step_compensated h
  -- Either the log of an instance is unchanged, or a drive adds to it under the lease of its row.
  have hlog : ∀ id, s'.journal.log id = s.journal.log id ∨ s'.journal.log id = [] ∨
      ∃ k d row added, id = k.1 ∧ DriveInv resolver s k d ∧ s.journal.row id = some row ∧
        row.leaseID = k.2 ∧ s'.journal.log id = s.journal.log id ++ added ∧
        Appends d.pc added := by
    intro id
    cases step_rowChange h id with
    | same hrow hlog | claimed _ _ _ _ _ _ _ hlog => exact .inl hlog
    | added _ _ _ hlog => exact .inr (.inl hlog)
    | own _ _ _ hactor =>
      cases a with
      | advanceClock | enqueue | tick => cases hactor
      | drive k a =>
        cases hactor
        obtain ⟨d, hd, h⟩ := bind_eq_some_iff.1 h
        rcases (driveStep_cases h).added with hsame | ⟨row₂, added, hrow₂, hlease₂, hlog, happ⟩
        · exact .inl hsame
        · exact .inr (.inr ⟨_, d, row₂, added, rfl, hs.drives _ d hd, hrow₂, hlease₂, hlog, happ⟩)
  refine ⟨?_, ?_⟩
  · intro id e he hkind
    rcases hlog id with hsame | hnil | ⟨k, d, row, added, rfl, hk, -, -, hext, happ⟩
    · rw [hsame] at he
      exact hcomp (ha.recorded id e he hkind)
    · simp [hnil] at he
    · rw [hext] at he
      rcases mem_append.1 he with he | he
      · exact hcomp (ha.recorded k.1 e he hkind)
      · exact hcomp (happ.recorded hk.pc e he hkind)
  · rintro id row' defn hrow' hreg ⟨e, he, hkind⟩
    rcases hlog id with hsame | hnil | ⟨k, d, row, added, rfl, hk, hrow, hlease, hext, happ⟩
    · rw [hsame] at he ⊢
      cases hrow : s.journal.row id with
      | none => simp [hs.sound.unlogged id hrow] at he
      | some row =>
        obtain ⟨row₂, hrow₂, horigin⟩ := (step_rowChange h id).origin hrow
        cases hrow'.symm.trans hrow₂
        have hdef : row'.inst.definitionID = row.inst.definitionID :=
          congrArg (fun o ↦ o.2.1) horigin
        obtain ⟨hclean, hdone⟩ := ha.rolledBack id row defn hrow (hdef ▸ hreg) ⟨e, he, hkind⟩
        exact ⟨hclean, fun name hname hc ↦ hcomp (hdone name hname hc)⟩
    · simp [hnil] at he
    · obtain ⟨row₂, hrow₂, horigin₂⟩ := hk.origin
      cases hrow.symm.trans hrow₂
      obtain ⟨row₃, hrow₃, horigin₃⟩ := (step_rowChange h k.1).origin hrow
      cases hrow'.symm.trans hrow₃
      have hdef : row'.inst.definitionID = d.ci.inst.definitionID :=
        congrArg (fun o ↦ o.2.1) (horigin₃.trans horigin₂)
      rw [hext] at he
      rcases mem_append.1 he with he | he
      · have hterm : e.kind.isTerminal = true := by rw [hkind]; rfl
        exact absurd (hlease.symm.trans (hs.sound.closed hrow he hterm)) hk.leased
      · obtain ⟨defn₂, hreg₂, hclean, hdone⟩ := ha.close happ hk.pc he hkind hrow hlease
        rw [hdef, hreg₂] at hreg
        cases hreg
        rw [hext]
        exact ⟨hclean, fun name hname hc ↦ hcomp (hdone name hname hc)⟩

theorem accounted_exec {actions : List Action}
    (h : exec (Coordinators.step resolver) { now := now } actions = some s) :
    s.Accounted resolver := by
  have hall := exec_invariant (fun s ↦ s.Inv resolver ∧ s.Accounted resolver)
    (fun t a t' ⟨hi, ha⟩ hstep ↦ ⟨hi.step hstep, ha.step hi hstep⟩) actions
    { now := now } s ⟨inv_initial resolver now, ?_⟩ h
  · exact hall.2
  · refine ⟨fun id e he ↦ ?_, fun id row d hrow ↦ ?_⟩
    · cases he
    · cases hrow

/-- The steps to compensate according to a log, in commit order: completed in the log, with a
`Compensate` function and no compensation outcome. -/
def eligible (d : Definition) (events : List Event) : List SafeID :=
  (completedNames events).filter fun name ↦
    d.steps.any (fun step ↦ step.name = name ∧ step.hasCompensate) ∧
    !events.any fun e ↦
      (e.kind = .stepCompensated ∨ e.kind = .stepCompensationFailed) ∧ e.stepName = name

theorem collectCommittedSteps_names (events : List Event) :
    (collectCommittedSteps events).map CommittedStepEntry.name =
      (completedNames events).filter (· ∉ compensatedNames events) := by
  simp only [collectCommittedSteps, completedNames, List.map_map, List.filter_map,
    List.filter_filter]
  congr 1
  apply List.filter_congr
  intro e _
  simp [Bool.and_comm]

theorem calls_eq_eligible {r : Rollback} (hnodup : (r.defn.steps.map Step.name).Nodup) :
    r.calls (collectCommittedSteps r.events).reverse = (eligible r.defn r.events).reverse := by
  rw [Rollback.calls, List.map_reverse, List.filter_reverse, collectCommittedSteps_names,
    List.filter_filter, eligible]
  congr 1
  apply filter_congr
  intro name _
  rw [Bool.eq_iff_iff, Bool.and_eq_true, compensable_iff hnodup]
  simp [compensatedNames]

theorem finalStatus_eq {r : Rollback} (h : r.Wf) :
    r.finalStatus = if (∃ a ∈ r.attempted, a.2 = false) ∨
        ∃ e ∈ r.events, e.kind = .stepCompensationFailed
      then .compensationFailed else .compensated := by
  have hpos : 0 < r.compensateErrors ↔ (∃ a ∈ r.attempted, a.2 = false) ∨
      ∃ e ∈ r.events, e.kind = .stepCompensationFailed := by
    rw [h.errors, priorFailureCount, Nat.add_pos_iff_pos_or_pos, countP_pos_iff,
      length_pos_iff_exists_mem, or_comm]
    simp
  simp only [Rollback.finalStatus, hpos]

/-- Under any interleaving, an undisturbed rollback calls `Compensate` for exactly the eligible
steps of the log it started from, in reverse commit order, and closes the saga according to the
failures so far. A saga closed as compensated has no failed compensation, and a successful one for
each committed step that has a `Compensate`. -/
theorem coordinators_roll_back (resolver : Resolver) (now : Time) (actions : List Action)
    (s : Coordinators) (h : exec (Coordinators.step resolver) { now := now } actions = some s) :
    (∀ k d r, s.drives.lookup k = some d → d.pc = .returned (some r) → r.undisturbed = true →
      resolver.lookup d.ci.inst.definitionID = some r.defn ∧
      (∃ kind, summary (s.journal.log k.1) = summary r.events ++ r.ownEvents ++ [(kind, "")]) ∧
      (eligible r.defn r.events).Nodup ∧
      r.attempted.map Prod.fst = (eligible r.defn r.events).reverse ∧
      ∃ row, s.journal.row k.1 = some row ∧ row.inst.status =
        if (∃ a ∈ r.attempted, a.2 = false) ∨ ∃ e ∈ r.events, e.kind = .stepCompensationFailed
        then .compensationFailed else .compensated) ∧
    ∀ id row d, s.journal.row id = some row → resolver.lookup row.inst.definitionID = some d →
      (∃ e ∈ s.journal.log id, e.kind = .sagaCompensated) →
      (∀ e ∈ s.journal.log id, e.kind ≠ .stepCompensationFailed) ∧
        ∀ step ∈ d.steps, step.hasCompensate = true →
          step.name ∈ completedNames (s.journal.log id) → (id, step.name) ∈ s.compensated := by
  obtain ⟨hi, ho⟩ := inOrder_exec h
  have hnodup : ∀ {id : SafeID} {d : Definition}, resolver.lookup id = some d →
      (d.steps.map Step.name).Nodup :=
    fun hreg ↦ (Definition.validate_ok (resolver.validated _ _ hreg)).2.1
  refine ⟨fun k d r hd hpc hund ↦ ?_, fun id row d hrow hreg hclosed ↦ ?_⟩
  · have hk := hi.drives k d hd
    have hinv := hk.pc
    rw [hpc] at hinv
    obtain ⟨hreg, hrem, hwf, hfin⟩ := hinv
    obtain ⟨⟨row, hrow, hstatus⟩, kind, -, hlog⟩ := hfin hund
    obtain ⟨row₂, hrow₂, horigin⟩ := hk.origin
    cases hrow.symm.trans hrow₂
    have hdef : row.inst.definitionID = d.ci.inst.definitionID :=
      congrArg (fun o ↦ o.2.1) horigin
    refine ⟨hreg, ⟨kind, hlog⟩, ?_, ?_, row, hrow, hstatus.trans (finalStatus_eq hwf)⟩
    · obtain ⟨n, -, hnames⟩ := ho k.1 row r.defn hrow (hdef ▸ hreg)
      have hall : (completedNames (s.journal.log k.1)).Nodup := by
        rw [hnames, map_take]
        exact (hnodup hreg).sublist (take_sublist _ _)
      rw [completedNames_eq_summary, hlog, filter_append, filter_append,
        map_append, map_append, ← completedNames_eq_summary, append_assoc] at hall
      exact ((nodup_append.1 hall).1).filter _
    · have horder := hwf.order
      rw [hrem, calls_eq_eligible (hnodup hreg)] at horder
      simpa [Rollback.calls] using horder
  · obtain ⟨hclean, hdone⟩ := (accounted_exec h).rolledBack id row d hrow hreg hclosed
    refine ⟨hclean, fun step hstep hcomp hname ↦ hdone step.name hname ?_⟩
    exact (compensable_iff (hnodup hreg)).2 ⟨step, hstep, rfl, hcomp⟩

/-- The instance `i` of the order saga: the first step commits, the second one fails and the
rollback of the second drive runs to its end. -/
def rolledBackOrder : List Action :=
  [Action.advanceClock 10, .enqueue (newInstance "i" "order" 10), .tick "a" 1 5] ++
    commitNext "a" 10 ++ [Action.advanceClock 20, .tick "b" 1 5] ++
    [DriveAction.lookup, .load, .execute (.failed []), .startCompensation true, .preflight 5,
      .compensate none, .record true, .finishWalk, .markTerminal].map (Action.drive ("i", "b"))

def Pc.finishedRollback : Pc → Option Rollback
  | .returned r => r
  | _ => none

theorem coordinators_roll_back_order :
    ∃ s d r, exec (Coordinators.step orderResolver) { now := 0 } rolledBackOrder = some s ∧
      s.drives.lookup ("i", "b") = some d ∧ d.pc = .returned (some r) ∧ r.undisturbed = true ∧
      r.attempted = [("reserve", true)] ∧
      r.attempted.map Prod.fst = (eligible r.defn r.events).reverse ∧
      ("i", "reserve") ∈ s.compensated := by
  have hrun : ((exec (Coordinators.step orderResolver) { now := 0 } rolledBackOrder).bind fun s ↦
      (s.drives.lookup ("i", "b")).bind fun d ↦ d.pc.finishedRollback.bind fun r ↦
        (s.journal.row "i").map fun row ↦ (r.undisturbed, r.attempted, row.inst.definitionID,
          (s.journal.log "i").map Event.kind, completedNames (s.journal.log "i"))) =
      some (true, [("reserve", true)], "order", [.stepCompleted, .compensationStarted,
        .stepCompensated, .sagaCompensated], ["reserve"]) := by rfl
  obtain ⟨s, hs, hrun⟩ := bind_eq_some_iff.1 hrun
  obtain ⟨d, hd, hrun⟩ := bind_eq_some_iff.1 hrun
  obtain ⟨r, hr, hrun⟩ := bind_eq_some_iff.1 hrun
  obtain ⟨row, hrow, hrun⟩ := map_eq_some_iff.1 hrun
  simp only [Prod.mk.injEq] at hrun
  obtain ⟨hund, hatt, hdef, hkinds, hnames⟩ := hrun
  have hpc : d.pc = .returned (some r) := by
    cases hpc : d.pc <;> rw [hpc] at hr <;> cases hr
    rfl
  have hreg : orderResolver.lookup row.inst.definitionID = some orderSaga := by rw [hdef]; rfl
  have hclosed : ∃ e ∈ s.journal.log "i", e.kind = .sagaCompensated := by
    have hmem : EventKind.sagaCompensated ∈ (s.journal.log "i").map Event.kind := by
      rw [hkinds]
      decide
    exact mem_map.1 hmem
  obtain ⟨hrollbacks, hcompensated⟩ :=
    coordinators_roll_back orderResolver 0 rolledBackOrder s hs
  obtain ⟨-, -, -, horder, -⟩ := hrollbacks ("i", "b") d r hd hpc hund
  refine ⟨s, d, r, hs, hd, hpc, hund, hatt, horder, ?_⟩
  refine (hcompensated "i" row orderSaga hrow hreg hclosed).2
    { name := "reserve", hasCompensate := true } (by decide) rfl ?_
  rw [hnames]
  exact mem_singleton.2 rfl

end GoCell.Saga
