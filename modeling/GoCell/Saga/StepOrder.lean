import GoCell.Saga.CoordinatorInvariant

namespace GoCell.Saga

open Foundation Kernel MemJournal List Option

variable {resolver : Resolver} {s s' : Coordinators} {j : MemJournal} {k : DriveKey} {d : Drive}
  {now : Time}

def Coordinators.InOrder (resolver : Resolver) (s : Coordinators) : Prop :=
  ∀ id row d, s.journal.row id = some row → resolver.lookup row.inst.definitionID = some d →
    ∃ n, n ≤ d.steps.length ∧ completedNames (s.journal.log id) = (d.steps.take n).map Step.name

theorem append_added {e : Event} (hok : (j.append now k.1 k.2 e).2.isOk = true) :
    ∃ row e', j.row k.1 = some row ∧ row.leaseID = k.2 ∧
      (j.append now k.1 k.2 e).1.log k.1 = j.log k.1 ++ [e'] ∧ e'.kind = e.kind ∧
      e'.stepName = e.stepName := by
  obtain ⟨row, -, e', hrow, hfenced, -, -, hlog, hkind, hname⟩ := append_effect hok
  exact ⟨row, e', hrow, (fenced_iff.1 hfenced).2.1, hlog, hkind, hname⟩

theorem markTerminal_added (j : MemJournal) (now : Time) (k : DriveKey) (final : Status) :
    (j.markTerminal now k.1 k.2 final).1.log k.1 = j.log k.1 ∨
      ∃ row e, j.row k.1 = some row ∧ row.leaseID = k.2 ∧
        (j.markTerminal now k.1 k.2 final).1.log k.1 = j.log k.1 ++ [e] ∧
        terminalEventKind final = some e.kind := by
  rcases j.markTerminal_cases now k.1 k.2 final with
    ⟨r, h, -⟩ | ⟨row, kind, inst, hrow, hfenced, hkind, -, h⟩
  · exact .inl (by rw [h])
  · have hlog := j.log_appendLocked { row with inst := inst } k.1 k.1
      { kind := kind, createdAt := now }
    rw [if_pos rfl] at hlog
    rw [h]
    exact .inr ⟨row, _, hrow, (fenced_iff.1 hfenced).2.1, hlog, hkind⟩

theorem heartbeat_log (j : MemJournal) (now : Time) (id leaseID : SafeID)
    (leaseDuration : Duration) (i : SafeID) :
    (j.heartbeat now id leaseID leaseDuration).1.log i = j.log i := by
  rcases j.heartbeat_cases now id leaseID leaseDuration with
    ⟨r, h, -⟩ | ⟨row, -, -, -, h⟩ <;> rw [h]
  rfl

theorem commit_events {later : Time} {a : CommitStepArgs} {emit : Except Err Unit}
    {j' : MemJournal} (h : commitStep j now later k.1 k.2 a emit = .ok j') :
    ∃ row e closing, j.row k.1 = some row ∧ row.leaseID = k.2 ∧
      j'.log k.1 = j.log k.1 ++ e :: closing ∧ e.kind = a.event.kind ∧
      e.stepName = a.event.stepName ∧
      ∀ e' ∈ closing, e'.kind = .sagaFailed ∨ e'.kind = .sagaSucceeded := by
  obtain ⟨hok, hj⟩ := commitStep_ok h
  obtain ⟨row, e, hrow, hlease, hlog, hkind, hname⟩ := append_added hok
  refine ⟨row, e, ?_⟩
  cases hclose : a.closes with
  | none =>
    simp only [hclose] at hj
    exact ⟨[], hrow, hlease, by rw [hj, hlog], hkind, hname, fun _ he ↦ absurd he not_mem_nil⟩
  | some final =>
    have hfinal : final = .failed ∨ final = .succeeded := by
      unfold CommitStepArgs.closes at hclose
      cases hres : a.result with
      | error => exact .inl (some.inj (by rw [← hclose, hres])).symm
      | ok =>
        rw [hres] at hclose
        simp only at hclose
        split_ifs at hclose
        exact .inr (some.inj hclose).symm
    simp only [hclose] at hj
    rcases markTerminal_added (j.append now k.1 k.2 a.event).1 later k final with
      hsame | ⟨-, e₂, -, -, hlog₂, hkind₂⟩
    · exact ⟨[], hrow, hlease, by rw [hj, hsame, hlog], hkind, hname,
        fun _ he ↦ absurd he not_mem_nil⟩
    · refine ⟨[e₂], hrow, hlease, by rw [hj, hlog₂, hlog, append_assoc]; rfl, hkind, hname, ?_⟩
      intro e' he'
      rw [mem_singleton.1 he']
      rcases hfinal with rfl | rfl
      · exact .inl (some.inj hkind₂).symm
      · exact .inr (some.inj hkind₂).symm

theorem completedNames_of_ne {added : List Event} (h : ∀ e ∈ added, e.kind ≠ .stepCompleted) :
    completedNames added = [] := by
  simpa [completedNames, filter_eq_nil_iff] using h

theorem completedNames_concat {log : List Event} {e : Event} (he : e.kind ≠ .stepCompleted) :
    completedNames (log ++ [e]) = completedNames log := by
  simp [completedNames, he]

theorem DriveStep.completed (h : DriveStep resolver s k d s') :
    completedNames (s'.journal.log k.1) = completedNames (s.journal.log k.1) ∨
      ∃ a row, d.pc = .commit a ∧ s.journal.row k.1 = some row ∧ row.leaseID = k.2 ∧
        completedNames (s'.journal.log k.1) =
          completedNames (s.journal.log k.1) ++ [a.step.name] := by
  cases h with
  | lookup | load | execute | rollBackCommit | skip | compensate | loseRecord | finishWalk | stop
  | crash => exact .inl rfl
  | commit a _ _ _ hpc _ hj =>
    obtain ⟨row, e, closing, hrow, hlease, hlog, hkind, hname, hclosing⟩ := commit_events hj
    have hclosed : completedNames closing = [] := by
      refine completedNames_of_ne fun e' he' ↦ ?_
      rcases hclosing e' he' with hkind' | hkind' <;> rw [hkind'] <;> simp
    obtain ⟨step, result, isLastStep⟩ := a
    rw [resume_journal, hlog, ← singleton_append, ← append_assoc,
      completedNames_append, hclosed, append_nil]
    cases result with
    | error =>
      left
      refine completedNames_concat ?_
      rw [hkind]
      simp [CommitStepArgs.event]
    | ok =>
      refine .inr ⟨_, row, hpc, hrow, hlease, ?_⟩
      rw [completedNames_append]
      simp [completedNames, hkind, hname, CommitStepArgs.event]
  | startCompensation _ _ _ _ hok =>
    obtain ⟨row, e, -, -, hlog, hkind, -⟩ := append_added hok
    left
    rw [resume_journal, hlog]
    refine completedNames_concat ?_
    rw [hkind]
    simp
  | preflight =>
    exact .inl (congrArg completedNames (heartbeat_log _ _ _ _ _ _))
  | record r step failure hpc hok =>
    obtain ⟨row, e, -, -, hlog, hkind, -⟩ := append_added hok
    left
    rw [resume_journal, hlog]
    refine completedNames_concat ?_
    rw [hkind]
    cases failure <;> simp [compensationEvent]
  | markTerminal final =>
    left
    rcases markTerminal_added s.journal s.now k final with hsame | ⟨row, e, -, -, hlog, hkind⟩
    · exact congrArg completedNames hsame
    · refine (congrArg completedNames hlog).trans (completedNames_concat fun hcompleted ↦ ?_)
      rw [hcompleted] at hkind
      exact Bool.noConfusion (terminalEventKind_isTerminal hkind).2
  | heartbeat =>
    exact .inl (congrArg completedNames (heartbeat_log _ _ _ _ _ _))

theorem Forward.extends_inOrder {inst : Instance} {defn : Definition} {events : List Event}
    {cursor : ℕ} {row : InstanceRow} {step : Step}
    (h : Forward resolver j k inst defn events cursor) (hrow : j.row k.1 = some row)
    (hlease : row.leaseID = k.2) (hstep : defn.steps[cursor]? = some step) {n : ℕ}
    (hn : n ≤ defn.steps.length)
    (hnames : completedNames (j.log k.1) = (defn.steps.take n).map Step.name) :
    cursor + 1 ≤ defn.steps.length ∧ completedNames (j.log k.1) ++ [step.name] =
        (defn.steps.take (cursor + 1)).map Step.name := by
  have hcursor : cursor = n := by
    rw [h.cursor_eq, ← (h.held row hrow hlease).2, hnames, length_map, length_take]
    omega
  subst hcursor
  refine ⟨h.inRange, ?_⟩
  rw [hnames, take_add_one, hstep, map_append]
  rfl

theorem Coordinators.InOrder.step (ho : s.InOrder resolver) (hs : s.Inv resolver) {a : Action}
    (h : s.step resolver a = some s') : s'.InOrder resolver := by
  intro id row' defn hrow' hreg
  cases step_rowChange h id with
  | same hrow hlog =>
    rw [hlog]
    exact ho id row' defn (hrow ▸ hrow') hreg
  | added _ _ _ hlog =>
    exact ⟨0, Nat.zero_le _, by rw [hlog]; rfl⟩
  | claimed row _ _ hrow _ _ hclaimed hlog =>
    cases hclaimed.symm.trans hrow'
    rw [hlog]
    exact ho id row defn hrow hreg
  | own row row₂ hrow hactor hrow₂ _ horigin =>
    obtain rfl := some.inj (hrow₂.symm.trans hrow')
    have hdef : row₂.inst.definitionID = row.inst.definitionID :=
      congrArg (fun o ↦ o.2.1) horigin
    rw [hdef] at hreg
    obtain ⟨n, hn, hnames⟩ := ho id row defn hrow hreg
    cases a with
    | advanceClock | enqueue | tick => cases hactor
    | drive k a =>
      cases hactor
      obtain ⟨d, hd, h⟩ := bind_eq_some_iff.1 h
      rcases (driveStep_cases h).completed with hsame | ⟨args, row₃, hpc, hrow₃, hlease₃, hext⟩
      · exact ⟨n, hn, hsame.trans hnames⟩
      · have hk := hs.drives _ d hd
        obtain ⟨row₄, hrow₄, horigin₄⟩ := hk.origin
        cases hrow.symm.trans hrow₄
        have hinv := hk.pc
        rw [hpc] at hinv
        obtain ⟨defn₂, events, cursor, hfwd, hstep⟩ := hinv
        have hdef₂ : row.inst.definitionID = d.ci.inst.definitionID :=
          congrArg (fun o ↦ o.2.1) horigin₄
        rw [hdef₂, hfwd.registered] at hreg
        cases hreg
        obtain ⟨hle, htake⟩ := hfwd.extends_inOrder hrow rfl hstep hn hnames
        exact ⟨cursor + 1, hle, hext.trans htake⟩

theorem inOrder_exec {actions : List Action}
    (h : exec (Coordinators.step resolver) { now := now } actions = some s) :
    s.Inv resolver ∧ s.InOrder resolver := by
  refine exec_invariant (fun s ↦ s.Inv resolver ∧ s.InOrder resolver) ?_ actions _ s ?_ h
  · rintro t a t' ⟨hi, ho⟩ hstep
    exact ⟨hi.step hstep, ho.step hi hstep⟩
  · refine ⟨inv_initial resolver now, fun id row d hrow ↦ ?_⟩
    cases hrow

/-- Any number of coordinators over one journal, with claims, crashes and lost leases at any
point, commit the steps of a definition in order, each once. -/
theorem coordinators_commit_in_order (resolver : Resolver) (now : Time) (actions : List Action)
    (s : Coordinators) (h : exec (Coordinators.step resolver) { now := now } actions = some s)
    (id : SafeID) (row : InstanceRow) (d : Definition) (hrow : s.journal.row id = some row)
    (hreg : resolver.lookup row.inst.definitionID = some d) :
    (s.journal.log id).map Event.version = List.range' 1 (s.journal.log id).length ∧
      (completedNames (s.journal.log id)).Nodup ∧
      ∃ n, n ≤ d.steps.length ∧
        completedNames (s.journal.log id) = (d.steps.take n).map Step.name := by
  obtain ⟨hi, ho⟩ := inOrder_exec h
  obtain ⟨n, hn, hnames⟩ := ho id row d hrow hreg
  refine ⟨?_, ?_, n, hn, hnames⟩
  · rw [hi.sound.versions id row hrow, hi.sound.toConsistent.log_length hrow]
  · have hnodup := (Definition.validate_ok (resolver.validated _ _ hreg)).2.1
    rw [hnames, map_take]
    exact hnodup.sublist (take_sublist _ _)

def orderSaga : Definition where
  id := "order"
  steps := [{ name := "reserve", hasCompensate := true }, { name := "charge" }]

theorem orderSaga_registered : newInMemoryRegistry [orderSaga] =
    .ok ((∅ : Table SafeID Definition).insert "order" orderSaga) := rfl

def orderResolver : Resolver := inMemoryResolver orderSaga_registered

def commitNext (leaseID : SafeID) (now : Time) : List Action :=
  [DriveAction.lookup, .load, .execute (.succeeded []), .commit now (.ok ())].map
    (Action.drive ("i", leaseID))

def handover : List Action :=
  [Action.advanceClock 10, .enqueue (newInstance "i" "order" 10), .tick "a" 1 5] ++
    (commitNext "a" 10).take 3 ++ [Action.advanceClock 20, .tick "b" 1 5] ++ commitNext "b" 20 ++
    [Action.drive ("i", "a") (.commit 20 (.ok ())), .advanceClock 30, .tick "c" 1 5] ++
    commitNext "c" 30

theorem coordinators_commit_in_order_handover :
    ∃ s row, exec (Coordinators.step orderResolver) { now := 0 } handover = some s ∧
      s.journal.row "i" = some row ∧
      completedNames (s.journal.log "i") = ["reserve", "charge"] ∧
      ∃ n, n ≤ 2 ∧ completedNames (s.journal.log "i") = (orderSaga.steps.take n).map Step.name := by
  have hrun : ((exec (Coordinators.step orderResolver) { now := 0 } handover).bind fun s ↦
      (s.journal.row "i").map fun row ↦
        (row.inst.definitionID, completedNames (s.journal.log "i"))) =
      some ("order", ["reserve", "charge"]) := by decide
  obtain ⟨s, hs, hrow⟩ := bind_eq_some_iff.1 hrun
  obtain ⟨row, hrow, heq⟩ := map_eq_some_iff.1 hrow
  obtain ⟨hdef, hnames⟩ := Prod.mk.inj heq
  have hreg : orderResolver.lookup row.inst.definitionID = some orderSaga := by rw [hdef]; rfl
  exact ⟨s, row, hs, hrow, hnames, (coordinators_commit_in_order orderResolver 0 handover s hs "i"
    row orderSaga hrow hreg).2.2⟩

end GoCell.Saga
