import GoCell.Saga.CoordinatorInvariant

namespace GoCell.Saga

open Foundation Kernel MemJournal List Option

variable {resolver : Resolver} {s s' : Coordinators} {j : MemJournal} {k : DriveKey} {d : Drive}
  {now : Time}

/-- Coordinators about to start over a journal that earlier calls have filled, under a clock that
never went backwards: no drive is running, and no lease of the journal will be handed out again. -/
structure Coordinators.Start (s : Coordinators) (calls : List (Time × Call)) : Prop where
  journal : s.journal = after MemJournal.call {} calls
  clock : (calls.map Prod.fst).Pairwise (· ≤ ·)
  past : ∀ c ∈ calls, c.1 ≤ s.now
  drives : s.drives = ∅
  leases : ∀ id row, s.journal.row id = some row → row.leaseID = "" ∨ row.leaseID ∈ s.leases

theorem timely_after {m : MemJournal} {t : Time} {calls : List (Time × Call)} (hm : m.Timely t)
    (hfrom : ∀ c ∈ calls, t ≤ c.1) (hclock : (calls.map Prod.fst).Pairwise (· ≤ ·))
    (hpast : ∀ c ∈ calls, c.1 ≤ now) (ht : t ≤ now) :
    (after MemJournal.call m calls).Timely now := by
  induction calls generalizing m t with
  | nil => exact hm.mono ht
  | cons c calls ih =>
    obtain ⟨hle, hclock⟩ := pairwise_cons.1 hclock
    have hstep := (hm.mono (hfrom c mem_cons_self)).call c.2
    refine ih hstep (fun c' hc' ↦ ?_) hclock (fun c' hc' ↦ ?_) (hpast c mem_cons_self)
    · exact hle c'.1 (mem_map.2 ⟨c', hc', rfl⟩)
    · exact hpast c' (mem_cons_of_mem c hc')

theorem Coordinators.Start.inv {calls : List (Time × Call)} (h : s.Start calls) :
    s.Inv resolver where
  sound := by
    rw [h.journal]
    exact after_invariant Sound (fun _ c hc ↦ hc.call c) calls {} sound_empty
  timely := by
    rw [h.journal]
    cases hcalls : calls with
    | nil =>
      intro id row hrow
      cases hrow
    | cons c rest =>
      rw [hcalls] at h
      have hclock := h.clock
      rw [map_cons, pairwise_cons] at hclock
      have hempty : ({} : MemJournal).Timely c.1 := fun id row hrow ↦ by cases hrow
      refine timely_after hempty (fun c' hc' ↦ ?_) h.clock h.past (h.past c mem_cons_self)
      rcases mem_cons.1 hc' with rfl | hc'
      · exact le_refl _
      · exact hclock.1 c'.1 (mem_map.2 ⟨c', hc', rfl⟩)
  leases := h.leases
  drives k d hd := by
    rw [h.drives] at hd
    cases hd

/-- The `MarkTerminal` call that the next action of a drive issues, with the journal and the
instant at which it is made: on its own, or inside the transaction that commits a step. -/
inductive TerminalCall (s : Coordinators) (k : DriveKey) (d : Drive) :
    MemJournal → Time → Status → Prop
  | direct (final : Status) (r : Option Rollback) (hpc : d.pc = .markTerminal final r) :
    TerminalCall s k d s.journal s.now final
  | inCommit (a : CommitStepArgs) (later : Time) (final : Status) (hpc : d.pc = .commit a)
      (hlater : s.now ≤ later) (hok : (s.journal.append s.now k.1 k.2 a.event).2.isOk = true)
      (hclose : a.closes = some final) :
    TerminalCall s k d (s.journal.append s.now k.1 k.2 a.event).1 later final

section

variable {t : Time} {final : Status} (h : TerminalCall s k d j t final) (hs : s.Inv resolver)
include h hs

theorem TerminalCall.sound : j.Sound ∧ j.Timely t := by
  cases h with
  | direct => exact ⟨hs.sound, hs.timely⟩
  | inCommit a _ _ _ hlater =>
    exact ⟨hs.sound.append s.now k.1 k.2 a.event, (hs.timely.append k.1 k.2 a.event).mono hlater⟩

theorem TerminalCall.isTerminal (hd : s.drives.lookup k = some d) : final.isTerminal = true := by
  cases h with
  | direct final r hpc =>
    have hinv := (hs.drives k d hd).pc
    rw [hpc] at hinv
    cases r with
    | none =>
      rcases hinv with ⟨-, rfl⟩ | ⟨-, rfl | rfl | rfl, -⟩ <;> rfl
    | some r =>
      rw [hinv.1]
      exact finalStatus_isTerminal r
  | inCommit _ _ _ _ _ _ hclose =>
    unfold CommitStepArgs.closes at hclose
    split at hclose
    · rw [← some.inj hclose]
      rfl
    · split_ifs at hclose
      rw [← some.inj hclose]
      rfl

end

/-- At a terminal call under a valid lease, the status may move to the one named if the definition
is registered, and the call names `Failed` if not. -/
theorem TerminalCall.row {t : Time} {final : Status} {row : InstanceRow}
    (h : TerminalCall s k d j t final) (hs : s.Inv resolver) (hd : s.drives.lookup k = some d)
    (hrow : j.row k.1 = some row) (hfenced : fenced row k.2 t = true) :
    ((resolver.lookup row.inst.definitionID).isSome = true ∧
        row.inst.status.canTransitionTo final = true) ∨
      (resolver.lookup row.inst.definitionID = none ∧ final = .failed) := by
  have hk := hs.drives k d hd
  have hinv := hk.pc
  obtain ⟨row₀, hrow₀, horigin⟩ := hk.origin
  have hlease := (fenced_iff.1 hfenced).2.1
  cases h with
  | direct final r hpc =>
    cases hrow.symm.trans hrow₀
    have hdef : row.inst.definitionID = d.ci.inst.definitionID :=
      congrArg (fun o ↦ o.2.1) horigin
    rw [hpc] at hinv
    rw [hdef]
    cases r with
    | none =>
      rcases hinv with hmissing | ⟨hreg, -, hheld⟩
      · exact .inr hmissing
      · exact .inl ⟨hreg, hheld row hrow hlease⟩
    | some r =>
      obtain ⟨rfl, -, hroll, -⟩ := hinv
      refine .inl ⟨by rw [hroll.registered]; rfl, ?_⟩
      rw [(hroll.held row hrow hlease).1, Rollback.finalStatus]
      split_ifs <;> rfl
  | inCommit a _ _ hpc _ hok hclose =>
    obtain ⟨row₁, inst, e, hrow₁, -, hstatus, hrow', -⟩ := append_effect hok
    cases hrow₀.symm.trans hrow₁
    cases hrow.symm.trans hrow'
    rw [hpc] at hinv
    obtain ⟨defn, events, cursor, hfwd, -⟩ := hinv
    have hchange : RowChange s.leases (some k) s.journal
        (s.journal.append s.now k.1 k.2 a.event).1 k.1 := (writes_append _ _ _ _ k.1).rowChange
    obtain ⟨row₂, hrow₂, horigin₂⟩ := hchange.origin hrow₀
    cases hrow.symm.trans hrow₂
    have hdef : inst.definitionID = d.ci.inst.definitionID :=
      congrArg (fun o ↦ o.2.1) (horigin₂.trans horigin)
    refine .inl ⟨?_, ?_⟩
    · rw [hdef, hfwd.registered]
      rfl
    · have hrunning : inst.status = .running := by
        unfold CommitStepArgs.event at hstatus
        cases hres : a.result <;> simp only [hres, statusAfter] at hstatus <;>
          split_ifs at hstatus <;> exact (some.inj hstatus).symm
      unfold CommitStepArgs.closes at hclose
      simp only [hrunning]
      cases hres : a.result with
      | error =>
        simp only [hres, some.injEq] at hclose
        rw [← hclose]
        rfl
      | ok =>
        simp only [hres] at hclose
        split_ifs at hclose
        rw [← some.inj hclose]
        rfl

theorem markTerminal_started {row : InstanceRow} {id leaseID : SafeID} {final : Status}
    (hrow : j.row id = some row) (hok : (j.markTerminal now id leaseID final).2 = .ok true) :
    row.inst.startedAt ≤ now := by
  rcases j.markTerminal_cases now id leaseID final with
    ⟨r, h, hr⟩ | ⟨row', kind, inst, hrow', -, -, hadv, -⟩
  · rw [h] at hok
    exact absurd hok hr
  · cases hrow.symm.trans hrow'
    exact (advanceSaga_ok.1 hadv).2.1

def MemJournal.Unclaimable (j : MemJournal) (id : SafeID) : Prop :=
  ∀ now row, j.row id = some row → claimable now row = false

/-- A terminal call under a valid lease moves the instance to a status the transition table allows
and out of the claimable set, unless it is compensating without a registered definition, or starts
in the future of the clock. -/
theorem terminal_call_succeeds_iff (resolver : Resolver) (calls : List (Time × Call))
    (s₀ s : Coordinators) (hstart : s₀.Start calls) (actions : List Action)
    (hrun : exec (Coordinators.step resolver) s₀ actions = some s) (k : DriveKey) (d : Drive)
    (hd : s.drives.lookup k = some d) (j : MemJournal) (t : Time) (final : Status)
    (hcall : TerminalCall s k d j t final) (row : InstanceRow) (hrow : j.row k.1 = some row)
    (hfenced : fenced row k.2 t = true) :
    (row.inst.status.canTransitionTo final = true ∧ (j.markTerminal t k.1 k.2 final).2 = .ok true ∧
        (j.markTerminal t k.1 k.2 final).1.Unclaimable k.1) ↔
      ((resolver.lookup row.inst.definitionID).isSome = true ∨ row.inst.status ≠ .compensating) ∧
        row.inst.startedAt ≤ t := by
  have hs : s.Inv resolver := hstart.inv.exec hrun
  obtain ⟨hsound, htimely⟩ := hcall.sound hs
  have hknown := hcall.row hs hd hrow hfenced
  constructor
  · rintro ⟨hto, hok, -⟩
    refine ⟨?_, markTerminal_started hrow hok⟩
    rcases hknown with ⟨hreg, -⟩ | ⟨-, rfl⟩
    · exact .inl hreg
    · refine .inr fun hcomp ↦ ?_
      rw [hcomp] at hto
      cases hto
  · rintro ⟨hcond, hstarted⟩
    have hto : row.inst.status.canTransitionTo final = true := by
      rcases hknown with ⟨-, hto⟩ | ⟨hnone, rfl⟩
      · exact hto
      · rcases hcond with hreg | hcomp
        · rw [hnone] at hreg
          cases hreg
        · obtain ⟨hempty, -, -⟩ := fenced_iff.1 hfenced
          rcases hsound.leased_status hrow hempty with h | h | h
          · rw [h]
            rfl
          · rw [h]
            rfl
          · exact absurd h hcomp
    have hkind : ∃ kind, terminalEventKind final = some kind := by
      have hterminal := hcall.isTerminal hs hd
      cases final <;> first | exact ⟨_, rfl⟩ | cases hterminal
    obtain ⟨kind, hkind⟩ := hkind
    obtain ⟨hok, ⟨row', hrow', hstatus⟩, -⟩ :=
      markTerminal_succeeds hrow hfenced hkind hto hstarted (htimely k.1 row hrow).1
    refine ⟨hto, hok, fun now row'' hrow'' ↦ ?_⟩
    cases hrow'.symm.trans hrow''
    rw [claimable, hstatus, hcall.isTerminal hs hd]
    rfl

def emptyResolver : Resolver := inMemoryResolver (rfl : newInMemoryRegistry [] = .ok ∅)

variable (events : List Event)

/-- Earlier calls on the journal: an instance is enqueued, claimed, and `events` are appended. -/
def earlierCalls : List (Time × Call) :=
  [(10, .enqueue (newInstance "i" "order" 10)), (10, .claimPending (.ok "a") 1 5)] ++
    events.map fun e ↦ (10, .append "i" "a" e)

def restarted : Coordinators where
  journal := after MemJournal.call {} (earlierCalls events)
  now := 20
  leases := ["a"]

def lookupAgain : List Action := [.tick "b" 1 5, .drive ("i", "b") .lookup]

theorem restarted_start (hleases : ∀ e ∈ (restarted events).journal.instances.entries,
      e.2.leaseID = "" ∨ e.2.leaseID ∈ (restarted events).leases) :
    (restarted events).Start (earlierCalls events) where
  journal := rfl
  clock := by
    have hten : (earlierCalls events).map Prod.fst = replicate (events.length + 2) 10 := by
      rw [earlierCalls, List.map_append, List.map_map]
      exact congrArg ([10, 10] ++ ·) map_const'
    rw [hten]
    exact pairwise_replicate.2 (.inr le_rfl)
  past c hc := by
    have hten : c.1 = 10 := by
      rcases mem_append.1 hc with hc | hc
      · rcases mem_cons.1 hc with rfl | hc
        · rfl
        · rw [mem_singleton.1 hc]
      · obtain ⟨e, -, rfl⟩ := mem_map.1 hc
        rfl
    rw [hten]
    exact Int.le_add_of_nonneg_right (show (0 : ℤ) ≤ 10 by decide)
  drives := rfl
  leases id row hrow := hleases ⟨id, row⟩ (AList.mem_lookup_iff.1 hrow)

theorem restarted_terminalCall (status : Status)
    (hview : ((exec (Coordinators.step emptyResolver) (restarted events) lookupAgain).bind fun s ↦
      (s.drives.lookup ("i", "b")).bind fun d ↦ (s.journal.row "i").map fun row ↦
        (d.pc, row.inst.status, fenced row "b" s.now, row.inst.startedAt, s.now)) =
      some (.markTerminal .failed none, status, true, 10, 20)) :
    ∃ s d row, exec (Coordinators.step emptyResolver) (restarted events) lookupAgain = some s ∧
      s.drives.lookup ("i", "b") = some d ∧
      TerminalCall s ("i", "b") d s.journal s.now .failed ∧ s.journal.row "i" = some row ∧
      fenced row "b" s.now = true ∧ row.inst.status = status ∧ row.inst.startedAt ≤ s.now := by
  obtain ⟨s, hs, hview⟩ := bind_eq_some_iff.1 hview
  obtain ⟨d, hd, hview⟩ := bind_eq_some_iff.1 hview
  obtain ⟨row, hrow, hview⟩ := map_eq_some_iff.1 hview
  simp only [Prod.mk.injEq] at hview
  obtain ⟨hpc, hstatus, hfenced, hstarted, hnow⟩ := hview
  refine ⟨s, d, row, hs, hd, .direct .failed none hpc, hrow, hfenced, hstatus, ?_⟩
  rw [hstarted, hnow]
  decide

/-- A running instance without a definition is closed as failed. -/
theorem terminal_call_succeeds_iff_running : ∃ s d, exec (Coordinators.step emptyResolver)
        (restarted [{ kind := .stepCompleted, stepName := "reserve" }]) lookupAgain = some s ∧
      s.drives.lookup ("i", "b") = some d ∧
      TerminalCall s ("i", "b") d s.journal s.now .failed ∧
      (s.journal.markTerminal s.now "i" "b" .failed).2 = .ok true ∧
      (s.journal.markTerminal s.now "i" "b" .failed).1.Unclaimable "i" := by
  obtain ⟨s, d, row, hs, hd, hcall, hrow, hfenced, hstatus, hstarted⟩ :=
    restarted_terminalCall [{ kind := .stepCompleted, stepName := "reserve" }] .running rfl
  have hiff := terminal_call_succeeds_iff emptyResolver _ _ s (restarted_start _ (by decide))
    lookupAgain hs ("i", "b") d hd s.journal s.now .failed hcall row hrow hfenced
  refine ⟨s, d, hs, hd, hcall, (hiff.2 ⟨.inr ?_, hstarted⟩).2⟩
  rw [hstatus]
  decide

def startedRollback : List Event :=
  [{ kind := .stepCompleted, stepName := "reserve" }, { kind := .compensationStarted }]

/-- A compensating instance without a definition: the coordinator asks for `Failed` under a valid
lease, the journal rejects it, and the instance stays claimable. -/
theorem terminal_call_rejected :
    ∃ s d row e, (restarted startedRollback).Start (earlierCalls startedRollback) ∧
      exec (Coordinators.step emptyResolver) (restarted startedRollback) lookupAgain = some s ∧
      s.drives.lookup ("i", "b") = some d ∧
      TerminalCall s ("i", "b") d s.journal s.now .failed ∧ s.journal.row "i" = some row ∧
      fenced row "b" s.now = true ∧ row.inst.startedAt ≤ s.now ∧
      row.inst.status.canTransitionTo .failed = false ∧
      (s.journal.markTerminal s.now "i" "b" .failed).2 = .error e ∧
      ¬(s.journal.markTerminal s.now "i" "b" .failed).1.Unclaimable "i" := by
  obtain ⟨s, d, row, hs, hd, hcall, hrow, hfenced, hstatus, hstarted⟩ :=
    restarted_terminalCall startedRollback .compensating rfl
  have hto : row.inst.status.canTransitionTo .failed = false := by
    rw [hstatus]
    rfl
  have hrejected : ∃ e, s.journal.markTerminal s.now "i" "b" .failed = (s.journal, .error e) := by
    simp only [MemJournal.markTerminal, hrow, hfenced, if_true, checkTerminal, terminalEventKind,
      advanceSaga, transition, hto]
    exact ⟨_, rfl⟩
  obtain ⟨e, hrejected⟩ := hrejected
  refine ⟨s, d, row, e, restarted_start _ (by decide), hs, hd, hcall, hrow, hfenced, hstarted, hto,
    ?_, ?_⟩
  · rw [hrejected]
  · rw [hrejected]
    intro hun
    have hclaim := hun (row.leaseExpiresAt + 1) row hrow
    simp only [claimable, hstatus, Status.isTerminal, Bool.not_false, Bool.true_and,
      Bool.or_eq_false_iff, decide_eq_false_iff_not] at hclaim
    exact hclaim.2 (Int.lt_add_one_of_le le_rfl)

end GoCell.Saga
