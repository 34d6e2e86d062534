import GoCell.Saga.JournalInvariant
import GoCell.Saga.PGJournal

namespace GoCell.Saga

open Foundation Kernel MemJournal List Option PGJournal InstanceRow

theorem pgTime_of_dvd {t : Time} (h : 1000 ∣ t) : pgTime t = t := Int.ediv_mul_cancel h

theorem pgInterval_of_dvd {d : Duration} (h : 1000 ∣ d) : pgInterval d = d :=
  Int.tdiv_mul_cancel h

theorem projectLog_valid {log : List Event} {s : Status} (h : projectLog log = some s) :
    ∀ e ∈ log, e.kind.valid = true := by
  induction log using reverseRecOn generalizing s with
  | nil => simp
  | append_singleton log e ih =>
    rw [projectLog_append, bind_eq_some_iff] at h
    obtain ⟨t, ht, he⟩ := h
    intro e' he'
    rcases mem_append.1 he' with he' | he'
    · exact ih ht e' he'
    · obtain rfl := mem_singleton.1 he'
      cases hk : e'.kind <;> first | rfl | (rw [hk] at he; cases he)

/-- An instance on the journal never leaves step zero, and has no completion time while it is
open. -/
def Instance.Plain (i : Instance) : Prop :=
  i.currentStep = 0 ∧ (i.status.isTerminal = false → i.completedAt = none)

theorem advanceSaga_plain {i j : Instance} {dst : Status} {now : Time} (hi : i.Plain)
    (h : advanceSaga i dst now = .ok j) : j.Plain := by
  obtain ⟨hto, -, -, rfl⟩ := advanceSaga_ok.1 h
  refine ⟨hi.1, fun hopen ↦ ?_⟩
  have hsrc : i.status.isTerminal = false := by
    by_contra hterm
    rw [terminal_has_no_transition (Bool.not_eq_false _ ▸ hterm)] at hto
    cases hto
  simp only at hopen
  simp only [hopen, Bool.false_eq_true, if_false]
  exact hi.2 hsrc

theorem replayLog_plain {origin : SafeID × SafeID × Time} {log : List Event} {inst : Instance}
    (h : replayLog origin log = .ok inst) : inst.Plain := by
  induction log using reverseRecOn generalizing inst with
  | nil =>
    cases h
    exact ⟨rfl, fun _ ↦ rfl⟩
  | append_singleton log e ih =>
    rw [replayLog_append, bind_ok] at h
    obtain ⟨i, hi, he⟩ := h
    unfold replayEvent at he
    split at he
    · exact advanceSaga_plain (ih hi) he
    · rcases applyProjection_cases he with rfl | ⟨dst, hdst⟩
      · exact ih hi
      · exact advanceSaga_plain (ih hi) hdst

section Advance

variable {i j : Instance} {now : Time}

theorem advanceSaga_map_const {α : Type} (hstatus : j.status = i.status)
    (hstart : j.startedAt = i.startedAt) (hi : ∀ u ∈ i.updatedAt, u ≤ now)
    (hj : ∀ u ∈ j.updatedAt, u ≤ now) (dst : Status) (a : α) :
    (advanceSaga j dst now).map (fun _ ↦ a) = (advanceSaga i dst now).map fun _ ↦ a := by
  have hi' : i.updatedAt.all (· ≤ now) = true := by
    simpa [Option.all_eq_true] using hi
  have hj' : j.updatedAt.all (· ≤ now) = true := by
    simpa [Option.all_eq_true] using hj
  unfold advanceSaga guardMonotonic transition
  rw [hstatus, hstart, hi', hj']
  cases i.status.canTransitionTo dst <;> cases decide (i.startedAt ≤ now) <;> rfl

theorem advanceSaga_map_status (i : Instance) (dst : Status) (now : Time) :
    (advanceSaga i dst now).map Instance.status = (advanceSaga i dst now).map fun _ ↦ dst := by
  cases h : advanceSaga i dst now with
  | error e => rfl
  | ok k => exact congrArg Except.ok (advanceSaga_status h).2

theorem projectAppend_eq (hstatus : j.status = i.status) (hstart : j.startedAt = i.startedAt)
    (hi : ∀ u ∈ i.updatedAt, u ≤ now) (hj : ∀ u ∈ j.updatedAt, u ≤ now) (kind : EventKind) :
    projectAppend j kind now = (applyProjection i kind now).map Instance.status := by
  have hadv : ∀ dst, (advanceSaga j dst now).map (fun _ ↦ dst) =
      (advanceSaga i dst now).map Instance.status := fun dst ↦ by
    rw [advanceSaga_map_status, advanceSaga_map_const hstatus hstart hi hj]
  cases kind
  case compensationStarted => exact hadv _
  case stepStarted | stepCompleted | stepFailed =>
    simp only [projectAppend, applyProjection, hstatus]
    cases hs : i.status
    case pending => exact hadv _
    case running => exact congrArg Except.ok hs.symm
    all_goals rfl
  case stepCompensated | stepCompensationFailed =>
    simp only [projectAppend, applyProjection, hstatus]
    split_ifs <;> rfl
  all_goals exact congrArg Except.ok hstatus

end Advance

/-- The row of `saga_instances` that mirrors a row of the in-memory journal. -/
def InstanceRow.stored (updatedAt : Time) (row : InstanceRow) : SagaInstanceRow where
  definitionID := row.inst.definitionID
  status := statusToInt16 row.inst.status
  currentVersion := row.currentVersion
  leaseID := if row.leaseID = "" then none else some row.leaseID
  leaseExpiresAt := if row.leaseID = "" then none else some row.leaseExpiresAt
  startedAt := row.inst.startedAt
  updatedAt := updatedAt

def GlobalEvent.stored (g : GlobalEvent) : SagaEventRow where
  instanceID := g.instanceID
  version := g.event.version
  kind := kindToInt16 g.event.kind
  stepName := nullableStepName g.event.stepName
  payload := g.event.payload
  createdAt := g.event.createdAt
  globalSeq := g.globalSeq

structure Mirrors (m : MemJournal) (p : PGJournal) (now : Time) : Prop where
  rows : ∀ id, ∃ u ≤ now, p.sagaInstances.lookup id = (m.row id).map (InstanceRow.stored u)
  events : p.sagaEvents = m.globalLog.map GlobalEvent.stored
  globalSeq : p.globalSeq = m.globalSeq

variable {m : MemJournal} {p : PGJournal} {now : Time} {id leaseID : SafeID} {row : InstanceRow}

theorem Mirrors.mono {later : Time} (h : Mirrors m p now) (hle : now ≤ later) :
    Mirrors m p later where
  rows id := by
    obtain ⟨u, hu, hrow⟩ := h.rows id
    exact ⟨u, hu.trans hle, hrow⟩
  events := h.events
  globalSeq := h.globalSeq

theorem stored_checked (hvalid : row.inst.status.valid = true) (u : Time) :
    (row.stored u).checked = true := by
  have hrange : (1 ≤ statusToInt16 row.inst.status && statusToInt16 row.inst.status ≤ 8) =
      true := by
    cases hs : row.inst.status <;> first | rfl | (rw [hs] at hvalid; cases hvalid)
  unfold SagaInstanceRow.checked stored
  simp only [hrange, Bool.true_and]
  split_ifs <;> rfl

theorem MemJournal.Sound.status_valid (hm : m.Sound) (hrow : m.row id = some row) :
    row.inst.status.valid = true := by
  have hknown := projectLog_known (hm.projected id row hrow)
  simpa [Status.valid] using hknown

theorem Mirrors.lookup_none (h : Mirrors m p now) (hrow : m.row id = none) :
    p.sagaInstances.lookup id = none := by
  obtain ⟨u, -, hlookup⟩ := h.rows id
  rw [hlookup, hrow, map_none]

theorem Mirrors.lookup_some (h : Mirrors m p now) (hrow : m.row id = some row) :
    ∃ u ≤ now, p.sagaInstances.lookup id = some (row.stored u) := by
  obtain ⟨u, hu, hlookup⟩ := h.rows id
  exact ⟨u, hu, by rw [hlookup, hrow, map_some]⟩

def InstanceRow.locked (updatedAt : Time) (row : InstanceRow) : LockedRow where
  status := row.inst.status
  currentVersion := row.currentVersion
  lease := if row.leaseID = "" then none else some (row.leaseID, row.leaseExpiresAt)
  startedAt := row.inst.startedAt
  updatedAt := updatedAt

theorem selectInstanceLocked_stored {u : Time} (hvalid : row.inst.status.valid = true)
    (h : p.sagaInstances.lookup id = some (row.stored u)) :
    p.selectInstanceLocked id = .ok (some (row.locked u)) := by
  unfold selectInstanceLocked
  simp only [h, stored, statusFromInt16_statusToInt16 hvalid]
  unfold locked
  split_ifs <;> rfl

theorem fenced_locked (row : InstanceRow) (u : Time) (leaseID : SafeID) (now : Time) :
    (row.locked u).fenced leaseID now = fenced row leaseID now := by
  unfold locked LockedRow.fenced fenced
  split_ifs with hempty
  · simp [hempty]
  · simp [hempty]

theorem Mirrors.set {m' : MemJournal} {p' : PGJournal} (h : Mirrors m p now) (id : SafeID)
    (row' : InstanceRow) {u : Time} (hu : u ≤ now)
    (hrow : ∀ j, m'.row j = if j = id then some row' else m.row j)
    (hlookup : ∀ j, p'.sagaInstances.lookup j =
      if j = id then some (row'.stored u) else p.sagaInstances.lookup j)
    (hevents : p'.sagaEvents = m'.globalLog.map GlobalEvent.stored)
    (hseq : p'.globalSeq = m'.globalSeq) : Mirrors m' p' now where
  rows j := by
    by_cases hj : j = id
    · refine ⟨u, hu, ?_⟩
      rw [hlookup, hrow, if_pos hj, if_pos hj, map_some]
    · obtain ⟨v, hv, hold⟩ := h.rows j
      refine ⟨v, hv, ?_⟩
      rw [hlookup, hrow, if_neg hj, if_neg hj, hold]
  events := hevents
  globalSeq := hseq

section

variable (h : Mirrors m p now)
include h

theorem Mirrors.write (hm : m.Sound) (hrow : m.row id = some row)
    (hfenced : fenced row leaseID now = true) {u : Time}
    (hlookup : p.sagaInstances.lookup id = some (row.stored u))
    {set : SagaInstanceRow → SagaInstanceRow} {row' : InstanceRow}
    (hset : set (row.stored u) = row'.stored now) (hstatus : row'.inst.status.valid = true)
    {kind : EventKind} (hkind : kind.valid = true) (stepName : SafeID) (payload : Bytes)
    (hmicro : 1000 ∣ now) (msg msg' : String) :
    ∃ p₁ p₂, p.updateFenced id leaseID set msg = .ok p₁ ∧
      p₁.insertEvent id (row.currentVersion + 1) kind stepName payload now msg' = .ok p₂ ∧
      ∀ m' : MemJournal, (∀ j, m'.row j = if j = id then some row' else m.row j) →
        m'.globalLog = m.globalLog ++ [⟨m.globalSeq + 1, id,
          { version := row.currentVersion + 1, globalSeq := m.globalSeq + 1, kind := kind,
            stepName := stepName, payload := payload, createdAt := now }⟩] →
        m'.globalSeq = m.globalSeq + 1 → Mirrors m' p₂ now := by
  obtain ⟨hne, rfl, -⟩ := fenced_iff.1 hfenced
  have hlease : (row.stored u).leaseID = some row.leaseID := if_neg hne
  have hupdate : p.updateFenced id row.leaseID set msg =
      .ok { p with sagaInstances := p.sagaInstances.insert id (row'.stored now) } := by
    simp only [updateFenced, hlookup, hlease, if_true, hset, stored_checked hstatus, require]
    rfl
  have hchecked : (1 ≤ kindToInt16 kind && kindToInt16 kind ≤ 11) = true := by
    cases hk : kind <;> first | rfl | (rw [hk] at hkind; cases hkind)
  have hfresh : (p.sagaEvents.all fun e ↦
      !(e.instanceID = id && e.version = row.currentVersion + 1)) = true := by
    rw [h.events, List.all_map, List.all_eq_true]
    intro g hg
    by_cases hid : g.instanceID = id
    · have hlog : g.event ∈ m.log id := by
        rw [← hm.restricted id]
        exact mem_map.2 ⟨g, mem_filter.2 ⟨hg, by simpa using hid⟩, rfl⟩
      have hver := mem_map_of_mem (f := Event.version) hlog
      rw [hm.versions id row hrow, mem_range'_1] at hver
      have hne : g.event.version ≠ row.currentVersion + 1 := by omega
      simp [GlobalEvent.stored, hne]
    · simp [GlobalEvent.stored, hid]
  have hversion : decide (1 ≤ row.currentVersion + 1) = true := by simp
  let p₂ : PGJournal :=
    { sagaInstances := p.sagaInstances.insert id (row'.stored now)
      sagaEvents := p.sagaEvents ++ [GlobalEvent.stored ⟨m.globalSeq + 1, id,
        { version := row.currentVersion + 1, globalSeq := m.globalSeq + 1, kind := kind,
          stepName := stepName, payload := payload, createdAt := now }⟩]
      globalSeq := m.globalSeq + 1 }
  refine ⟨_, p₂, hupdate, ?_, fun m' hrows hlog hseq ↦ ?_⟩
  · simp only [insertEvent, SagaEventRow.checked, hchecked, hversion, hfresh,
      AList.lookup_insert, isSome_some, Bool.and_self, require, if_true,
      pgTime_of_dvd hmicro, h.globalSeq]
    rfl
  · refine h.set id row' le_rfl hrows (fun j ↦ lookup_insert_if _ _ _ _) ?_ hseq.symm
    rw [hlog, map_append, ← h.events]
    rfl

theorem Mirrors.enqueue {inst : Instance} (hnew : inst.validateNew = .ok ())
    (hstart : 1000 ∣ inst.startedAt) (hmicro : 1000 ∣ now) :
    Mirrors (m.enqueue inst).1 (p.enqueue now inst).1 now ∧
      (p.enqueue now inst).2 = (m.enqueue inst).2 := by
  obtain ⟨-, hstatus, -⟩ := validateNew_fresh hnew
  have hstored : (stored now { inst := inst }) =
      { definitionID := inst.definitionID, status := statusToInt16 inst.status
        startedAt := pgTime inst.startedAt, updatedAt := pgTime now } := by
    rw [pgTime_of_dvd hstart, pgTime_of_dvd hmicro]
    rfl
  have hchecked : (stored now { inst := inst }).checked = true :=
    stored_checked (by rw [hstatus]; rfl) now
  cases hrow : m.row inst.id with
  | some row =>
    obtain ⟨u, -, hlookup⟩ := h.lookup_some hrow
    have hmem : m.enqueue inst = (m, .error errDuplicateInstance) := by
      rw [MemJournal.enqueue, hrow]
      rfl
    have hpg : p.enqueue now inst = (p, .error errDuplicateInstance) := by
      simp only [PGJournal.enqueue, hnew, ← hstored, hchecked, hlookup]
      rfl
    rw [hmem, hpg]
    exact ⟨h, rfl⟩
  | none =>
    have hlookup := h.lookup_none hrow
    have hmem : m.enqueue inst = (m.addInstance inst, .ok ()) := by
      rw [MemJournal.enqueue, hrow, hnew]
      rfl
    have hpg : p.enqueue now inst = ({ p with
            sagaInstances :=
              p.sagaInstances.insert inst.id (stored now { inst := inst }) }, .ok ()) := by
      simp only [PGJournal.enqueue, hnew, ← hstored, hchecked, hlookup]
      rfl
    rw [hmem, hpg]
    exact ⟨h.set inst.id { inst := inst } le_rfl (m.row_addInstance inst)
      (fun j ↦ lookup_insert_if _ _ _ _) h.events h.globalSeq, rfl⟩

theorem Mirrors.append (hm : m.Sound) (ht : m.Timely now)
    (hmicro : 1000 ∣ now) (id leaseID : SafeID) (event : Event) :
    Mirrors (m.append now id leaseID event).1 (p.append now id leaseID event).1 now ∧
      (p.append now id leaseID event).2 = (m.append now id leaseID event).2 := by
  have hsound := hm.append now id leaseID event
  unfold MemJournal.append MemJournal.checkAppend PGJournal.append at *
  cases hrow : m.row id with
  | none =>
    simp only [selectInstanceLocked, h.lookup_none hrow]
    exact ⟨h, rfl⟩
  | some row =>
    obtain ⟨u, hu, hlookup⟩ := h.lookup_some hrow
    have hproj := projectAppend_eq (i := row.inst) (j := (row.locked u).workingInstance id) rfl rfl
      (ht id row hrow).1 (by rintro v ⟨⟩; exact hu) event.kind
    simp only [hrow] at hsound ⊢
    rw [selectInstanceLocked_stored (hm.status_valid hrow) hlookup]
    simp only [bind, Except.bind, fenced_locked, hproj]
    cases hfenced : fenced row leaseID now with
    | false => exact ⟨h, rfl⟩
    | true =>
      cases hvalid : event.validateForAppend with
      | error e => exact ⟨h, rfl⟩
      | ok _ =>
        cases happly : applyProjection row.inst event.kind now with
        | error e => exact ⟨h, rfl⟩
        | ok inst =>
          have horigin := applyProjection_origin happly
          simp only [Instance.origin, Prod.mk.injEq] at horigin
          obtain ⟨-, hdef, hstarted⟩ := horigin
          let row' : InstanceRow :=
            { row with inst := inst, currentVersion := row.currentVersion + 1 }
          have hset : (row.stored u).afterAppend inst.status now = row'.stored now := by
            simp only [SagaInstanceRow.afterAppend, stored, row', hdef, hstarted,
              pgTime_of_dvd hmicro]
          simp only [hfenced, hvalid, happly] at hsound
          have hstatus : row'.inst.status.valid = true :=
            @MemJournal.Sound.status_valid _ id row' hsound
              ((row_appendLocked _ _ _ _ _).trans (if_pos rfl))
          obtain ⟨p₁, p₂, hupdate, hinsert, hmirror⟩ :=
            h.write hm hrow hfenced hlookup hset hstatus (validateForAppend_kind hvalid).1
              event.stepName event.payload hmicro "saga journal: Append update projection failed"
              "saga journal: Append insert event failed"
          have hcurrent : (row.locked u).currentVersion = row.currentVersion := rfl
          simp only [require, if_true, Except.map, updateInstanceAfterAppend, hupdate,
            hcurrent, hinsert]
          exact ⟨hmirror _ (row_appendLocked _ _ _ · _) rfl rfl, rfl⟩

theorem Mirrors.markTerminal (hm : m.Sound) (ht : m.Timely now)
    (hmicro : 1000 ∣ now) (id leaseID : SafeID) (final : Status) :
    Mirrors (m.markTerminal now id leaseID final).1 (p.markTerminal now id leaseID final).1 now ∧
      (p.markTerminal now id leaseID final).2 = (m.markTerminal now id leaseID final).2 := by
  unfold MemJournal.markTerminal PGJournal.markTerminal
  cases hrow : m.row id with
  | none =>
    simp only [selectInstanceLocked, h.lookup_none hrow]
    exact ⟨h, rfl⟩
  | some row =>
    obtain ⟨u, hu, hlookup⟩ := h.lookup_some hrow
    have hadvance := advanceSaga_map_const (i := row.inst)
      (j := (row.locked u).workingInstance id) rfl rfl (ht id row hrow).1
      (by rintro v ⟨⟩; exact hu) final ()
    rw [selectInstanceLocked_stored (hm.status_valid hrow) hlookup]
    simp only [bind, Except.bind, fenced_locked, checkTerminal]
    cases hfenced : fenced row leaseID now with
    | false => exact ⟨h, rfl⟩
    | true =>
      cases hterminal : final.isTerminal with
      | false => exact ⟨h, rfl⟩
      | true =>
        cases hkind : terminalEventKind final with
        | none => exact ⟨h, rfl⟩
        | some kind =>
          cases hinst : advanceSaga row.inst final now with
          | error e =>
            cases hworking : advanceSaga ((row.locked u).workingInstance id) final now with
            | error e' =>
              rw [hinst, hworking] at hadvance
              cases hadvance
              exact ⟨h, rfl⟩
            | ok _ =>
              rw [hinst, hworking] at hadvance
              cases hadvance
          | ok inst =>
            obtain ⟨w, hw, -⟩ := map_ok.1 (hadvance.trans (congrArg (Except.map _) hinst))
            have horigin := advanceSaga_origin hinst
            simp only [Instance.origin, Prod.mk.injEq] at horigin
            obtain ⟨-, hdef, hstarted⟩ := horigin
            have hfinal := (advanceSaga_status hinst).2
            let row' : InstanceRow :=
              { row with inst := inst, currentVersion := row.currentVersion + 1, leaseID := "" }
            have hset : (row.stored u).terminal final now = row'.stored now := by
              simp only [SagaInstanceRow.terminal, stored, row', hdef, hstarted, hfinal,
                pgTime_of_dvd hmicro, if_true]
            have hstatus : row'.inst.status.valid = true := by
              change inst.status.valid = true
              rw [hfinal]
              cases final <;> first | rfl | cases hterminal
            have hvalid : kind.valid = true := by
              cases final <;> cases hkind <;> rfl
            obtain ⟨p₁, p₂, hupdate, hinsert, hmirror⟩ :=
              h.write hm hrow hfenced hlookup hset hstatus hvalid "" [] hmicro
                "saga journal: MarkTerminal update failed"
                "saga journal: MarkTerminal insert event failed"
            have hcurrent : (row.locked u).currentVersion = row.currentVersion := rfl
            simp only [require, if_true, updateInstanceTerminal, hupdate, hcurrent, hinsert, hw]
            refine ⟨hmirror _ (fun j ↦ ?_) rfl rfl, rfl⟩
            change ((m.appendLocked _ id _).releaseLease id).row j = _
            rw [row_releaseLease, row_appendLocked]
            split_ifs <;> rfl

theorem Mirrors.heartbeat (hmicro : 1000 ∣ now) (id leaseID : SafeID)
    {d : Duration} (hd : 1000 ∣ d) :
    Mirrors (m.heartbeat now id leaseID d).1 (p.heartbeat now id leaseID d).1 now ∧
      (p.heartbeat now id leaseID d).2 = (m.heartbeat now id leaseID d).2 := by
  unfold MemJournal.heartbeat PGJournal.heartbeat
  simp only [pgTime_of_dvd hmicro, pgInterval_of_dvd hd]
  by_cases hpos : d ≤ 0
  · have hneg : decide (0 < d) = false := by simpa using hpos
    simp only [hpos, if_true, hneg]
    exact ⟨h, rfl⟩
  · have hdec : decide (0 < d) = true := by simpa using hpos
    simp only [hpos, if_false, hdec]
    cases hrow : m.row id with
    | none =>
      simp only [h.lookup_none hrow]
      exact ⟨h, rfl⟩
    | some row =>
      obtain ⟨u, hu, hlookup⟩ := h.lookup_some hrow
      have hcas : (decide ((row.stored u).leaseID = some leaseID) &&
          (row.stored u).leaseExpiresAt.any fun t ↦ now ≤ t) = fenced row leaseID now := by
        unfold stored fenced
        have hexpiry : decide (now ≤ row.leaseExpiresAt) = !decide (row.leaseExpiresAt < now) := by
          rw [← decide_not]
          simp only [not_lt]
        by_cases hempty : row.leaseID = ""
        · simp [hempty]
        · simp [hempty, hexpiry]
      simp only [hlookup, hcas]
      cases hfenced : fenced row leaseID now with
      | false => exact ⟨h, rfl⟩
      | true =>
        have hne := (fenced_iff.1 hfenced).1
        have hstored : { row.stored u with leaseExpiresAt := some (now + d) } =
            stored u { row with leaseExpiresAt := now + d } := by
          simp only [stored, hne, if_false]
        refine ⟨h.set id { row with leaseExpiresAt := now + d } hu (fun j ↦ ?_) (fun j ↦ ?_)
          h.events h.globalSeq, rfl⟩
        · refine (m.row_extendLease id j (now + d)).trans ?_
          split_ifs with hj
          · rw [hj, hrow, map_some]
          · rfl
        · rw [← hstored]
          exact lookup_insert_if _ _ _ _

end

instance : IsTrans (SafeID × SagaInstanceRow) PGJournal.pickedBefore where
  trans a b c hab hbc := by
    rcases hab with hab | ⟨hab, hab'⟩ <;> rcases hbc with hbc | ⟨hbc, hbc'⟩
    · exact .inl (hab.trans hbc)
    · exact .inl (hbc ▸ hab)
    · exact .inl (hab ▸ hbc)
    · exact .inr ⟨hab.trans hbc, hab'.trans hbc'⟩

instance : Std.Total PGJournal.pickedBefore where
  total a b := by
    rcases lt_trichotomy a.2.startedAt b.2.startedAt with h | h | h
    · exact .inl (.inl h)
    · exact (le_total a.1 b.1).imp (fun hle ↦ .inr ⟨h, hle⟩) fun hle ↦ .inr ⟨h.symm, hle⟩
    · exact .inr (.inl h)

theorem pickedBefore_antisymm {a b : SafeID × SagaInstanceRow} (hab : pickedBefore a b)
    (hba : pickedBefore b a) : a.1 = b.1 := by
  rcases hab with hab | ⟨hab, hab'⟩ <;> rcases hba with hba | ⟨hba, hba'⟩
  · exact absurd hab hba.not_gt
  · exact absurd hba hab.ne'
  · exact absurd hab hba.ne'
  · exact le_antisymm hab' hba'

theorem pickedBefore_stored (a b : SafeID × InstanceRow) (u v : Time) :
    claimedBefore b a = false ↔ pickedBefore (a.1, a.2.stored u) (b.1, b.2.stored v) := by
  unfold claimedBefore pickedBefore stored
  by_cases heq : b.2.inst.startedAt = a.2.inst.startedAt
  · simp only [heq, if_true, decide_eq_false_iff_not, not_lt, lt_irrefl, true_and, false_or]
  · have hne : a.2.inst.startedAt ≠ b.2.inst.startedAt := Ne.symm heq
    simp only [heq, if_false, decide_eq_false_iff_not, not_lt, hne, false_and, or_false]
    exact ⟨fun hle ↦ lt_of_le_of_ne hle hne, le_of_lt⟩

theorem eligible_stored (hmicro : 1000 ∣ now) (hvalid : row.inst.status.valid = true) (u : Time) :
    eligible now (row.stored u) = claimable now row := by
  have hstatus : statusToInt16 row.inst.status ∈ ([1, 2, 3] : List ℤ) ↔
      row.inst.status.isTerminal = false := by
    cases hs : row.inst.status <;> first | decide | (rw [hs] at hvalid; cases hvalid)
  unfold eligible claimable
  rw [pgTime_of_dvd hmicro]
  simp only [stored, hstatus]
  by_cases hempty : row.leaseID = "" <;> simp [hempty]

theorem picked_mirror (h : Mirrors m p now) (hm : m.Sound) (hmicro : 1000 ∣ now) (batchSize : ℤ) :
    ∃ u : SafeID → Time, (∀ id, u id ≤ now) ∧
      (∀ id, p.sagaInstances.lookup id = (m.row id).map (stored (u id))) ∧
      p.picked now batchSize =
        (m.candidates now batchSize).map fun c ↦ (c.1, c.2.stored (u c.1)) := by
  choose u hu hlookup using h.rows
  refine ⟨u, hu, hlookup, ?_⟩
  exact selectFirst_map (f := fun id row ↦ row.stored (u id)) hlookup
    (fun id row hrow ↦ eligible_stored hmicro (hm.status_valid hrow) (u id))
    (fun _ _ ↦ pickedBefore_antisymm) (fun a b ↦ pickedBefore_stored a b (u a.1) (u b.1)) _

theorem scanClaimed_stored (hm : m.Sound) (hrow : m.row id = some row)
    (hopen : row.inst.status.isTerminal = false) (u : Time) (leaseID : SafeID) :
    scanClaimed leaseID (id, row.stored u) =
      .ok ⟨{ row.inst with updatedAt := some u }, leaseID⟩ := by
  obtain ⟨hstep, hcompleted⟩ := replayLog_plain (hm.replayed id row hrow)
  unfold scanClaimed
  simp only [stored, statusFromInt16_statusToInt16 (hm.status_valid hrow),
    ← hm.keyed id row hrow, ← hstep, ← hcompleted hopen]

def ClaimedInstance.withoutUpdatedAt (c : ClaimedInstance) : ClaimedInstance :=
  { c with inst := { c.inst with updatedAt := none } }

theorem Mirrors.claimPending (h : Mirrors m p now) (hm : m.Sound) (hmicro : 1000 ∣ now)
    (hlease : leaseID ≠ "") (batchSize : ℤ) {d : Duration} (hd : 1000 ∣ d) :
    Mirrors (m.claimPending now (.ok leaseID) batchSize d).1
        (p.claimPending now leaseID batchSize d).1 now ∧
      (p.claimPending now leaseID batchSize d).2.map
          (fun c ↦ (c.1.map ClaimedInstance.withoutUpdatedAt, c.2)) =
        (m.claimPending now (.ok leaseID) batchSize d).2.map
          (fun c ↦ (c.1.map ClaimedInstance.withoutUpdatedAt, c.2)) := by
  obtain ⟨u, hu, hlookup, hpicked⟩ := picked_mirror h hm hmicro batchSize
  have hsorted : (p.picked now batchSize).insertionSort pickedBefore =
      p.picked now batchSize :=
    ((pairwise_insertionSort _ _).sublist (take_sublist _ _)).insertionSort_eq
  have hscan : (p.picked now batchSize).mapM (scanClaimed leaseID) =
      .ok ((m.candidates now batchSize).map fun c ↦
        ⟨{ c.2.inst with updatedAt := some (u c.1) }, leaseID⟩) := by
    rw [hpicked, mapM_map]
    refine mapM_eq_pure fun c hc ↦ ?_
    obtain ⟨hrow, hclaimable⟩ := mem_candidates hc
    have hopen : c.2.inst.status.isTerminal = false := by
      simp only [claimable, Bool.and_eq_true, Bool.not_eq_true'] at hclaimable
      exact hclaimable.1
    exact scanClaimed_stored hm hrow hopen (u c.1) leaseID
  have hkeys : (p.picked now batchSize).map Prod.fst =
    (m.candidates now batchSize).map Prod.fst := by
    rw [hpicked, List.map_map]
    rfl
  unfold MemJournal.claimPending PGJournal.claimPending
  simp only [pgTime_of_dvd hmicro, pgInterval_of_dvd hd, hsorted, hscan, hkeys]
  by_cases hbatch : batchSize ≤ 0
  · have hneg : decide (0 < batchSize) = false := by simpa using hbatch
    simp only [hbatch, if_true, hneg]
    exact ⟨h, rfl⟩
  by_cases hpos : d ≤ 0
  · have hneg : decide (0 < d) = false := by simpa using hpos
    have hdec : decide (0 < batchSize) = true := by simpa using hbatch
    simp only [hbatch, hpos, if_true, if_false, hneg, hdec]
    exact ⟨h, rfl⟩
  have hdec : decide (0 < batchSize) = true := by simpa using hbatch
  have hdec' : decide (0 < d) = true := by simpa using hpos
  simp only [hbatch, hpos, if_false, hdec, hdec']
  by_cases hnone : (m.candidates now batchSize).isEmpty = true
  · rw [List.isEmpty_iff] at hnone
    simp only [hnone, isEmpty_nil, if_true]
    exact ⟨h, rfl⟩
  · have hsome : ((m.candidates now batchSize).map fun c ↦ (⟨{ c.2.inst with
        updatedAt := some (u c.1) }, leaseID⟩ : ClaimedInstance)).isEmpty = false := by
      simpa using hnone
    have hleased : ∀ (v : Time) (row : InstanceRow),
        ({ row.stored v with leaseID := some leaseID, leaseExpiresAt := some (now + d) } :
          SagaInstanceRow) = stored v (leaseTo leaseID (now + d) row) := by
      intro v row
      simp only [stored, leaseTo, hlease, if_false]
    rw [if_neg hnone]
    refine ⟨⟨fun j ↦ ⟨u j, hu j, ?_⟩, h.events, h.globalSeq⟩, ?_⟩
    · change (modifyAll p.sagaInstances _ _).lookup j =
        ((m.leaseAll _ leaseID (now + d)).row j).map _
      rw [lookup_modifyAll _ (m.candidates_nodup now batchSize), row_leaseAll, hlookup j]
      split_ifs
      · rw [Option.map_map, Option.map_map]
        exact congrArg (Option.map · (m.row j)) (funext (hleased (u j)))
      · rfl
    · simp only [require, bind, Except.bind, if_true, hsome, pure, Except.pure, transact,
        Except.map, Bool.false_eq_true, if_false, List.map_map]
      rfl

def Event.withoutGlobalSeq (e : Event) : Event := { e with globalSeq := 0 }

theorem MemJournal.Sound.log_sorted (hm : m.Sound) (id : SafeID) :
    ((m.log id).map Event.version).Pairwise (· ≤ ·) := by
  cases hrow : m.row id with
  | none =>
    rw [hm.unlogged id hrow]
    exact List.Pairwise.nil
  | some row =>
    rw [hm.versions id row hrow]
    exact pairwise_le_range'

theorem MemJournal.Sound.log_valid (hm : m.Sound) {e : Event} (he : e ∈ m.log id) :
    e.kind.valid = true := by
  cases hrow : m.row id with
  | none =>
    rw [hm.unlogged id hrow] at he
    cases he
  | some row => exact projectLog_valid (hm.projected id row hrow) e he

theorem Mirrors.selectEvents (h : Mirrors m p now) (hm : m.Sound) (id : SafeID) :
    p.selectEvents id = (m.globalLog.filter (·.instanceID = id)).map GlobalEvent.stored := by
  have hfilter : p.sagaEvents.filter (·.instanceID = id) =
      (m.globalLog.filter (·.instanceID = id)).map GlobalEvent.stored := by
    rw [h.events, List.filter_map]
    rfl
  have hsorted : ((m.globalLog.filter (·.instanceID = id)).map GlobalEvent.stored).Pairwise
      fun a b ↦ a.version ≤ b.version := by
    have hversions := hm.log_sorted id
    rw [← hm.restricted id, List.map_map, List.pairwise_map] at hversions
    rw [pairwise_map]
    exact hversions
  rw [PGJournal.selectEvents, hfilter, hsorted.insertionSort_eq]

theorem scanEvent_stored {g : GlobalEvent} (hvalid : g.event.kind.valid = true) :
    scanEvent g.stored = .ok g.event.withoutGlobalSeq := by
  simp only [scanEvent, GlobalEvent.stored, kindFromInt16_kindToInt16 hvalid,
    getD_nullableStepName, Event.withoutGlobalSeq]

theorem Mirrors.load (h : Mirrors m p now) (hm : m.Sound) (id : SafeID) :
    p.load id = (m.load id).map fun log ↦ log.map Event.withoutGlobalSeq := by
  have hscan : (p.selectEvents id).mapM scanEvent =
      .ok ((m.log id).map Event.withoutGlobalSeq) := by
    rw [h.selectEvents hm, List.mapM_map, ← hm.restricted id, List.map_map]
    refine mapM_eq_pure fun g hg ↦ ?_
    have hlog : g.event ∈ m.log id := by
      rw [← hm.restricted id]
      exact mem_map_of_mem hg
    exact scanEvent_stored (hm.log_valid hlog)
  unfold PGJournal.load MemJournal.load
  rw [hscan]
  cases hrow : m.row id with
  | none =>
    rw [hm.unlogged id hrow, h.lookup_none hrow]
    rfl
  | some row =>
    obtain ⟨u, -, hlookup⟩ := h.lookup_some hrow
    simp only [bind, Except.bind, hlookup, isSome_some, Bool.or_true, require, if_true]
    rfl

end GoCell.Saga
