import GoCell.Saga.History

namespace GoCell.Saga

open Foundation Kernel List Option Function MemJournal

structure MemJournal.Consistent (m : MemJournal) : Prop where
  keyed : ∀ id row, m.row id = some row → row.inst.id = id
  versions : ∀ id row, m.row id = some row →
    (m.log id).map Event.version = List.range' 1 row.currentVersion
  projected : ∀ id row, m.row id = some row → projectLog (m.log id) = some row.inst.status
  replayed : ∀ id row, m.row id = some row → replayLog row.inst.origin (m.log id) = .ok row.inst
  unlogged : ∀ id, m.row id = none → m.log id = []
  globalSeqs : m.globalLog.map GlobalEvent.globalSeq = List.range' 1 m.globalSeq
  stamped : ∀ g ∈ m.globalLog, g.event.globalSeq = g.globalSeq
  restricted : ∀ id, (m.globalLog.filter (·.instanceID = id)).map GlobalEvent.event = m.log id

structure MemJournal.SameHistory (m m' : MemJournal) : Prop where
  events : m'.events = m.events
  globalSeq : m'.globalSeq = m.globalSeq
  globalLog : m'.globalLog = m.globalLog
  row : ∀ id, (m'.row id).map (fun r ↦ (r.inst, r.currentVersion)) =
    (m.row id).map (fun r ↦ (r.inst, r.currentVersion))

variable {row : InstanceRow}

namespace MemJournal

variable {m m' : MemJournal} {now : Time} {id leaseID : SafeID}

theorem SameHistory.log (h : SameHistory m m') (id : SafeID) : m'.log id = m.log id := by
  rw [MemJournal.log, h.events]
  rfl

theorem SameHistory.row_some (h : SameHistory m m') {row' : InstanceRow}
    (hrow : m'.row id = some row') :
    ∃ row, m.row id = some row ∧ row'.inst = row.inst ∧
      row'.currentVersion = row.currentVersion := by
  have hid := h.row id
  rw [hrow, map_some, eq_comm, map_eq_some_iff] at hid
  obtain ⟨row, hrow, heq⟩ := hid
  obtain ⟨hinst, hver⟩ := Prod.mk.inj heq
  exact ⟨row, hrow, hinst.symm, hver.symm⟩

theorem SameHistory.consistent (h : SameHistory m m') (hm : m.Consistent) : m'.Consistent := by
  obtain ⟨keyed, versions, projected, replayed, unlogged, globalSeqs, stamped, restricted⟩ := hm
  obtain ⟨-, hseq, hglobal, hrows⟩ := id h
  have hlog := h.log
  have hrow := @h.row_some
  refine ⟨?_, ?_, ?_, ?_, fun id hnone ↦ ?_, ?_, ?_, ?_⟩
  case refine_5 =>
    have hid := hrows id
    rw [hnone, map_none, eq_comm, map_eq_none_iff] at hid
    rw [hlog, unlogged id hid]
  all_goals grind -ring -linarith

theorem releaseLease_sameHistory (m : MemJournal) (id : SafeID) :
    SameHistory m (m.releaseLease id) where
  events := rfl
  globalSeq := rfl
  globalLog := rfl
  row j := by
    rw [row_releaseLease]
    split_ifs <;> simp [comp_def]

theorem extendLease_sameHistory (m : MemJournal) (id : SafeID) (t : Time) :
    SameHistory m (m.extendLease id t) where
  events := rfl
  globalSeq := rfl
  globalLog := rfl
  row j := by
    rw [row_extendLease]
    split_ifs <;> simp [comp_def]

theorem leaseAll_sameHistory (m : MemJournal) (now : Time) (batchSize : ℤ) (leaseID : SafeID)
    (t : Time) : SameHistory m (m.leaseAll (m.candidates now batchSize) leaseID t) where
  events := rfl
  globalSeq := rfl
  globalLog := rfl
  row j := by
    rw [row_leaseAll]
    split_ifs <;> simp [comp_def, leaseTo]

theorem Consistent.addInstance (hm : m.Consistent) {inst : Instance}
    (hnew : m.row inst.id = none) (hvalid : inst.validateNew = .ok ()) :
    (m.addInstance inst).Consistent := by
  obtain ⟨keyed, versions, projected, replayed, unlogged, globalSeqs, stamped, restricted⟩ := hm
  have hfresh := validateNew_fresh hvalid
  have hreplay : replayLog inst.origin [] = .ok inst := by
    obtain ⟨id', definitionID, status, currentStep, startedAt, updatedAt, completedAt⟩ := inst
    obtain ⟨-, rfl, rfl, rfl, rfl⟩ := hfresh
    rfl
  refine ⟨?_, ?_, ?_, ?_, ?_, globalSeqs, stamped, fun id ↦ ?_⟩
  case refine_3 => grind -ring -linarith [projectLog]
  case refine_6 =>
    have hglobal : (m.addInstance inst).globalLog = m.globalLog := rfl
    grind -ring -linarith
  all_goals grind -ring -linarith

theorem Consistent.appendLocked (hm : m.Consistent) {inst : Instance}
    {e : Event} (hrow : m.row id = some row) (horigin : inst.origin = row.inst.origin)
    (hstatus : statusAfter row.inst.status e.kind = some inst.status)
    (hreplay : replayEvent row.inst e = .ok inst) :
    (m.appendLocked { row with inst := inst } id e).Consistent := by
  obtain ⟨keyed, versions, projected, replayed, unlogged, globalSeqs, stamped, restricted⟩ := hm
  have hid : inst.id = row.inst.id := congrArg Prod.fst horigin
  have hlog : ∀ v g, replayLog inst.origin
      (m.log id ++ [{ e with version := v, globalSeq := g }]) = .ok inst := fun v g ↦ by
    rw [horigin, replayLog_append, replayed id row hrow]
    exact hreplay
  refine ⟨?_, ?_, ?_, ?_, ?_, ?_, ?_, ?_⟩
  · grind -ring -linarith
  · grind -ring -linarith [range'_concat]
  · grind -ring -linarith [projectLog_append]
  · grind -ring -linarith
  · grind -ring -linarith
  · grind -ring -linarith [appendLocked, range'_concat]
  · grind -ring -linarith [appendLocked]
  · grind -ring -linarith [appendLocked]

structure Sound (m : MemJournal) : Prop extends m.Consistent where
  released : ∀ id row, m.row id = some row → row.inst.status.isTerminal = true → row.leaseID = ""

theorem sound_empty : Sound {} where
  keyed := by simp [row]
  versions := by simp [row]
  projected := by simp [row]
  replayed := by simp [row]
  unlogged := by simp [log]
  globalSeqs := rfl
  stamped := fun _ h ↦ absurd h not_mem_nil
  restricted := by simp [log]
  released := by simp [row]

section

variable (hm : m.Sound)
include hm

theorem Sound.enqueue (inst : Instance) : (m.enqueue inst).1.Sound := by
  rcases m.enqueue_cases inst with ⟨e, h⟩ | ⟨hnew, hvalid, h⟩
  · rwa [h]
  · rw [h]
    refine ⟨hm.toConsistent.addInstance hnew hvalid, ?_⟩
    grind -ring -linarith [hm.released]

theorem Sound.append (now : Time) (id leaseID : SafeID) (event : Event) :
    (m.append now id leaseID event).1.Sound := by
  rcases m.append_cases now id leaseID event with ⟨e, h⟩ | ⟨row, inst, hrow, -, hvalid, hproj, h⟩
  · rwa [h]
  · obtain ⟨hkind, hopen⟩ := validateForAppend_kind hvalid
    have hstatus := applyProjection_status hkind hopen hproj
    rw [h]
    refine ⟨hm.toConsistent.appendLocked hrow (applyProjection_origin hproj) hstatus ?_, ?_⟩
    · rw [replayEvent_open]
      · exact hproj
      · exact hopen
    · have hterm := statusAfter_isTerminal hstatus
      grind -ring -linarith [hm.released]

theorem Sound.leaseAll (now : Time) (batchSize : ℤ) (leaseID : SafeID) (t : Time) :
    (m.leaseAll (m.candidates now batchSize) leaseID t).Sound := by
  refine ⟨(m.leaseAll_sameHistory now batchSize leaseID t).consistent hm.toConsistent, ?_⟩
  have hopen : ∀ c ∈ m.candidates now batchSize, m.row c.1 = some c.2 ∧
      c.2.inst.status.isTerminal = false := fun c hc ↦ by
    obtain ⟨hrow, hclaim⟩ := mem_candidates hc
    exact ⟨hrow, by grind -ring -linarith [claimable]⟩
  grind -ring -linarith [hm.released, leaseTo]

theorem Sound.claimPending (now : Time) (uuid : Except Err SafeID)
    (batchSize : ℤ) (leaseDuration : Duration) :
    (m.claimPending now uuid batchSize leaseDuration).1.Sound := by
  rcases m.claimPending_cases now uuid batchSize leaseDuration with
    ⟨e, h⟩ | h | ⟨leaseID, -, -, h⟩
  · rwa [h]
  · rwa [h]
  · rw [h]
    exact hm.leaseAll now batchSize leaseID _

theorem Sound.heartbeat (now : Time) (id leaseID : SafeID)
    (leaseDuration : Duration) : (m.heartbeat now id leaseID leaseDuration).1.Sound := by
  rcases m.heartbeat_cases now id leaseID leaseDuration with ⟨r, h, -⟩ | ⟨row, hrow, -, -, h⟩
  · rwa [h]
  · rw [h]
    refine ⟨(m.extendLease_sameHistory id _).consistent hm.toConsistent, ?_⟩
    grind -ring -linarith [hm.released]

theorem Sound.markTerminal (now : Time) (id leaseID : SafeID)
    (final : Status) : (m.markTerminal now id leaseID final).1.Sound := by
  rcases m.markTerminal_cases now id leaseID final with
    ⟨r, h, -⟩ | ⟨row, kind, inst, hrow, -, hkind, hadv, h⟩
  · rwa [h]
  · have hstatus : statusAfter row.inst.status kind = some inst.status := by
      rw [terminalEventKind_status hkind]
      exact (advanceSaga_status hadv).1
    have hreplay : replayEvent row.inst { kind := kind, createdAt := now } = .ok inst := by
      rwa [replayEvent_terminal hkind]
    have happ := hm.toConsistent.appendLocked hrow (advanceSaga_origin hadv) hstatus hreplay
    rw [h]
    refine ⟨(releaseLease_sameHistory _ id).consistent happ, ?_⟩
    grind -ring -linarith [hm.released]

theorem Sound.call (c : Time × Call) : (m.call c).1.Sound := by
  obtain ⟨now, c⟩ := c
  cases c with
  | enqueue inst => exact hm.enqueue inst
  | append id leaseID event => exact hm.append now id leaseID event
  | load id => exact hm
  | claimPending uuid batchSize leaseDuration =>
    exact hm.claimPending now uuid batchSize leaseDuration
  | heartbeat id leaseID leaseDuration => exact hm.heartbeat now id leaseID leaseDuration
  | markTerminal id leaseID final => exact hm.markTerminal now id leaseID final

theorem Sound.leased_status (hrow : m.row id = some row) (hlease : row.leaseID ≠ "") :
    row.inst.status = .pending ∨ row.inst.status = .running ∨ row.inst.status = .compensating := by
  have hopen := mt (hm.released id row hrow) hlease
  have hknown := projectLog_known (hm.projected id row hrow)
  cases hs : row.inst.status <;> simp_all [Status.isTerminal]

end

theorem append_effect {event : Event} (h : (m.append now id leaseID event).2.isOk = true) :
    ∃ row inst e, m.row id = some row ∧ fenced row leaseID now = true ∧
      statusAfter row.inst.status event.kind = some inst.status ∧
      (m.append now id leaseID event).1.row id =
        some { row with inst := inst, currentVersion := row.currentVersion + 1 } ∧
      (m.append now id leaseID event).1.log id = m.log id ++ [e] ∧
      e.kind = event.kind ∧ e.stepName = event.stepName := by
  rcases m.append_cases now id leaseID event with
    ⟨err, happ⟩ | ⟨row, inst, hrow, hfenced, hvalid, hproj, happ⟩
  · rw [happ] at h
    cases h
  · obtain ⟨hkind, hopen⟩ := validateForAppend_kind hvalid
    have hlog := m.log_appendLocked { row with inst := inst } id id
      { kind := event.kind, stepName := event.stepName, payload := event.payload, createdAt := now }
    rw [if_pos rfl] at hlog
    rw [happ]
    refine ⟨row, inst, _, hrow, hfenced, applyProjection_status hkind hopen hproj, ?_, hlog,
      rfl, rfl⟩
    rw [row_appendLocked, if_pos rfl]

theorem markTerminal_succeeds {final : Status} {kind : EventKind}
    (hrow : m.row id = some row) (hfenced : fenced row leaseID now = true)
    (hkind : terminalEventKind final = some kind)
    (hto : row.inst.status.canTransitionTo final = true) (hstart : row.inst.startedAt ≤ now)
    (hupd : ∀ u ∈ row.inst.updatedAt, u ≤ now) :
    (m.markTerminal now id leaseID final).2 = .ok true ∧
      (∃ row', (m.markTerminal now id leaseID final).1.row id = some row' ∧
        row'.inst.status = final) ∧
      ∃ e, (m.markTerminal now id leaseID final).1.log id = m.log id ++ [e] ∧
        e.kind = kind ∧ e.stepName = "" := by
  have hadv := advanceSaga_ok.2 ⟨hto, hstart, hupd, rfl⟩
  rcases m.markTerminal_cases now id leaseID final with
    ⟨r, h, hr⟩ | ⟨row', kind', inst, hrow', -, hkind', hadv', h⟩
  · simp only [markTerminal, hrow, hfenced, if_true,
      checkTerminal_ok.2 ⟨hkind, hadv⟩, Prod.mk.injEq] at h
    exact absurd h.2.symm hr
  · cases hrow.symm.trans hrow'
    cases hkind.symm.trans hkind'
    have hlog := m.log_appendLocked { row with inst := inst } id id
      { kind := kind, createdAt := now }
    rw [if_pos rfl] at hlog
    rw [h]
    refine ⟨rfl, ⟨{ row with
      inst := inst, currentVersion := row.currentVersion + 1, leaseID := "" }, ?_,
      (advanceSaga_status hadv').2⟩, ⟨_, hlog, rfl, rfl⟩⟩
    rw [row_releaseLease, if_pos rfl, row_appendLocked, if_pos rfl, map_some]

theorem call_refused {c : Time × Call} (h : (m.call c).2.refused = true) : (m.call c).1 = m := by
  obtain ⟨now, c⟩ := c
  cases c with
  | enqueue inst =>
    rcases m.enqueue_cases inst with ⟨e, he⟩ | ⟨-, -, he⟩ <;>
      simp_all [call, Reply.of, Reply.refused]
  | append id leaseID event =>
    rcases m.append_cases now id leaseID event with ⟨e, he⟩ | ⟨_, _, -, -, -, -, he⟩ <;>
      simp_all [call, Reply.of, Reply.refused]
  | load id => rfl
  | claimPending uuid batchSize leaseDuration =>
    rcases m.claimPending_cases now uuid batchSize leaseDuration with
      ⟨e, he⟩ | he | ⟨_, -, -, he⟩ <;> simp_all [call, Reply.of, Reply.refused]
  | heartbeat id leaseID leaseDuration =>
    rcases m.heartbeat_cases now id leaseID leaseDuration with ⟨r, he, -⟩ | ⟨_, -, -, -, he⟩ <;>
      simp_all [call, Reply.of, Reply.refused]
  | markTerminal id leaseID final =>
    rcases m.markTerminal_cases now id leaseID final with
      ⟨r, he, -⟩ | ⟨_, _, _, -, -, -, -, he⟩ <;>
      simp_all [call, Reply.of, Reply.refused]

/-- No instance was updated, and none has left `Pending` before its start, later than `now`. -/
def Timely (m : MemJournal) (now : Time) : Prop :=
  ∀ id row, m.row id = some row →
    (∀ u ∈ row.inst.updatedAt, u ≤ now) ∧ (row.inst.status ≠ .pending → row.inst.startedAt ≤ now)

theorem Timely.mono {later : Time} (h : m.Timely now) (hle : now ≤ later) : m.Timely later := by
  intro id row hrow
  obtain ⟨hupd, hstart⟩ := h id row hrow
  exact ⟨fun u hu ↦ (hupd u hu).trans hle, fun hs ↦ (hstart hs).trans hle⟩

theorem SameHistory.timely (h : SameHistory m m') (hm : m.Timely now) : m'.Timely now := by
  intro id row' hrow'
  obtain ⟨row, hrow, hinst, -⟩ := h.row_some hrow'
  rw [hinst]
  exact hm id row hrow

section

variable (hm : m.Timely now)
include hm

theorem Timely.appendLocked {inst : Instance} {e : Event} (hrow : m.row id = some row)
    (hinst : inst = row.inst ∨ ∃ dst, advanceSaga row.inst dst now = .ok inst) :
    (m.appendLocked { row with inst := inst } id e).Timely now := by
  rcases hinst with rfl | ⟨dst, hadv⟩
  · grind -ring -linarith [Timely]
  · obtain ⟨-, hstart, -, rfl⟩ := advanceSaga_ok.1 hadv
    grind -ring -linarith [Timely]

theorem Timely.append (id leaseID : SafeID) (event : Event) :
    (m.append now id leaseID event).1.Timely now := by
  rcases m.append_cases now id leaseID event with ⟨e, h⟩ | ⟨row, inst, hrow, -, -, hproj, h⟩
  · rwa [h]
  · rw [h]
    exact hm.appendLocked hrow (applyProjection_cases hproj)

theorem Timely.markTerminal (id leaseID : SafeID) (final : Status) :
    (m.markTerminal now id leaseID final).1.Timely now := by
  rcases m.markTerminal_cases now id leaseID final with
    ⟨r, h, -⟩ | ⟨row, kind, inst, hrow, -, -, hadv, h⟩
  · rwa [h]
  · rw [h]
    exact (releaseLease_sameHistory _ id).timely (hm.appendLocked hrow (.inr ⟨final, hadv⟩))

theorem Timely.enqueue (inst : Instance) : (m.enqueue inst).1.Timely now := by
  rcases m.enqueue_cases inst with ⟨e, h⟩ | ⟨-, hvalid, h⟩
  · rwa [h]
  · rw [h]
    grind -ring -linarith [Timely, validateNew_fresh hvalid]

theorem Timely.claimPending (t : Time) (uuid : Except Err SafeID)
    (batchSize : ℤ) (leaseDuration : Duration) :
    (m.claimPending t uuid batchSize leaseDuration).1.Timely now := by
  rcases m.claimPending_cases t uuid batchSize leaseDuration with
    ⟨e, h⟩ | h | ⟨leaseID, -, -, h⟩
  · rwa [h]
  · rwa [h]
  · rw [h]
    exact (m.leaseAll_sameHistory t batchSize leaseID _).timely hm

theorem Timely.heartbeat (t : Time) (id leaseID : SafeID)
    (leaseDuration : Duration) : (m.heartbeat t id leaseID leaseDuration).1.Timely now := by
  rcases m.heartbeat_cases t id leaseID leaseDuration with ⟨r, h, -⟩ | ⟨row, -, -, -, h⟩
  · rwa [h]
  · rw [h]
    exact (m.extendLease_sameHistory id _).timely hm

theorem Timely.call (c : Call) : (m.call (now, c)).1.Timely now := by
  cases c with
  | enqueue inst => exact hm.enqueue inst
  | append id leaseID event => exact hm.append id leaseID event
  | load id => exact hm
  | claimPending uuid batchSize leaseDuration =>
    exact hm.claimPending now uuid batchSize leaseDuration
  | heartbeat id leaseID leaseDuration => exact hm.heartbeat now id leaseID leaseDuration
  | markTerminal id leaseID final => exact hm.markTerminal id leaseID final

end

theorem Consistent.log_length (hm : m.Consistent)
    (hrow : m.row id = some row) : row.currentVersion = (m.log id).length := by
  have h := congrArg length (hm.versions id row hrow)
  simpa using h.symm

theorem Consistent.globalLog_length (hm : m.Consistent) : m.globalSeq = m.globalLog.length := by
  have h := congrArg length hm.globalSeqs
  simpa using h.symm

theorem Sound.closed (hm : m.Sound) {e : Event} (hrow : m.row id = some row)
    (he : e ∈ m.log id) (hterm : e.kind.isTerminal = true) : row.leaseID = "" := by
  refine hm.released id row hrow ?_
  cases hopen : row.inst.status.isTerminal with
  | true => rfl
  | false => simp [projectLog_open (hm.projected id row hrow) hopen e he] at hterm

/-- In every state that calls can reach, with any arguments and any clock, the log of each
instance, its projected row and the global log agree, and refused calls change nothing. -/
theorem memJournal_history (calls : List (Time × Call)) :
    let m := after MemJournal.call {} calls
    (∀ id row, m.row id = some row → (m.log id).map Event.version = range' 1 (m.log id).length ∧
      projectLog (m.log id) = some row.inst.status ∧
      replayLog row.inst.origin (m.log id) = .ok row.inst ∧
      (∀ e ∈ (m.log id).dropLast, e.kind.isTerminal = false) ∧
      ((∃ e ∈ m.log id, e.kind.isTerminal = true) → row.leaseID = "")) ∧
    m.globalLog.map GlobalEvent.globalSeq = range' 1 m.globalLog.length ∧
    (∀ id, (m.globalLog.filter (·.instanceID = id)).map GlobalEvent.event = m.log id) ∧
    ∀ c, (m.call c).2.refused = true → (m.call c).1 = m := by
  intro m
  have hm : m.Sound := after_invariant Sound (fun _ c h ↦ h.call c) calls {} sound_empty
  refine ⟨fun id row hrow ↦ ⟨?_, ?_, ?_, ?_, ?_⟩, ?_, hm.restricted, fun c hc ↦ call_refused hc⟩
  · rw [hm.versions id row hrow, hm.toConsistent.log_length hrow]
  · exact hm.projected id row hrow
  · exact hm.replayed id row hrow
  · exact projectLog_dropLast (hm.projected id row hrow)
  · rintro ⟨e, he, hterm⟩
    exact hm.closed hrow he hterm
  · rw [hm.globalSeqs, hm.toConsistent.globalLog_length]

end MemJournal

end GoCell.Saga
