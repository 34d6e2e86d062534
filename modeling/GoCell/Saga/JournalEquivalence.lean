import GoCell.Saga.JournalMirror

namespace GoCell.Saga

open Foundation Kernel MemJournal List

variable {m : MemJournal} {p : PGJournal} {now : Time}

/-- A reply as the two journals are compared on it: an `UpdatedAt` is left out. -/
def Reply.withoutUpdatedAt : Reply → Reply
  | .claimed instances leaseID =>
    .claimed (instances.map ClaimedInstance.withoutUpdatedAt) leaseID
  | r => r

def Reply.withoutGlobalSeq : Reply → Reply
  | .events log => .events (log.map Event.withoutGlobalSeq)
  | r => r

/-- The calls on which the journals are compared: instances that pass `ValidateNew`, leases that
are minted, and times and durations in whole microseconds. -/
def Call.Comparable : Call → Prop
  | .enqueue inst => inst.validateNew = .ok () ∧ 1000 ∣ inst.startedAt
  | .claimPending uuid _ leaseDuration =>
    (∃ leaseID, uuid = .ok leaseID ∧ leaseID ≠ "") ∧ 1000 ∣ leaseDuration
  | .heartbeat _ _ leaseDuration => 1000 ∣ leaseDuration
  | .append _ _ _ | .load _ | .markTerminal _ _ _ => True

instance : DecidablePred Call.Comparable
  | .enqueue _ => inferInstanceAs (Decidable (_ ∧ _))
  | .claimPending (.ok leaseID) _ leaseDuration =>
    decidable_of_iff (leaseID ≠ "" ∧ 1000 ∣ leaseDuration) (by simp [Call.Comparable])
  | .claimPending (.error _) _ _ => .isFalse fun ⟨⟨_, h, _⟩, _⟩ ↦ nomatch h
  | .heartbeat _ _ leaseDuration => inferInstanceAs (Decidable (1000 ∣ leaseDuration))
  | .append _ _ _ | .load _ | .markTerminal _ _ _ => .isTrue trivial

/-- The texts of a call that are kept in columns, which take no NUL character. -/
def Call.texts : Call → List SafeID
  | .enqueue inst => [inst.id, inst.definitionID]
  | .append id leaseID event => [id, leaseID, event.stepName]
  | .load id => [id]
  | .claimPending uuid _ _ => uuid.toOption.toList
  | .heartbeat id leaseID _ | .markTerminal id leaseID _ => [id, leaseID]

def Call.ReadsNoEvent (m : MemJournal) : Call → Prop
  | .load id => m.log id = []
  | _ => True

structure Comparable (calls : List (Time × Call)) : Prop where
  clock : (calls.map Prod.fst).Pairwise (· ≤ ·)
  micros : ∀ c ∈ calls, 1000 ∣ c.1
  texts : ∀ c ∈ calls, ∀ text ∈ c.2.texts, '\x00' ∉ text.toList
  calls : ∀ c ∈ calls, c.2.Comparable

theorem log_withoutGlobalSeq (hm : m.Sound) (id : SafeID) :
    m.log id = (m.log id).map Event.withoutGlobalSeq ↔ m.log id = [] := by
  constructor
  · intro heq
    rw [eq_nil_iff_forall_not_mem]
    intro e he
    have hzero : e.globalSeq = 0 := by
      rw [heq] at he
      obtain ⟨e', -, rfl⟩ := mem_map.1 he
      rfl
    rw [← hm.restricted id] at he
    obtain ⟨g, hg, rfl⟩ := mem_map.1 he
    have hlog := (mem_filter.1 hg).1
    have hseq := mem_map_of_mem (f := GlobalEvent.globalSeq) hlog
    rw [hm.globalSeqs, mem_range'_1, ← hm.stamped g hlog, hzero] at hseq
    omega
  · intro hnil
    rw [hnil]
    rfl

theorem claimed_reply (r : Except Err (List ClaimedInstance × SafeID)) :
    (Reply.of r fun c ↦ .claimed c.1 c.2).withoutGlobalSeq = (Reply.of r fun c ↦ .claimed c.1 c.2) ∧
      (Reply.of r fun c ↦ .claimed c.1 c.2).withoutUpdatedAt =
        Reply.of (r.map fun c ↦ (c.1.map ClaimedInstance.withoutUpdatedAt, c.2))
          fun c ↦ .claimed c.1 c.2 := by
  cases r <;> exact ⟨rfl, rfl⟩

theorem Mirrors.call (h : Mirrors m p now) (hm : m.Sound) (ht : m.Timely now)
    (hmicro : 1000 ∣ now) {c : Call} (hc : c.Comparable) :
    Mirrors (m.call (now, c)).1 (p.call (now, c)).1 now ∧
      ((m.call (now, c)).2.withoutGlobalSeq.withoutUpdatedAt =
        (p.call (now, c)).2.withoutGlobalSeq.withoutUpdatedAt) ∧
      ((m.call (now, c)).2.withoutUpdatedAt = (p.call (now, c)).2.withoutUpdatedAt ↔
        c.ReadsNoEvent m) := by
  cases c with
  | enqueue inst =>
    obtain ⟨hmirror, hreply⟩ := h.enqueue hc.1 hc.2 hmicro
    simp only [MemJournal.call, PGJournal.call, hreply]
    exact ⟨hmirror, trivial, iff_of_true trivial trivial⟩
  | append id leaseID event =>
    obtain ⟨hmirror, hreply⟩ := h.append hm ht hmicro id leaseID event
    simp only [MemJournal.call, PGJournal.call, hreply]
    exact ⟨hmirror, trivial, iff_of_true trivial trivial⟩
  | heartbeat id leaseID =>
    obtain ⟨hmirror, hreply⟩ := h.heartbeat hmicro id leaseID hc
    simp only [MemJournal.call, PGJournal.call, hreply]
    exact ⟨hmirror, trivial, iff_of_true trivial trivial⟩
  | markTerminal id leaseID final =>
    obtain ⟨hmirror, hreply⟩ := h.markTerminal hm ht hmicro id leaseID final
    simp only [MemJournal.call, PGJournal.call, hreply]
    exact ⟨hmirror, trivial, iff_of_true trivial trivial⟩
  | claimPending _ batchSize =>
    obtain ⟨⟨leaseID, rfl, hne⟩, hd⟩ := hc
    obtain ⟨hmirror, hreply⟩ := h.claimPending hm hmicro hne batchSize hd
    simp only [MemJournal.call, PGJournal.call, claimed_reply, hreply]
    exact ⟨hmirror, trivial, iff_of_true trivial trivial⟩
  | load id =>
    simp only [MemJournal.call, PGJournal.call, h.load hm id, Call.ReadsNoEvent]
    refine ⟨h, ?_⟩
    unfold MemJournal.load
    cases hrow : m.row id with
    | none => exact ⟨rfl, iff_of_true rfl (hm.unlogged id hrow)⟩
    | some row =>
      refine ⟨?_, ?_⟩
      · simp only [Option.isSome_some, if_true, Except.map, Reply.of, Reply.withoutGlobalSeq,
          map_map]
        rfl
      · rw [← log_withoutGlobalSeq hm id]
        exact Reply.events.injEq _ _ ▸ Iff.rfl

def Lockstep (calls : List (Time × Call)) (m : MemJournal) (p : PGJournal) : Prop :=
  Comparable calls ∧ m.Sound ∧ ∀ c ∈ calls, Mirrors m p c.1 ∧ m.Timely c.1

variable {calls : List (Time × Call)}

theorem lockstep_empty (h : Comparable calls) :
    Lockstep calls {} {} := by
  refine ⟨h, sound_empty, fun c _ ↦ ⟨⟨fun id ↦ ⟨c.1, le_rfl, rfl⟩, rfl, rfl⟩, ?_⟩⟩
  intro id row hrow
  cases hrow

theorem Comparable.tail {c : Time × Call}
    (h : Comparable (c :: calls)) : Comparable calls ∧ ∀ c' ∈ calls, c.1 ≤ c'.1 := by
  obtain ⟨hfirst, hclock⟩ := pairwise_cons.1 h.clock
  refine ⟨⟨hclock, ?_, ?_, ?_⟩, fun c' hc' ↦ hfirst c'.1 (mem_map_of_mem hc')⟩
  · exact fun c' hc' ↦ h.micros c' (mem_cons_of_mem c hc')
  · exact fun c' hc' ↦ h.texts c' (mem_cons_of_mem c hc')
  · exact fun c' hc' ↦ h.calls c' (mem_cons_of_mem c hc')

theorem Lockstep.call {c : Time × Call} (h : Lockstep (c :: calls) m p) :
    Lockstep calls (m.call c).1 (p.call c).1 ∧ ((m.call c).2.withoutGlobalSeq.withoutUpdatedAt =
        (p.call c).2.withoutGlobalSeq.withoutUpdatedAt) ∧
      ((m.call c).2.withoutUpdatedAt = (p.call c).2.withoutUpdatedAt ↔ c.2.ReadsNoEvent m) := by
  obtain ⟨hcomp, hm, htimes⟩ := h
  obtain ⟨hmirror, htimely⟩ := htimes c mem_cons_self
  obtain ⟨hmirror', hreplies⟩ := hmirror.call hm htimely (hcomp.micros c mem_cons_self)
    (hcomp.calls c mem_cons_self)
  obtain ⟨hrest, hle⟩ := hcomp.tail
  refine ⟨⟨hrest, hm.call c, fun c' hc' ↦ ?_⟩, hreplies⟩
  exact ⟨hmirror'.mono (hle c' hc'), (htimely.call c.2).mono (hle c' hc')⟩

/-- On every sequential run the two journals give the same replies, up to `UpdatedAt` and the global
positions of loaded events. The positions agree too exactly in the runs that load no event. -/
theorem journals_agree (calls : List (Time × Call)) (h : Comparable calls) :
    (answers MemJournal.call {} calls).map (fun r ↦ r.withoutGlobalSeq.withoutUpdatedAt) =
        (answers PGJournal.call {} calls).map (fun r ↦ r.withoutGlobalSeq.withoutUpdatedAt) ∧
      ((answers MemJournal.call {} calls).map Reply.withoutUpdatedAt =
          (answers PGJournal.call {} calls).map Reply.withoutUpdatedAt ↔
        ∀ pre c post, calls = pre ++ c :: post →
          c.2.ReadsNoEvent (after MemJournal.call {} pre)) := by
  have hstart := lockstep_empty h
  constructor
  · refine (answers_map_eq_iff (R := Lockstep) (fun c calls m p hl ↦ hl.call.1)
      (fun c calls m p hl ↦ iff_of_true hl.call.2.1 trivial) hstart).2 ?_
    exact fun _ _ _ _ ↦ trivial
  · exact answers_map_eq_iff (fun c calls m p hl ↦ hl.call.1)
      (fun c calls m p hl ↦ hl.call.2.2) hstart

def stepThenLoad (loaded : SafeID) : List (Time × Call) :=
  [(1000, .enqueue (newInstance "i" "order" 1000)), (2000, .claimPending (.ok "a") 1 5000),
    (3000, .append "i" "a" { kind := .stepCompleted, stepName := "reserve" }),
    (4000, .load loaded)]

theorem journals_agree_unknown :
    (answers MemJournal.call {} (stepThenLoad "j")).map Reply.withoutUpdatedAt =
      (answers PGJournal.call {} (stepThenLoad "j")).map Reply.withoutUpdatedAt := by
  have hcomparable : Comparable (stepThenLoad "j") := ⟨by decide, by decide, by decide, by decide⟩
  refine (journals_agree _ hcomparable).2.2 fun pre c post hcalls ↦ ?_
  rcases pre with _ | ⟨a, _ | ⟨b, _ | ⟨d, _ | ⟨e, pre⟩⟩⟩⟩
  · cases hcalls
    trivial
  · cases hcalls
    trivial
  · cases hcalls
    trivial
  · cases hcalls
    rfl
  · simp [stepThenLoad] at hcalls

/-- Loading the step back gives its global position from one journal and zero from the other. -/
theorem journals_differ_on_load :
    Comparable (stepThenLoad "i") ∧
      (answers MemJournal.call {} (stepThenLoad "i")).map Reply.withoutUpdatedAt ≠
        (answers PGJournal.call {} (stepThenLoad "i")).map Reply.withoutUpdatedAt := by
  refine ⟨⟨by decide, by decide, by decide, by decide⟩, ?_⟩
  decide

/-- What the PostgreSQL journal loads for an instance is its complete history, and its row is the
projection of that history. -/
theorem pgJournal_history {id : SafeID} {log : List Event}
    (h : Comparable (calls ++ [(now, .load id)]))
    (hload : (after PGJournal.call {} calls).load id = .ok log) :
    log.map Event.version = range' 1 log.length ∧
      (∀ e ∈ log.dropLast, e.kind.isTerminal = false) ∧
      ∃ s row, projectLog log = some s ∧
        (after PGJournal.call {} calls).sagaInstances.lookup id = some row ∧
        row.status = statusToInt16 s ∧ row.currentVersion = log.length ∧
        (s.isTerminal = true → row.leaseID = none) := by
  obtain ⟨-, hm, htimes⟩ := after_related (fun c calls m p hl ↦ hl.call.1) calls (lockstep_empty h)
  generalize after MemJournal.call {} calls = m at hm htimes
  obtain ⟨hmirror, -⟩ := htimes _ mem_cons_self
  rw [hmirror.load hm id, MemJournal.load] at hload
  obtain ⟨u, -, hstored⟩ := hmirror.rows id
  cases hrow : m.row id with
  | none =>
    rw [hrow] at hload
    cases hload
  | some row =>
    rw [hrow] at hload hstored
    cases hload
    have hproj : projectLog ((m.log id).map Event.withoutGlobalSeq) = some row.inst.status := by
      rw [← hm.projected id row hrow, projectLog, map_map]
      rfl
    rw [map_map, length_map, ← hm.toConsistent.log_length hrow]
    refine ⟨hm.versions id row hrow, projectLog_dropLast hproj, _, _, hproj, hstored, rfl, rfl, ?_⟩
    exact fun hterminal ↦ if_pos (hm.released id row hrow hterminal)

def twoSteps : List (Time × Call) :=
  (stepThenLoad "i").take 3 ++ [(4000, .append "i" "b" { kind := .stepStarted, stepName := "pay" }),
    (4000, .append "i" "a" { kind := .stepCompleted, stepName := "pay" }),
    (5000, .markTerminal "i" "a" .succeeded)]

theorem pgJournal_history_step :
    ∃ log, (after PGJournal.call {} twoSteps).load "i" = .ok log ∧ log.length = 3 ∧
      log.map Event.version = range' 1 log.length := by
  have hcomparable : Comparable (twoSteps ++ [(6000, .load "i")]) :=
    ⟨by decide, by decide, by decide, by decide⟩
  have hload : (after PGJournal.call {} twoSteps).load "i" = .ok
      [{ kind := .stepCompleted, stepName := "reserve", version := 1, createdAt := 3000 },
        { kind := .stepCompleted, stepName := "pay", version := 2, createdAt := 4000 },
        { kind := .sagaSucceeded, version := 3, createdAt := 5000 }] := by
    decide
  exact ⟨_, hload, rfl, (pgJournal_history hcomparable hload).1⟩

end GoCell.Saga
