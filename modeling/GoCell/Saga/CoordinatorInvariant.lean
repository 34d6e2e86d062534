import GoCell.Saga.CoordinatorSteps

namespace GoCell.Saga

open Foundation Kernel MemJournal List Option Coordinators

variable {resolver : Resolver} {j j' : MemJournal} {k : DriveKey} {now : Time}

def completedNames (log : List Event) : List SafeID :=
  (log.filter (·.kind = .stepCompleted)).map Event.stepName

@[simp] theorem completedNames_append (log log' : List Event) :
    completedNames (log ++ log') = completedNames log ++ completedNames log' := by
  simp [completedNames]

variable {events : List Event}

theorem foldEventsFrom_cursor {cursor cursor' : ℕ} {prev prev' : Bytes}
    (h : foldEventsFrom cursor prev events = .ok (cursor', prev')) :
    cursor' = cursor + (completedNames events).length := by
  induction events generalizing cursor prev with
  | nil =>
    obtain ⟨rfl, -⟩ := Prod.mk.inj (Except.ok.inj h)
    rfl
  | cons e events ih =>
    unfold foldEventsFrom at h
    cases hk : e.kind <;> simp only [hk, reduceCtorEq] at h <;>
      simp only [completedNames, hk, filter_cons, reduceCtorEq, decide_true, decide_false,
        if_true, Bool.false_eq_true, if_false, map_cons, length_cons] <;>
      have := ih h <;> simp only [completedNames] at this <;> omega

/-- What holds of the projected status and the log as long as the row holds the lease of `k`. -/
def Held (j : MemJournal) (k : DriveKey) (P : Status → List Event → Prop) : Prop :=
  ∀ row, j.row k.1 = some row → row.leaseID = k.2 → P row.inst.status (j.log k.1)

theorem Held.imp {P Q : Status → List Event → Prop} (h : Held j k P)
    (himp : ∀ st log, P st log → Q st log) : Held j k Q :=
  fun row hrow hlease ↦ himp _ _ (h row hrow hlease)

/-- The journal changed without touching what the drive `k` may rely on. -/
structure Frame (k : DriveKey) (j j' : MemJournal) : Prop where
  kept : ∀ row', j'.row k.1 = some row' → row'.leaseID = k.2 →
    ∃ row, j.row k.1 = some row ∧ row.leaseID = k.2 ∧ row'.inst.status = row.inst.status ∧
      j'.log k.1 = j.log k.1
  closed : ∀ row, j.row k.1 = some row → row.inst.status.isTerminal = true →
    j'.row k.1 = some row ∧ j'.log k.1 = j.log k.1

theorem Frame.refl (k : DriveKey) (j : MemJournal) : Frame k j j where
  kept row hrow hlease := ⟨row, hrow, hlease, rfl, rfl⟩
  closed _ hrow _ := ⟨hrow, rfl⟩

theorem Frame.held {P : Status → List Event → Prop} (h : Frame k j j') (hj : Held j k P) :
    Held j' k P := by
  intro row' hrow' hlease'
  obtain ⟨row, hrow, hlease, hstatus, hlog⟩ := h.kept row' hrow' hlease'
  rw [hstatus, hlog]
  exact hj row hrow hlease

theorem frame_heartbeat (hj : j.Sound) (now : Time) (leaseDuration : Duration) :
    Frame k j (j.heartbeat now k.1 k.2 leaseDuration).1 := by
  rcases j.heartbeat_cases now k.1 k.2 leaseDuration with ⟨r, h, -⟩ | ⟨row, hrow, hfenced, -, h⟩
  · rw [h]
    exact .refl k j
  · have hlease := fenced_iff.1 hfenced
    have hreleased := hj.released k.1 row hrow
    constructor <;> grind -ring -linarith

variable {actor : Option DriveKey}

theorem RowChange.frame {leases : List SafeID} (hj : j.Sound)
    (hne : k.2 ≠ "") (hused : k.2 ∈ leases) (hactor : actor ≠ some k)
    (hactive : ∀ k', actor = some k' → k'.2 ≠ "")
    (h : RowChange leases actor j j' k.1) : Frame k j j' := by
  have hreleased := hj.released k.1
  cases h with
  | same | added | own => constructor <;> grind -ring -linarith
  | claimed =>
    constructor <;> grind -ring -linarith [leaseTo]

structure Forward (resolver : Resolver) (j : MemJournal) (k : DriveKey) (inst : Instance)
    (d : Definition) (events : List Event) (cursor : ℕ) : Prop where
  registered : resolver.lookup inst.definitionID = some d
  notCompensating : inst.status ≠ .compensating
  held : Held j k fun st log ↦ st = inst.status ∧ log = events
  cursor_eq : cursor = (completedNames events).length
  inRange : cursor < d.steps.length

variable {inst : Instance}

theorem Forward.frame {d : Definition} {cursor : ℕ}
    (h : Forward resolver j k inst d events cursor) (hf : Frame k j j') :
    Forward resolver j' k inst d events cursor :=
  { h with held := hf.held h.held }

/-- The names of the entries that the reverse walk calls `Compensate` for. -/
def Rollback.calls (r : Rollback) (entries : List CommittedStepEntry) : List SafeID :=
  (entries.map CommittedStepEntry.name).filter r.defn.compensable

/-- The calls made and those still ahead are the eligible steps in reverse commit order, and the
errors counted are those in the log at the start and those of this run. -/
structure Rollback.Wf (r : Rollback) : Prop where
  order : r.attempted.map Prod.fst ++ r.calls r.remaining =
    r.calls (collectCommittedSteps r.events).reverse
  errors : r.compensateErrors = priorFailureCount r.events + r.attempted.countP (!·.2)

theorem startRollback_wf (d : Definition) (events : List Event) (recovery : Bool) :
    (startRollback d events recovery).Wf := ⟨rfl, rfl⟩

section

variable {r : Rollback} {cs : CommittedStepEntry} {rest : List CommittedStepEntry} (h : r.Wf)
  (hrem : r.remaining = cs :: rest)
include h hrem

theorem Rollback.Wf.skip (hskip : r.defn.compensable cs.name = false) :
    { r with remaining := rest }.Wf := by
  refine ⟨?_, h.errors⟩
  have horder := h.order
  simp only [Rollback.calls, hrem, map_cons, filter_cons, hskip, Bool.false_eq_true,
    if_false] at horder
  exact horder

theorem Rollback.Wf.outcome (hcall : r.defn.compensable cs.name = true) (failure : Option Bytes) :
    ({ r with remaining := rest }.outcome cs.name failure).Wf := by
  refine ⟨?_, ?_⟩
  · have horder := h.order
    simp only [Rollback.calls, hrem, map_cons, filter_cons, hcall, if_true] at horder
    simpa [Rollback.outcome, Rollback.calls] using horder
  · have herr := h.errors
    cases failure <;> simp [Rollback.outcome, herr, Nat.add_assoc]

end

def summary (log : List Event) : List (EventKind × SafeID) :=
  log.map fun e ↦ (e.kind, e.stepName)

@[simp] theorem summary_append (log log' : List Event) :
    summary (log ++ log') = summary log ++ summary log' := map_append

theorem summary_singleton (e : Event) : summary [e] = [(e.kind, e.stepName)] := rfl

def Rollback.ownEvents (r : Rollback) : List (EventKind × SafeID) :=
  (if r.recovery then [] else [(.compensationStarted, "")]) ++ r.attempted.map fun a ↦
    (if a.2 then .stepCompensated else .stepCompensationFailed, a.1)

def OwnLog (j : MemJournal) (k : DriveKey) (r : Rollback) : Prop :=
  Held j k fun _ log ↦ r.undisturbed = true → summary log = summary r.events ++ r.ownEvents

/-- A rollback in progress. While no error was counted, the log has no failed compensation, and
every committed step to compensate was compensated or is still ahead. -/
structure RollbackInv (resolver : Resolver) (j : MemJournal)
    (compensated : List (SafeID × SafeID)) (k : DriveKey) (inst : Instance) (r : Rollback) :
    Prop where
  registered : resolver.lookup inst.definitionID = some r.defn
  wf : r.Wf
  held : Held j k fun st log ↦ st = .compensating ∧ r.events <+: log ∧
    completedNames log = completedNames r.events ∧
    (r.compensateErrors = 0 → ∀ e ∈ log, e.kind ≠ .stepCompensationFailed)
  covered : r.compensateErrors = 0 → ∀ name ∈ completedNames r.events,
    r.defn.compensable name = true →
      (∃ e ∈ r.events, e.kind = .stepCompensated ∧ e.stepName = name) ∨
        (k.1, name) ∈ compensated ∨ name ∈ r.remaining.map CommittedStepEntry.name

theorem RollbackInv.frame {comp comp' : List (SafeID × SafeID)} {r : Rollback}
    (h : RollbackInv resolver j comp k inst r) (hf : Frame k j j') (hsub : comp ⊆ comp') :
    RollbackInv resolver j' comp' k inst r where
  registered := h.registered
  wf := h.wf
  held := hf.held h.held
  covered herr name hname hcomp :=
    (h.covered herr name hname hcomp).imp_right fun hc ↦ hc.imp_left fun hmem ↦ hsub hmem

/-- The state after an undisturbed rollback: the saga is closed and its log is the one the
rollback started from, followed by the events of the rollback. -/
structure Finished (j : MemJournal) (k : DriveKey) (r : Rollback) : Prop where
  row : ∃ row, j.row k.1 = some row ∧ row.inst.status = r.finalStatus
  log : ∃ kind, terminalEventKind r.finalStatus = some kind ∧
    summary (j.log k.1) = summary r.events ++ r.ownEvents ++ [(kind, "")]

def PcInv (resolver : Resolver) (j : MemJournal) (compensated : List (SafeID × SafeID))
    (k : DriveKey) (inst : Instance) : Pc → Prop
  | .lookup => Held j k fun st _ ↦ st = inst.status
  | .load d => resolver.lookup inst.definitionID = some d ∧ Held j k fun st _ ↦ st = inst.status
  | .execute d events cursor _ => Forward resolver j k inst d events cursor
  | .commit a => ∃ d events cursor, Forward resolver j k inst d events cursor ∧
      d.steps[cursor]? = some a.step
  | .startCompensation d events _ => ∃ cursor, Forward resolver j k inst d events cursor
  | .preflight r | .walk r => RollbackInv resolver j compensated k inst r ∧ OwnLog j k r
  | .record r step failure =>
    RollbackInv resolver j compensated k inst (r.outcome step failure) ∧ OwnLog j k r ∧
      (failure = none → (k.1, step) ∈ compensated)
  | .markTerminal final none =>
    (resolver.lookup inst.definitionID = none ∧ final = .failed) ∨
      ((resolver.lookup inst.definitionID).isSome = true ∧
        (final = .failed ∨ final = .expired ∨ final = .succeeded) ∧
        Held j k fun st _ ↦ st.canTransitionTo final = true)
  | .markTerminal final (some r) =>
    final = r.finalStatus ∧ r.remaining = [] ∧
      RollbackInv resolver j compensated k inst r ∧ OwnLog j k r
  | .returned none => True
  | .returned (some r) =>
    resolver.lookup inst.definitionID = some r.defn ∧ r.remaining = [] ∧ r.Wf ∧
      (r.undisturbed = true → Finished j k r)

theorem finalStatus_isTerminal (r : Rollback) : r.finalStatus.isTerminal = true := by
  unfold Rollback.finalStatus
  split_ifs <;> rfl

theorem Finished.frame {r : Rollback} (h : Finished j k r) (hf : Frame k j j') :
    Finished j' k r := by
  obtain ⟨⟨row, hrow, hstatus⟩, hlog⟩ := h
  obtain ⟨hrow', hlog'⟩ := hf.closed row hrow (hstatus ▸ finalStatus_isTerminal r)
  exact ⟨⟨row, hrow', hstatus⟩, hlog'.symm ▸ hlog⟩

theorem PcInv.frame {comp comp' : List (SafeID × SafeID)} {pc : Pc}
    (h : PcInv resolver j comp k inst pc) (hf : Frame k j j') (hsub : comp ⊆ comp') :
    PcInv resolver j' comp' k inst pc := by
  cases pc with
  | lookup => exact hf.held (P := fun st _ ↦ st = inst.status) h
  | load d => exact ⟨h.1, hf.held h.2⟩
  | execute => exact Forward.frame h hf
  | commit a =>
    obtain ⟨d, events, cursor, hfwd, hstep⟩ := h
    exact ⟨d, events, cursor, hfwd.frame hf, hstep⟩
  | startCompensation =>
    obtain ⟨cursor, hfwd⟩ := h
    exact ⟨cursor, hfwd.frame hf⟩
  | preflight r | walk r => exact ⟨h.1.frame hf hsub, hf.held h.2⟩
  | record =>
    exact ⟨h.1.frame hf hsub, hf.held h.2.1, fun hnone ↦ hsub (h.2.2 hnone)⟩
  | markTerminal final r =>
    cases r with
    | none => exact h.imp_right fun h ↦ ⟨h.1, h.2.1, hf.held h.2.2⟩
    | some r => exact ⟨h.1, h.2.1, h.2.2.1.frame hf hsub, hf.held h.2.2.2⟩
  | returned r =>
    cases r with
    | none => trivial
    | some r => exact ⟨h.1, h.2.1, h.2.2.1, fun hu ↦ (h.2.2.2 hu).frame hf⟩

theorem completedNames_eq_summary (log : List Event) :
    completedNames log = ((summary log).filter (·.1 = .stepCompleted)).map Prod.snd := by
  simp [completedNames, summary, List.filter_map, Function.comp_def]

theorem mem_summary {log : List Event} {e : Event} (h : e ∈ log) :
    (e.kind, e.stepName) ∈ summary log := mem_map.2 ⟨e, h, rfl⟩

theorem priorFailureCount_eq_zero (h : priorFailureCount events = 0) :
    ∀ e ∈ events, e.kind ≠ .stepCompensationFailed := by
  intro e he hkind
  have := length_eq_zero_iff.1 h
  simpa [hkind] using filter_eq_nil_iff.1 this e he

theorem startRollback_inv {comp : List (SafeID × SafeID)} {d : Definition} {recovery : Bool}
    (hreg : resolver.lookup inst.definitionID = some d)
    (hheld : Held j k fun st log ↦ st = .compensating ∧ ∃ tail, log = events ++ tail ∧
      summary tail = if recovery then [] else [(.compensationStarted, "")]) :
    RollbackInv resolver j comp k inst (startRollback d events recovery) ∧
      OwnLog j k (startRollback d events recovery) := by
  have htail : ∀ tail : List Event,
      (summary tail = if recovery then [] else [(.compensationStarted, "")]) →
      ∀ e ∈ tail, e.kind = .compensationStarted := by
    intro tail h e he
    have hmem := mem_summary he
    rw [h] at hmem
    cases recovery <;> simp_all
  refine ⟨⟨hreg, startRollback_wf d events recovery, ?_, ?_⟩, ?_⟩
  · refine hheld.imp fun st log ⟨hst, tail, hlog, hsum⟩ ↦ ⟨hst, ?_, ?_, fun herr e he ↦ ?_⟩
    · rw [hlog]
      exact prefix_append _ _
    · rw [hlog, completedNames_append, completedNames_eq_summary tail, hsum]
      cases recovery <;> simp [startRollback]
    · rw [hlog, mem_append] at he
      rcases he with he | he
      · exact priorFailureCount_eq_zero herr e he
      · rw [htail tail hsum e he]
        simp
  · intro herr name hname hcomp
    obtain ⟨e, he, rfl⟩ := mem_map.1 hname
    obtain ⟨he, hkind⟩ := mem_filter.1 he
    by_cases hdone : e.stepName ∈ compensatedNames events
    · obtain ⟨e', he', hname'⟩ := mem_map.1 hdone
      obtain ⟨he', hkind'⟩ := mem_filter.1 he'
      refine .inl ⟨e', he', ?_, hname'⟩
      simpa [priorFailureCount_eq_zero herr e' he'] using hkind'
    · refine .inr (.inr ?_)
      simp only [startRollback, List.map_reverse, List.mem_reverse, collectCommittedSteps,
        List.map_map]
      exact List.mem_map.2 ⟨e, List.mem_filter.2 ⟨he, by simp_all⟩, rfl⟩
  · refine hheld.imp fun st log ⟨_, tail, hlog, hsum⟩ _ ↦ ?_
    rw [hlog, summary_append, hsum]
    cases recovery <;> simp [startRollback, Rollback.ownEvents]

section Actions

variable {comp : List (SafeID × SafeID)} {inst : Instance} {d : Definition}

section

variable (hj : j.Sound) (hne : k.2 ≠ "")
include hj hne

theorem held_canExpire :
    Held j k fun st _ ↦ st.canTransitionTo .expired = true := by
  intro row hrow hlease
  rcases hj.leased_status hrow (hlease ▸ hne) with h | h | h <;> rw [h] <;> rfl

theorem afterLookup_inv (now : Time) (hheld : Held j k fun st _ ↦ st = inst.status) :
    PcInv resolver j comp k inst (afterLookup resolver now inst) := by
  unfold afterLookup
  cases hreg : resolver.lookup inst.definitionID with
  | none => exact .inl ⟨hreg, rfl⟩
  | some d =>
    simp only
    split_ifs
    · exact .inr ⟨by rw [hreg]; rfl, .inr (.inl rfl), held_canExpire hj hne⟩
    · exact ⟨hreg, hheld⟩

theorem afterLoad_inv (hexists : (j.row k.1).isSome = true)
    (hreg : resolver.lookup inst.definitionID = some d)
    (hheld : Held j k fun st _ ↦ st = inst.status) :
    PcInv resolver j comp k inst (afterLoad inst d (j.load k.1)) := by
  have hregistered : (resolver.lookup inst.definitionID).isSome = true := by rw [hreg]; rfl
  have hload : j.load k.1 = .ok (j.log k.1) := if_pos hexists
  rw [hload]
  unfold afterLoad
  simp only
  split_ifs with hcomp
  · refine startRollback_inv hreg fun row hrow hlease ↦ ⟨?_, [], ?_, rfl⟩
    · rw [hheld row hrow hlease, hcomp]
    · rw [append_nil]
  · have hphase : ∀ row, j.row k.1 = some row → row.leaseID = k.2 →
        row.inst.status = .pending ∨ row.inst.status = .running := by
      intro row hrow hlease
      rcases hj.leased_status hrow (hlease ▸ hne) with h | h | h
      · exact .inl h
      · exact .inr h
      · exact absurd ((hheld row hrow hlease).symm.trans h) hcomp
    cases hfold : foldEvents (j.log k.1) with
    | error e =>
      refine .inr ⟨hregistered, .inl rfl, fun row hrow hlease ↦ ?_⟩
      rcases hphase row hrow hlease with h | h <;> rw [h] <;> rfl
    | ok p =>
      obtain ⟨cursor, prevState⟩ := p
      have hcursor : cursor = (completedNames (j.log k.1)).length := by
        have h := foldEventsFrom_cursor hfold
        rwa [Nat.zero_add] at h
      simp only
      split_ifs with hdone
      · refine .inr ⟨hregistered, .inr (.inr rfl), fun row hrow hlease ↦ ?_⟩
        rcases hphase row hrow hlease with h | h
        · have hlog := projectLog_pending (h ▸ hj.projected _ _ hrow)
          have hsteps := (Definition.validate_ok (resolver.validated _ _ hreg)).1
          rw [hcursor, hlog] at hdone
          exact absurd (length_eq_zero_iff.1 (Nat.le_zero.1 hdone)) hsteps
        · rw [h]
          rfl
      · exact ⟨hreg, hcomp, fun row hrow hlease ↦ ⟨hheld row hrow hlease, rfl⟩, hcursor,
          not_le.1 hdone⟩

theorem routeOutcome_inv {cursor : ℕ} {step : Step} (h : Forward resolver j k inst d events cursor)
    (hstep : d.steps[cursor]? = some step) (outcome : Outcome) :
    PcInv resolver j comp k inst
      (routeOutcome d events cursor step outcome) := by
  cases outcome with
  | succeeded => exact ⟨d, events, cursor, h, hstep⟩
  | failed =>
    unfold routeOutcome
    split_ifs
    · exact ⟨cursor, h⟩
    · exact ⟨d, events, cursor, h, hstep⟩
  | expired => exact .inr ⟨by rw [h.registered]; rfl, .inr (.inl rfl), held_canExpire hj hne⟩
  | canceled | leaseLost => trivial

end

theorem startCompensation_inv {cursor : ℕ} {reason : Bytes}
    (h : Forward resolver j k inst d events cursor) (hok : (j.append now k.1 k.2
      { kind := .compensationStarted, payload := reason }).2.isOk = true) :
    PcInv resolver
      (j.append now k.1 k.2 { kind := .compensationStarted, payload := reason }).1 comp k inst
      (.preflight (startRollback d events false)) := by
  obtain ⟨row, inst', e, hrow, hfenced, hstatus, hrow', hlog', hkind, hname⟩ := append_effect hok
  obtain ⟨-, hlease, -⟩ := fenced_iff.1 hfenced
  refine startRollback_inv h.registered fun row₂ hrow₂ hlease₂ ↦ ⟨?_, [e], ?_, ?_⟩
  · cases hrow'.symm.trans hrow₂
    have hto : statusTo row.inst.status .compensating = some inst'.status := hstatus
    unfold statusTo at hto
    split_ifs at hto
    exact (some.inj hto).symm
  · rw [hlog', (h.held row hrow hlease).2]
  · rw [summary_singleton, hkind, hname]
    rfl

section

variable {r : Rollback} {cs : CommittedStepEntry} {rest : List CommittedStepEntry}
  (h : RollbackInv resolver j comp k inst r) (hrem : r.remaining = cs :: rest)
include h hrem

theorem RollbackInv.skip (hskip : r.defn.compensable cs.name = false) :
    RollbackInv resolver j comp k inst { r with remaining := rest } where
  registered := h.registered
  wf := h.wf.skip hrem hskip
  held := h.held
  covered := by
    have hcovered := h.covered
    grind -ring -linarith

theorem RollbackInv.compensate (hcall : r.defn.compensable cs.name = true)
    (failure : Option Bytes) :
    RollbackInv resolver j (if failure.isNone then (k.1, cs.name) :: comp else comp) k inst
      ({ r with remaining := rest }.outcome cs.name failure) where
  registered := h.registered
  wf := h.wf.outcome hrem hcall failure
  held := h.held.imp fun st log hlog ↦ ⟨hlog.1, hlog.2.1, hlog.2.2.1, fun herr ↦ hlog.2.2.2 (by
    cases failure <;> simp_all [Rollback.outcome])⟩
  covered := by
    have hcovered := h.covered
    cases failure <;> grind -ring -linarith [Rollback.outcome]

end

theorem record_inv {r : Rollback} {step : SafeID} {failure : Option Bytes}
    (h : PcInv resolver j comp k inst (.record r step failure))
    (hok : (j.append now k.1 k.2 (compensationEvent step failure)).2.isOk = true) :
    PcInv resolver (j.append now k.1 k.2 (compensationEvent step failure)).1 comp k inst
      (.walk (r.outcome step failure)) := by
  obtain ⟨hinv, hown, -⟩ := h
  obtain ⟨row, inst', e, hrow, hfenced, hstatus, hrow', hlog', hkind, hname⟩ := append_effect hok
  obtain ⟨-, hlease, -⟩ := fenced_iff.1 hfenced
  obtain ⟨hcompensating, hpre, hcompleted, hclean⟩ := hinv.held row hrow hlease
  have hstatus' : inst'.status = .compensating := by
    cases failure <;> simpa [compensationEvent, statusAfter, hcompensating, eq_comm] using hstatus
  refine ⟨{ hinv with held := fun row₂ hrow₂ _ ↦ ⟨?_, ?_, ?_, fun herr e' he' ↦ ?_⟩ }, ?_⟩
  · cases hrow'.symm.trans hrow₂
    exact hstatus'
  · rw [hlog']
    exact hpre.trans (prefix_append _ _)
  · rw [hlog', completedNames_append, hcompleted]
    cases failure <;> simp [completedNames, hkind, compensationEvent]
  · rw [hlog', mem_append, mem_singleton] at he'
    rcases he' with he' | rfl
    · exact hclean herr e' he'
    · cases failure with
      | some => simp [Rollback.outcome] at herr
      | none =>
        rw [hkind]
        simp [compensationEvent]
  · intro row₂ hrow₂ _ hund
    rw [hlog', summary_append, hown row hrow hlease hund]
    cases failure <;>
      simp [summary, hkind, hname, Rollback.ownEvents, Rollback.outcome, compensationEvent]

theorem markTerminal_inv (htime : j.Timely now) {r : Rollback}
    (h : PcInv resolver j comp k inst (.markTerminal r.finalStatus (some r))) :
    PcInv resolver (j.markTerminal now k.1 k.2 r.finalStatus).1 comp k inst
      (.returned (some { r with
        undisturbed := r.undisturbed && leaseValid j now k })) := by
  obtain ⟨-, hrem, hinv, hown⟩ := h
  refine ⟨hinv.registered, hrem, ⟨hinv.wf.order, hinv.wf.errors⟩, fun hund ↦ ?_⟩
  rw [Bool.and_eq_true] at hund
  obtain ⟨hund, hvalid⟩ := hund
  obtain ⟨row, hrow, hfenced⟩ := (any_eq_true _ _).1 hvalid
  obtain ⟨-, hlease, -⟩ := fenced_iff.1 hfenced
  obtain ⟨hcompensating, -⟩ := hinv.held row hrow hlease
  obtain ⟨hupd, hstart⟩ := htime k.1 row hrow
  have hto : row.inst.status.canTransitionTo r.finalStatus = true := by
    rw [hcompensating, Rollback.finalStatus]
    split_ifs <;> rfl
  obtain ⟨kind, hkind⟩ : ∃ kind, terminalEventKind r.finalStatus = some kind := by
    unfold Rollback.finalStatus
    split_ifs
    · exact ⟨_, rfl⟩
    · exact ⟨_, rfl⟩
  obtain ⟨-, ⟨row', hrow', hfinal⟩, e, hlog', hek, hen⟩ :=
    markTerminal_succeeds hrow hfenced hkind hto (hstart (by simp [hcompensating])) hupd
  refine ⟨⟨row', hrow', hfinal⟩, kind, hkind, ?_⟩
  rw [hlog', summary_append, hown row hrow hlease hund, summary_singleton, hek, hen]
  rfl

end Actions

structure DriveInv (resolver : Resolver) (s : Coordinators) (k : DriveKey) (d : Drive) : Prop where
  leased : k.2 ≠ ""
  used : k.2 ∈ s.leases
  origin : ∃ row, s.journal.row k.1 = some row ∧ row.inst.origin = d.ci.inst.origin
  pc : PcInv resolver s.journal s.compensated k d.ci.inst d.pc

structure Coordinators.Inv (resolver : Resolver) (s : Coordinators) : Prop where
  sound : s.journal.Sound
  timely : s.journal.Timely s.now
  leases : ∀ id row, s.journal.row id = some row → row.leaseID = "" ∨ row.leaseID ∈ s.leases
  drives : ∀ k d, s.drives.lookup k = some d → DriveInv resolver s k d

variable {s s' : Coordinators} {d : Drive}

theorem DriveStep.sound (h : DriveStep resolver s k d s') (hs : s.journal.Sound) :
    s'.journal.Sound := by
  cases h with
  | lookup | load | execute | rollBackCommit | skip | compensate | loseRecord | finishWalk | stop
  | crash => exact hs
  | commit a later _ _ _ _ hj =>
    obtain ⟨-, rfl⟩ := commitStep_ok hj
    have happ := hs.append s.now k.1 k.2 a.event
    cases hclose : a.closes with
    | some final => simpa only [resume_journal, hclose] using happ.markTerminal later k.1 k.2 final
    | none => simpa only [resume_journal, hclose] using happ
  | startCompensation => exact hs.append _ _ _ _
  | preflight => exact hs.heartbeat _ _ _ _
  | record => exact hs.append _ _ _ _
  | markTerminal => exact hs.markTerminal _ _ _ _
  | heartbeat => exact hs.heartbeat _ _ _ _

theorem DriveStep.timely (h : DriveStep resolver s k d s') (hs : s.journal.Timely s.now) :
    s'.journal.Timely s'.now := by
  cases h with
  | lookup | load | execute | skip | compensate | loseRecord | finishWalk | stop | crash => exact hs
  | commit a _ _ _ _ hlater hj =>
    obtain ⟨-, rfl⟩ := commitStep_ok hj
    have happ := (hs.append k.1 k.2 a.event).mono hlater
    cases hclose : a.closes with
    | some final =>
      simpa only [resume_journal, resume_now, hclose] using happ.markTerminal k.1 k.2 final
    | none => simpa only [resume_journal, resume_now, hclose] using happ
  | rollBackCommit _ _ _ hlater => exact hs.mono hlater
  | startCompensation | record => exact hs.append _ _ _
  | preflight | heartbeat => exact hs.heartbeat _ _ _ _
  | markTerminal => exact hs.markTerminal _ _ _

theorem DriveStep.drives (h : DriveStep resolver s k d s') (hs : s.Inv resolver)
    (hd : s.drives.lookup k = some d) {k' : DriveKey} {d' : Drive}
    (hd' : s'.drives.lookup k' = some d') :
    (k' ≠ k ∧ s.drives.lookup k' = some d') ∨ (k' = k ∧ d'.ci = d.ci ∧
        PcInv resolver s'.journal s'.compensated k d.ci.inst d'.pc) := by
  have hresume : ∀ {t : Coordinators} {j : MemJournal} {pc : Pc},
      t.drives = s.drives → (t.resume k d j pc).drives.lookup k' = some d' →
      PcInv resolver j t.compensated k d.ci.inst pc →
      (k' ≠ k ∧ s.drives.lookup k' = some d') ∨ (k' = k ∧ d'.ci = d.ci ∧
          PcInv resolver (t.resume k d j pc).journal (t.resume k d j pc).compensated k d.ci.inst
            d'.pc) := by
    intro t j pc ht hlookup hpc
    rcases resume_lookup hlookup with ⟨hne, hold⟩ | ⟨rfl, rfl⟩
    · exact .inl ⟨hne, ht ▸ hold⟩
    · exact .inr ⟨rfl, rfl, hpc⟩
  have hk := hs.drives k d hd
  obtain ⟨row, hrow, -⟩ := hk.origin
  have hexists : (s.journal.row k.1).isSome = true := by rw [hrow]; rfl
  have hinv := hk.pc
  cases h with
  | lookup hpc =>
    rw [hpc] at hinv
    exact hresume rfl hd' (afterLookup_inv hs.sound hk.leased s.now hinv)
  | load defn hpc =>
    rw [hpc] at hinv
    exact hresume rfl hd' (afterLoad_inv hs.sound hk.leased hexists hinv.1 hinv.2)
  | execute _ _ _ _ _ outcome hpc hstep =>
    rw [hpc] at hinv
    exact hresume rfl hd' (routeOutcome_inv hs.sound hk.leased hinv hstep outcome)
  | commit | rollBackCommit | stop => exact hresume rfl hd' trivial
  | startCompensation _ _ _ hpc hok =>
    rw [hpc] at hinv
    obtain ⟨cursor, hfwd⟩ := hinv
    exact hresume rfl hd' (startCompensation_inv hfwd hok)
  | preflight r leaseDuration hpc =>
    rw [hpc] at hinv
    have hframe := frame_heartbeat (k := k) hs.sound s.now leaseDuration
    obtain ⟨hroll, hown⟩ := hinv
    refine hresume rfl hd' ⟨?_, (hframe.held hown).imp fun st log hlog hund ↦ ?_⟩
    · have h := hroll.frame hframe (List.Subset.refl _)
      exact { h with wf := { h.wf with } }
    · exact hlog (Bool.and_eq_true_iff.1 hund).1
  | skip r cs rest hpc hremaining hskip =>
    rw [hpc] at hinv
    exact hresume rfl hd' ⟨hinv.1.skip hremaining hskip, hinv.2⟩
  | compensate r cs rest failure hpc hremaining hcall =>
    rw [hpc] at hinv
    refine hresume rfl hd' ⟨hinv.1.compensate hremaining hcall failure, hinv.2, ?_⟩
    rintro rfl
    exact mem_cons_self
  | record _ _ _ hpc hok =>
    rw [hpc] at hinv
    exact hresume rfl hd' (record_inv hinv hok)
  | loseRecord _ _ _ hpc =>
    rw [hpc] at hinv
    obtain ⟨hroll, -⟩ := hinv
    refine hresume rfl hd' ⟨?_, fun _ _ _ hund ↦ Bool.noConfusion hund⟩
    exact { hroll with wf := { hroll.wf with } }
  | finishWalk r hpc hremaining =>
    rw [hpc] at hinv
    exact hresume rfl hd' ⟨rfl, hremaining, hinv.1, hinv.2⟩
  | markTerminal final r hpc =>
    rw [hpc] at hinv
    cases r with
    | none => exact hresume rfl hd' trivial
    | some r =>
      obtain rfl := hinv.1
      exact hresume rfl hd' (markTerminal_inv hs.timely hinv)
  | heartbeat leaseDuration =>
    by_cases hkk : k' = k
    · subst hkk
      cases hd.symm.trans hd'
      exact .inr ⟨rfl, rfl, hinv.frame (frame_heartbeat hs.sound s.now leaseDuration)
        (List.Subset.refl _)⟩
    · exact .inl ⟨hkk, hd'⟩
  | crash =>
    by_cases hkk : k' = k
    · subst hkk
      simp at hd'
    · rw [AList.lookup_erase_ne hkk] at hd'
      exact .inl ⟨hkk, hd'⟩

theorem RowChange.origin {leases : List SafeID} {id : SafeID}
    {row : InstanceRow} (h : RowChange leases actor j j' id) (hrow : j.row id = some row) :
    ∃ row', j'.row id = some row' ∧ row'.inst.origin = row.inst.origin := by
  cases h <;> grind -ring -linarith [leaseTo]

theorem DriveInv.keep (hs : s.journal.Sound) (h : DriveInv resolver s k d)
    (hchange : RowChange s.leases actor s.journal s'.journal k.1)
    (hactor : actor ≠ some k) (hactive : ∀ k', actor = some k' → k'.2 ≠ "")
    (hleases : s.leases ⊆ s'.leases) (hcomp : s.compensated ⊆ s'.compensated) :
    DriveInv resolver s' k d := by
  obtain ⟨row, hrow, horigin⟩ := h.origin
  obtain ⟨row', hrow', horigin'⟩ := hchange.origin hrow
  have hframe := hchange.frame hs h.leased h.used hactor hactive
  exact ⟨h.leased, hleases h.used, ⟨row', hrow', horigin'.trans horigin⟩, h.pc.frame hframe hcomp⟩

theorem DriveStep.extends (h : DriveStep resolver s k d s') :
    s'.leases = s.leases ∧ s.compensated ⊆ s'.compensated := by
  cases h
  case compensate => grind -ring -linarith [resume]
  all_goals exact ⟨rfl, List.Subset.refl _⟩

section

variable (hs : s.Inv resolver)
include hs

theorem Coordinators.Inv.drive (hd : s.drives.lookup k = some d)
    (h : DriveStep resolver s k d s') : s'.Inv resolver := by
  have hk := hs.drives k d hd
  obtain ⟨hleases, hcomp⟩ := h.extends
  have hactive : ∀ k', some k = some k' → k'.2 ≠ "" := by
    rintro k' ⟨⟩
    exact hk.leased
  refine ⟨h.sound hs.sound, h.timely hs.timely, fun id row' hrow' ↦ ?_, fun k' d' hd' ↦ ?_⟩
  · have hold := hs.leases id
    cases h.writes id <;> grind -ring -linarith
  · rcases h.drives hs hd hd' with ⟨hne, hold⟩ | ⟨rfl, hci, hpc⟩
    · refine (hs.drives k' d' hold).keep hs.sound (h.writes k'.1).rowChange ?_ hactive
        (hleases ▸ List.Subset.refl _) hcomp
      exact fun heq ↦ hne (some.inj heq).symm
    · obtain ⟨row, hrow, horigin⟩ := hk.origin
      have hchange : RowChange s.leases (some k') s.journal s'.journal k'.1 :=
        (h.writes k'.1).rowChange
      obtain ⟨row', hrow', horigin'⟩ := hchange.origin hrow
      exact ⟨hk.leased, hleases ▸ hk.used,
        ⟨row', hrow', by rw [hci]; exact horigin'.trans horigin⟩, by rw [hci]; exact hpc⟩

theorem Coordinators.Inv.tick {leaseID : SafeID} {batchSize : ℤ}
    {leaseDuration : Duration} (h : s.tick leaseID batchSize leaseDuration = some s') :
    s'.Inv resolver := by
  rcases tick_cases h with rfl | ⟨hne, hfresh, hs'⟩
  · exact hs
  · have hkeep : ∀ (t : Coordinators), t.leases = leaseID :: s.leases →
        t.compensated = s.compensated →
        (∀ id, RowChange s.leases none s.journal t.journal id) →
        ∀ k d, s.drives.lookup k = some d → DriveInv resolver t k d := by
      intro t hleases hcomp hchange k d hd
      refine (hs.drives k d hd).keep hs.sound (hchange k.1) (fun h ↦ by cases h)
        (fun _ h ↦ by cases h) ?_ ?_
      · rw [hleases]
        exact subset_cons_self _ _
      · rw [hcomp]
        exact List.Subset.refl _
    rcases hs' with rfl | rfl
    · refine ⟨hs.sound, hs.timely, fun id row hrow ↦ ?_, ?_⟩
      · exact (hs.leases id row hrow).imp_right (mem_cons_of_mem _)
      · refine hkeep _ ?_ ?_ fun id ↦ .same ?_ ?_ <;> rfl
    · have hchange : ∀ id, RowChange s.leases none s.journal
          (s.journal.leaseAll (s.journal.candidates s.now batchSize) leaseID
            (s.now + leaseDuration)) id :=
        fun id ↦ leaseAll_rowChange _ _ _ _ _ hfresh
      have hhist := s.journal.leaseAll_sameHistory s.now batchSize leaseID (s.now + leaseDuration)
      refine ⟨hs.sound.leaseAll _ _ _ _, hhist.timely hs.timely, ?_, ?_⟩
      · intro id row' hrow'
        rw [row_leaseAll] at hrow'
        split_ifs at hrow' with hid
        · obtain ⟨row, -, rfl⟩ := map_eq_some_iff.1 hrow'
          exact .inr mem_cons_self
        · exact (hs.leases id row' hrow').imp_right (mem_cons_of_mem _)
      · intro k d hd
        rcases lookup_foldl_insert _ _ _ _ hd with hold | ⟨⟨id, row⟩, hmem, rfl, rfl⟩
        · refine hkeep _ ?_ ?_ hchange k d hold <;> rfl
        · obtain ⟨hrow, -⟩ := mem_candidates hmem
          have hid : row.inst.id = id := hs.sound.keyed id row hrow
          have hclaimed : (s.journal.leaseAll (s.journal.candidates s.now batchSize) leaseID
              (s.now + leaseDuration)).row row.inst.id =
              some (leaseTo leaseID (s.now + leaseDuration) row) := by
            rw [row_leaseAll, hid, if_pos (mem_map.2 ⟨(id, row), hmem, rfl⟩), hrow, map_some]
          refine ⟨hne, mem_cons_self, ⟨_, hclaimed, rfl⟩, fun row₂ hrow₂ _ ↦ ?_⟩
          cases hclaimed.symm.trans hrow₂
          rfl

theorem Coordinators.Inv.enqueue (inst : Instance) :
    ({ s with journal := (s.journal.enqueue inst).1 } : Coordinators).Inv resolver := by
  have hstep : s.step resolver (.enqueue inst) =
      some { s with journal := (s.journal.enqueue inst).1 } := rfl
  refine ⟨hs.sound.enqueue inst, hs.timely.enqueue inst, ?_, fun k d hd ↦ ?_⟩
  · have hold := hs.leases
    have henqueue := s.journal.enqueue_cases inst
    grind -ring -linarith
  · exact (hs.drives k d hd).keep hs.sound (step_rowChange hstep k.1) (fun h ↦ by cases h)
      (fun _ h ↦ by cases h) (List.Subset.refl _) (List.Subset.refl _)

theorem Coordinators.Inv.step {a : Action} (h : s.step resolver a = some s') : s'.Inv resolver := by
  cases a with
  | advanceClock now =>
    have hstep := h
    simp only [Coordinators.step] at h
    split_ifs at h with hnow
    cases h
    refine ⟨hs.sound, hs.timely.mono (not_lt.1 hnow), hs.leases, fun k d hd ↦ ?_⟩
    exact (hs.drives k d hd).keep hs.sound (step_rowChange hstep k.1) (fun h ↦ by cases h)
      (fun _ h ↦ by cases h)
      (List.Subset.refl _) (List.Subset.refl _)
  | enqueue inst =>
    cases h
    exact hs.enqueue inst
  | tick => exact hs.tick h
  | drive k a =>
    obtain ⟨d, hd, h⟩ := bind_eq_some_iff.1 h
    exact hs.drive hd (driveStep_cases h)

theorem Coordinators.Inv.exec {actions : List Action}
    (h : Foundation.exec (Coordinators.step resolver) s actions = some s') : s'.Inv resolver :=
  exec_invariant (Coordinators.Inv resolver) (fun _ _ _ hi hstep ↦ hi.step hstep) actions s s' hs h

end

theorem inv_initial (resolver : Resolver) (now : Time) :
    ({ now := now } : Coordinators).Inv resolver where
  sound := sound_empty
  timely id row hrow := by cases hrow
  leases id row hrow := by cases hrow
  drives k d hd := by cases hd

end GoCell.Saga
