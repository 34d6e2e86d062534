import GoCell.Reconcile.Requeue

namespace GoCell.Reconcile

open Foundation Kernel List Option Function

section Conditions

def Feeder.entity : Feeder → Option String
  | .sending req => some req.entityID
  | .idle | .stopped => none

def Worker.ahead : Worker → Option String
  | .received req | .requeueing req _ => some req.entityID
  | .idle | .reconciling _ | .adding _ _ _ | .cancelling _ | .finishing _ _ => none

structure Quiet (s : LoopState) (id : String) : Prop where
  queue : ∀ req ∈ s.queue, req.entityID ≠ id
  feeder : s.feeder.entity ≠ some id
  phase : s.phase.entity ≠ some id
  workers : ∀ w ∈ s.workers, w.ahead ≠ some id

instance Quiet.decidable (s : LoopState) (id : String) : Decidable (Quiet s id) :=
  decidable_of_iff
    ((∀ req ∈ s.queue, req.entityID ≠ id) ∧ s.feeder.entity ≠ some id ∧ s.phase.entity ≠ some id ∧
      ∀ w ∈ s.workers, w.ahead ≠ some id)
    ⟨fun ⟨hqueue, hfeeder, hphase, hworkers⟩ ↦ ⟨hqueue, hfeeder, hphase, hworkers⟩,
      fun h ↦ ⟨h.queue, h.feeder, h.phase, h.workers⟩⟩

def Outstanding (s : LoopState) (id : String) : Prop :=
  id ∈ s.cancelCh ∨ ∃ w ∈ s.workers, ∃ req, w = .cancelling req ∧ req.entityID = id

/-- The cancellation is received before an item of the entity leaves the heap, and after every item
of the entity came out of the channel. -/
def Prompt (id : String) (s : LoopState) (a : Action) : Prop :=
  (a = .pop → ∀ now, s.phase = .draining now → ∀ req waiting,
    s.waiting.popReady now = some (req, waiting) → req.entityID = id → ¬Outstanding s id) ∧
  (a = .cancel → s.cancelCh.head? = some id → ∀ item ∈ s.addCh, item.req.entityID ≠ id)

end Conditions

variable {req : Request} {i : ℕ} {w : Worker}

section DeadLetter

variable {cfg : Config} {s t : LoopState} {a : Action} {id : String}

def Worker.Spent (id : String) (w : Worker) : Prop :=
  w.entity = some id → ∃ req, w = .cancelling req ∨ w = .finishing req .permanent

structure Dead (s : LoopState) (id : String) : Prop where
  consistent : Consistent s
  queue : ∀ req ∈ s.queue, req.entityID ≠ id
  feeder : s.feeder.entity ≠ some id
  phase : s.phase.entity ≠ some id
  workers : ∀ w ∈ s.workers, w.Spent id
  waiting : Outstanding s id ∨ (∀ item ∈ s.addCh, item.req.entityID ≠ id) ∧ s.waiting.due id = none

theorem spent_set {workers : List Worker} (h : ∀ v ∈ workers, v.Spent id)
    (hw : w.Spent id) : ∀ v ∈ workers.set i w, v.Spent id := by
  intro v hv
  obtain hv | rfl := mem_or_eq_of_mem_set hv
  · exact h v hv
  · exact hw

theorem spent_of_ne (h : w.entity ≠ some id) : w.Spent id := fun heq ↦ absurd heq h

theorem Dead.entity_ne (h : Dead s id) (hw : s.workers[i]? = some w)
    (hcancel : ∀ req, w ≠ .cancelling req) (hfinish : ∀ req, w ≠ .finishing req .permanent) :
    w.entity ≠ some id := by
  intro heq
  obtain ⟨req, hspent⟩ := h.workers w (mem_of_getElem? hw) heq
  obtain hspent | hspent := hspent
  · exact hcancel req hspent
  · exact hfinish req hspent

theorem Outstanding.set {v w : Worker} (h : Outstanding s id)
    (hv : s.workers[i]? = some v) (hcancel : ∀ req, v ≠ .cancelling req)
    (hch : t.cancelCh = s.cancelCh) (hworkers : t.workers = s.workers.set i w) :
    Outstanding t id := by
  obtain hmem | ⟨u, hu, req, rfl, hid⟩ := h
  · exact .inl (by rw [hch]; exact hmem)
  · refine .inr ⟨_, ?_, req, rfl, hid⟩
    rw [hworkers]
    exact mem_set_of_ne hv hu (Ne.symm (hcancel req))

theorem Dead.worker_step (h : Dead s id) (hconsistent : Consistent t) {v w : Worker}
    (hv : s.workers[i]? = some v) (hworkers : t.workers = s.workers.set i w) (hw : w.Spent id)
    (hcancel : ∀ req, v ≠ .cancelling req := by exact nofun)
    (hqueue : t.queue ⊆ s.queue := by grind [LoopState.setWorker, LoopState.cleared])
    (haddCh : ∀ item ∈ t.addCh, item ∈ s.addCh ∨ item.req.entityID ≠ id := by
      grind [LoopState.setWorker, LoopState.cleared])
    (hrest : (t.feeder, t.phase, t.cancelCh, t.waiting) =
      (s.feeder, s.phase, s.cancelCh, s.waiting) := by rfl) : Dead t id := by
  obtain ⟨hfeeder, hphase, hch, hwaiting⟩ : _ ∧ _ ∧ _ ∧ _ := by simpa using hrest
  refine ⟨hconsistent, fun req hreq ↦ h.queue req (hqueue hreq), by rw [hfeeder]; exact h.feeder,
    by rw [hphase]; exact h.phase, by rw [hworkers]; exact spent_set h.workers hw, ?_⟩
  obtain hout | ⟨hnone, hdue⟩ := h.waiting
  · exact .inl (hout.set hv hcancel hch hworkers)
  · refine .inr ⟨fun item hitem ↦ ?_, by rw [hwaiting]; exact hdue⟩
    obtain hold | hnew := haddCh item hitem
    · exact hnone item hold
    · exact hnew

theorem Completed.spent {label : ResultLabel}
    (h : Completed s req label w) (hid : req.entityID = id → label = .permanent) : w.Spent id := by
  cases h with
  | dirty _ _ _ _ hlabel =>
    exact spent_of_ne fun heq ↦ hlabel (hid (some.inj heq))
  | dropped | clean => exact spent_of_ne nofun

section

variable (h : Dead s id)
include h

theorem Dead.unlock {label : ResultLabel}
    (hv : s.workers[i]? = some (.finishing req label)) (hw : Completed s req label w)
    (hconsistent : Consistent ((s.cleared req.entityID).setWorker i w)) :
    Dead ((s.cleared req.entityID).setWorker i w) id := by
  refine h.worker_step hconsistent hv rfl (hw.spent fun hid ↦ ?_)
  obtain ⟨req', hcancel | hfinish⟩ :=
    h.workers _ (mem_of_getElem? hv) (congrArg some hid)
  · cases hcancel
  · cases hfinish
    rfl

theorem Dead.sendCancel (hv : s.workers[i]? = some (.cancelling req)) (hconsistent : Consistent
      ({ s with cancelCh := s.cancelCh ++ [req.entityID] }.setWorker i
        (.finishing req .permanent))) :
    Dead ({ s with cancelCh := s.cancelCh ++ [req.entityID] }.setWorker i
      (.finishing req .permanent)) id := by
  refine ⟨hconsistent, h.queue, h.feeder, h.phase, spent_set h.workers fun _ ↦ ⟨req, .inr rfl⟩, ?_⟩
  obtain hout | hnone := h.waiting
  · left
    obtain hmem | ⟨u, hu, req', rfl, hid⟩ := hout
    · exact .inl (mem_append_left _ hmem)
    · by_cases heq : req' = req
      · rw [← hid, heq]
        exact .inl (mem_append_right _ mem_cons_self)
      · refine .inr ⟨_, mem_set_of_ne hv hu ?_, req', rfl, hid⟩
        intro hcancel
        exact heq (Worker.cancelling.inj hcancel)
  · exact .inr hnone

theorem Dead.pop (hprompt : Prompt id s .pop) {now : Time}
    {waiting : WaitingQueue} (hphase : s.phase = .draining now)
    (hpop : s.waiting.popReady now = some (req, waiting))
    (hconsistent : Consistent { s with waiting := waiting, phase := .sending now req }) :
    Dead { s with waiting := waiting, phase := .sending now req } id := by
  obtain ⟨-, ⟨t, -, hdue⟩, heq, -⟩ := WaitingQueue.popReady_some h.consistent.sound hpop
  have hne : req.entityID ≠ id := by
    intro hid
    obtain hout | ⟨-, hnone⟩ := h.waiting
    · exact hprompt.1 rfl now hphase req waiting hpop hid hout
    · rw [hid, hnone] at hdue
      cases hdue
  refine ⟨hconsistent, h.queue, h.feeder, fun hp ↦ hne (some.inj hp), h.workers, ?_⟩
  obtain hout | ⟨hnone, hdue⟩ := h.waiting
  · exact .inl hout
  · refine .inr ⟨hnone, ?_⟩
    change waiting.due id = none
    rw [heq, update_of_ne hne.symm]
    exact hdue

theorem Dead.add {item : WaitingItem} {addCh : List WaitingItem} (hadd : s.addCh = item :: addCh)
    (hconsistent : Consistent
      { s with
        addCh := addCh
        waiting := s.waiting.addOrMergeWaiting item
        phase := .draining s.clock }) :
    Dead
      { s with
        addCh := addCh
        waiting := s.waiting.addOrMergeWaiting item
        phase := .draining s.clock } id := by
  refine ⟨hconsistent, h.queue, h.feeder, nofun, h.workers, ?_⟩
  obtain hout | ⟨hnone, hdue⟩ := h.waiting
  · exact .inl hout
  · rw [hadd] at hnone
    have hne : item.req.entityID ≠ id := hnone item mem_cons_self
    refine .inr ⟨fun item' hitem ↦ hnone item' (mem_cons_of_mem _ hitem), ?_⟩
    change (s.waiting.addOrMergeWaiting item).due id = none
    rw [(WaitingQueue.addOrMergeWaiting_spec h.consistent.sound item).2.1, update_of_ne hne.symm]
    exact hdue

theorem Dead.cancel (hprompt : Prompt id s .cancel) {id' : String}
    {cancelCh : List String} (hcancel : s.cancelCh = id' :: cancelCh) (hconsistent : Consistent
      { s with
        cancelCh := cancelCh
        waiting := s.waiting.cancelPending id'
        phase := .draining s.clock }) :
    Dead
      { s with
        cancelCh := cancelCh
        waiting := s.waiting.cancelPending id'
        phase := .draining s.clock } id := by
  refine ⟨hconsistent, h.queue, h.feeder, nofun, h.workers, ?_⟩
  have hdue := (WaitingQueue.cancelPending_sound h.consistent.sound id').2
  by_cases hid : id' = id
  · subst hid
    refine .inr ⟨hprompt.2 rfl (by rw [hcancel]; rfl), ?_⟩
    change (s.waiting.cancelPending id').due id' = none
    rw [hdue, update_self]
  · obtain hout | ⟨hnone, hold⟩ := h.waiting
    · left
      obtain hmem | hworker := hout
      · rw [hcancel] at hmem
        exact .inl ((mem_cons.1 hmem).resolve_left (Ne.symm hid))
      · exact .inr hworker
    · refine .inr ⟨hnone, ?_⟩
      change (s.waiting.cancelPending id').due id = none
      rw [hdue, update_of_ne (Ne.symm hid)]
      exact hold

theorem Dead.step (hprompt : Prompt id s a)
    (hfeed : ∀ req, a = .feed req → req.entityID ≠ id) (hstep : Stepped cfg s a t) :
    Dead t id := by
  have hconsistent := h.consistent.step hstep
  cases hstep with
  | take i req queue hv hqueue =>
    have hne : req.entityID ≠ id := h.queue req (by rw [hqueue]; exact mem_cons_self)
    exact h.worker_step hconsistent hv rfl (spent_of_ne fun hid ↦ hne (some.inj hid))
  | coalesce i req hv => exact h.worker_step hconsistent hv rfl (spent_of_ne nofun)
  | begin i req hv =>
    have hne : some req.entityID ≠ some id := h.entity_ne hv nofun nofun
    exact h.worker_step hconsistent hv rfl (spent_of_ne hne)
  | ret _ req _ _ w hv hw =>
    have hentity : w.entity = some req.entityID := by
      cases hw with
      | again | never | rest => rfl
    have hne : some req.entityID ≠ some id := h.entity_ne hv nofun nofun
    exact h.worker_step hconsistent hv rfl (spent_of_ne (by rw [hentity]; exact hne))
  | sendAdd i req label item hv =>
    have hne : some req.entityID ≠ some id := h.entity_ne hv nofun nofun
    have hitem : item.req.entityID = req.entityID := h.consistent.own _ (mem_of_getElem? hv)
    exact h.worker_step hconsistent hv rfl (spent_of_ne hne)
  | sendCancel i req hv => exact h.sendCancel hv hconsistent
  | sendDirty i req item hv =>
    have hne : some req.entityID ≠ some id := h.entity_ne hv nofun nofun
    have hitem : item.req.entityID = req.entityID := h.consistent.own _ (mem_of_getElem? hv)
    exact h.worker_step hconsistent hv rfl (spent_of_ne nofun)
  | unlock _ _ _ _ hv hw => exact h.unlock hv hw hconsistent
  | pop _ _ _ hphase hpop => exact h.pop hprompt hphase hpop hconsistent
  | add _ _ _ _ hadd => exact h.add hadd hconsistent
  | cancel _ _ _ _ hcancel => exact h.cancel hprompt hcancel hconsistent
  | _ =>
    obtain ⟨-, hqueue, hfeeder, hphase, hworkers, hwaiting⟩ := h
    exact ⟨hconsistent, by grind [Feeder.entity, Phase.entity], by grind [Feeder.entity],
      by grind [Phase.entity], hworkers, hwaiting⟩

end

theorem Dead.of_permanent {outcome : Outcome} (hs : Consistent s)
    (hv : s.workers[i]? = some (.reconciling req)) (hlabel : classify outcome = .permanent)
    (hquiet : Quiet s req.entityID) (hstep : Stepped cfg s (.ret i outcome) t) :
    Dead t req.entityID := by
  have hconsistent := hs.step hstep
  cases hstep with
  | ret i req' _ _ w hv' hw =>
    obtain rfl := Worker.reconciling.inj (some.inj (hv'.symm.trans hv))
    obtain rfl : w = .cancelling req' := by
      cases hw with
      | again item _ _ hne => exact absurd hlabel hne
      | never => rfl
      | rest _ hok => cases hlabel.symm.trans hok
    have hlt : i < s.workers.length := (List.getElem?_eq_some_iff.1 hv).1
    have hmem : Worker.cancelling req' ∈ s.workers.set i (.cancelling req') :=
      mem_of_getElem? (getElem?_set_self hlt)
    refine ⟨hconsistent, hquiet.queue, hquiet.feeder, hquiet.phase, fun w hw hentity ↦ ?_,
      .inl (.inr ⟨_, hmem, req', rfl, rfl⟩)⟩
    obtain ⟨j, hj⟩ := mem_iff_getElem?.1 hw
    obtain ⟨rfl, rfl⟩ | ⟨hne, hj⟩ := getElem?_set_cases hj
    · exact ⟨req', .inl rfl⟩
    · -- Every other worker with the entity would hold its lock, or bring it back.
      have hahead := hquiet.workers w (mem_of_getElem? hj)
      have hother : ∀ id', w.holds = some id' → id' ≠ req'.entityID := by
        intro id' hid' heq
        exact hne (hs.exclusive.unique i j _ w id' hv hj (congrArg some heq.symm) hid')
      cases w with
      | idle => cases hentity
      | received | requeueing => exact absurd hentity hahead
      | reconciling | adding | cancelling | finishing =>
        exact absurd (some.inj hentity) (hother _ rfl)

/-- After a permanent outcome the entity is not reconciled again before the source delivers it, if
nothing of it was on the way to a worker and the waiting loop receives the cancellation in time. -/
theorem dead_letter_final {n : ℕ} {now : Time} {backoff : EntityBackoff}
    {before later : List Action} {u : LoopState} {i : ℕ} {req : Request} {outcome : Outcome}
    (hbefore : exec (LoopState.step cfg) (LoopState.start n now backoff) before = some s)
    (hworker : s.workers[i]? = some (.reconciling req)) (hlabel : classify outcome = .permanent)
    (hstep : s.step cfg (.ret i outcome) = some t) (hquiet : Quiet s req.entityID)
    (hlater : exec (LoopState.step cfg) t later = some u)
    (hprompt : Along (LoopState.step cfg) t later (Prompt req.entityID))
    (hfeed : ∀ r, .feed r ∈ later → r.entityID ≠ req.entityID) :
    ∀ r, .reconciling r ∈ u.workers → r.entityID ≠ req.entityID := by
  have hdead : Dead t req.entityID :=
    .of_permanent (consistent_run hbefore) hworker hlabel hquiet (step_cases hstep)
  have hend : Dead u req.entityID := by
    refine exec_invariant_along (fun v ↦ Dead v req.entityID)
      (C := fun v a ↦ Prompt req.entityID v a ∧ a ∈ later) (fun v a v' hv hC hv' ↦ ?_) later t u
      hdead (fun pre a post v heq hpre ↦ ⟨hprompt pre a post v heq hpre, ?_⟩) hlater
    · exact hv.step hC.1 (fun r ha ↦ hfeed r (ha ▸ hC.2)) (step_cases hv')
    · rw [heq]
      exact mem_append_right _ mem_cons_self
  intro r hr heq
  obtain ⟨r', hcancel | hfinish⟩ := hend.workers _ hr (congrArg some heq)
  · cases hcancel
  · cases hfinish

def waitingThenDead : List Action :=
  oneRound "x" (.ok 0) ++ [.sleep, .add, .feed ⟨"x"⟩, .enqueue, .take 0, .lock 0]

theorem dead_letter_final_waiting :
    ∃ s t u, exec (LoopState.step {}) (LoopState.start 1 0 sampleBackoff) waitingThenDead = some s ∧
      s.step {} (.ret 0 (.error .permanent)) = some t ∧ t.waiting.holds "x" = true ∧
      exec (LoopState.step {}) t [.send 0, .unlock 0, .sleep, .cancel] = some u ∧
      u.waiting.holds "x" = false ∧ ∀ r, .reconciling r ∈ u.workers → r.entityID ≠ "x" := by
  have hrun : ((exec (LoopState.step {}) (LoopState.start 1 0 sampleBackoff) waitingThenDead).bind
      fun s ↦ (s.step {} (.ret 0 (.error .permanent))).bind fun t ↦
        (exec (LoopState.step {}) t [.send 0, .unlock 0, .sleep, .cancel]).map fun u ↦
          decide (s.workers[0]? = some (.reconciling ⟨"x"⟩) ∧ Quiet s "x" ∧
            t.waiting.holds "x" = true ∧ u.waiting.holds "x" = false ∧
            Along (LoopState.step {}) t [.send 0, .unlock 0, .sleep, .cancel]
              fun v a ↦ a ≠ .pop ∧ (a = .cancel → v.addCh = []))) = some true := by
    decide +kernel
  obtain ⟨s, hs, hrun⟩ := bind_eq_some_iff.1 hrun
  obtain ⟨t, ht, hrun⟩ := bind_eq_some_iff.1 hrun
  obtain ⟨u, hu, hfacts⟩ := map_eq_some_iff.1 hrun
  obtain ⟨hworker, hquiet, hheld, hgone, halong⟩ := of_decide_eq_true hfacts
  refine ⟨s, t, u, hs, ht, hheld, hu, hgone,
    dead_letter_final hs hworker rfl ht hquiet hu (fun pre a post v heq hpre ↦ ?_) (by simp)⟩
  obtain ⟨hpop, hcancel⟩ := halong pre a post v heq hpre
  refine ⟨fun ha ↦ absurd ha hpop, fun ha _ item hitem ↦ ?_⟩
  rw [hcancel ha] at hitem
  cases hitem

def releasedThenDead : List Action :=
  oneRound "x" (.ok 1) ++
    [Action.sleep, .add, .sleep, .feed ⟨"x"⟩, .enqueue, .take 0, .lock 0, .tick 1, .timer, .pop,
      .release]

/-- The stale requeue is in the queue when the outcome is permanent: the cancellation does not reach
it. -/
theorem dead_letter_reconciled_again :
    ¬∀ (before later : List Action) (s t u : LoopState) (req : Request),
      exec (LoopState.step {}) (LoopState.start 1 0 sampleBackoff) before = some s →
      s.workers[0]? = some (.reconciling req) →
      s.step {} (.ret 0 (.error .permanent)) = some t →
      exec (LoopState.step {}) t later = some u →
      (∀ r, .feed r ∈ later → r.entityID ≠ req.entityID) →
        ∀ r, .reconciling r ∈ u.workers → r.entityID ≠ req.entityID := by
  intro h
  have hrun : ((exec (LoopState.step {}) (LoopState.start 1 0 sampleBackoff) releasedThenDead).bind
      fun s ↦ (s.step {} (.ret 0 (.error .permanent))).bind fun t ↦
        (exec (LoopState.step {}) t [.send 0, .unlock 0, .take 0, .lock 0]).map fun u ↦
          decide (s.workers[0]? = some (.reconciling ⟨"x"⟩) ∧
            .reconciling ⟨"x"⟩ ∈ u.workers)) = some true := by
    decide +kernel
  obtain ⟨s, hs, hrun⟩ := bind_eq_some_iff.1 hrun
  obtain ⟨t, ht, hrun⟩ := bind_eq_some_iff.1 hrun
  obtain ⟨u, hu, hfacts⟩ := map_eq_some_iff.1 hrun
  obtain ⟨hworker, hagain⟩ := of_decide_eq_true hfacts
  exact h _ _ s t u _ hs hworker ht hu (by simp) _ hagain rfl

end DeadLetter

end GoCell.Reconcile
