import GoCell.Reconcile.Exclusion

namespace GoCell.Reconcile

open Foundation Kernel List Option Function

section Presence

def Worker.entity : Worker → Option String
  | .idle => none
  | .received req | .reconciling req | .adding req _ _ | .cancelling req | .finishing req _
  | .requeueing req _ => some req.entityID

def Phase.entity : Phase → Option String
  | .sending _ req => some req.entityID
  | .draining _ | .selecting _ => none

def WaitingQueue.holds (w : WaitingQueue) (id : String) : Bool :=
  w.heap.any fun ref ↦ (w.items[ref]?).any fun it ↦ it.req.entityID = id

/-- The entity is processed by a worker, marked dirty, in the queue or on the way into it, in the
channel of the delayed requests, or in the heap. -/
def Present (s : LoopState) (id : String) : Prop :=
  (∃ w ∈ s.workers, w.entity = some id) ∨ (s.dirty id).isSome = true ∨
    (∃ req ∈ s.queue, req.entityID = id) ∨ s.phase.entity = some id ∨
    (∃ item ∈ s.addCh, item.req.entityID = id) ∨ s.waiting.holds id = true

instance Present.decidable (s : LoopState) (id : String) : Decidable (Present s id) :=
  inferInstanceAs (Decidable (_ ∨ _))

theorem WaitingQueue.Sound.holds_iff {w : WaitingQueue} (h : w.Sound) {id : String} :
    w.holds id = true ↔ (w.due id).isSome = true := by
  rw [holds, List.any_eq_true]
  constructor
  · rintro ⟨ref, hmem, hit⟩
    obtain ⟨it, hit, hid⟩ := (any_eq_true _ _).1 hit
    rw [← of_decide_eq_true hid, h.exact.due_of_mem hmem hit]
    rfl
  · intro hdue
    obtain ⟨t, hdue⟩ := isSome_iff_exists.1 hdue
    obtain ⟨k, ref, it, hk, hit, hid, -⟩ := h.exact.of_due hdue
    refine ⟨ref, mem_of_getElem? hk, ?_⟩
    rw [hit]
    exact decide_eq_true hid

end Presence

section Observer

variable (cfg : Config)

def observe (s : LoopState) (last : String → Bool) : Action → String → Bool
  | .ret i outcome =>
    match s.workers[i]? with
    | some (.reconciling req) => Function.update last req.entityID (cfg.asks outcome)
    | _ => last
  | _ => last

def observed (p : LoopState × (String → Bool)) (a : Action) :
    Option (LoopState × (String → Bool)) :=
  (p.1.step cfg a).map fun t ↦ (t, observe cfg p.1 p.2 a)

def Timely (p : LoopState × (String → Bool)) (a : Action) : Prop :=
  a = .cancel → ∀ id ∈ p.1.cancelCh.head?, p.2 id = false

end Observer

variable {req : Request} {i : ℕ} {w : Worker} {outcome : Outcome}

section Owing

variable {cfg : Config} {s t : LoopState} {a : Action} {id : String}

def Worker.carries : Worker → Option String
  | .idle | .cancelling _ | .finishing _ _ => none
  | .received req | .reconciling req | .adding req _ _ | .requeueing req _ => some req.entityID

inductive Owed (s : LoopState) (id : String) : Prop
  | worker (w : Worker) (hw : w ∈ s.workers) (h : w.carries = some id)
  | dirty (h : (s.dirty id).isSome = true)
  | queue (req : Request) (hreq : req ∈ s.queue) (h : req.entityID = id)
  | phase (h : s.phase.entity = some id)
  | addCh (item : WaitingItem) (hitem : item ∈ s.addCh) (h : item.req.entityID = id)
  | waiting (h : (s.waiting.due id).isSome = true)

def Worker.Regular (last : String → Bool) : Worker → Prop
  | .idle | .received _ | .reconciling _ | .requeueing _ _ => True
  | .adding _ label _ => label ≠ .permanent
  | .cancelling req => last req.entityID = false
  | .finishing req label => label = .permanent → last req.entityID = false

structure Kept (p : LoopState × (String → Bool)) : Prop where
  consistent : Consistent p.1
  regular : ∀ w ∈ p.1.workers, w.Regular p.2
  owed : ∀ id, p.2 id = true → Owed p.1 id

theorem Worker.entity_of_carries (h : w.carries = some id) : w.entity = some id := by
  cases w with
  | idle | cancelling req | finishing req label => cases h
  | _ => exact h

theorem Owed.present (h : Owed s id) (hsound : s.waiting.Sound) : Present s id := by
  cases h with
  | worker w hw h => exact .inl ⟨w, hw, w.entity_of_carries h⟩
  | dirty h => exact .inr (.inl h)
  | queue req hreq h => exact .inr (.inr (.inl ⟨req, hreq, h⟩))
  | phase h => exact .inr (.inr (.inr (.inl h)))
  | addCh item hitem h => exact .inr (.inr (.inr (.inr (.inl ⟨item, hitem, h⟩))))
  | waiting h => exact .inr (.inr (.inr (.inr (.inr (hsound.holds_iff.2 h)))))

/-- A step of a worker accounts for what it changes: what it carries, the mark, and the queue. -/
theorem Owed.worker_step (h : Owed s id) {v w : Worker} (hv : s.workers[i]? = some v)
    (hworkers : t.workers = s.workers.set i w) (hphase : t.phase = s.phase)
    (hwaiting : t.waiting = s.waiting) (c : v.carries = some id → Owed t id)
    (d : (s.dirty id).isSome = true → Owed t id)
    (q : ∀ req ∈ s.queue, req.entityID = id → Owed t id) (a : s.addCh ⊆ t.addCh) :
    Owed t id := by
  cases h with
  | worker u hu h =>
    by_cases heq : u = v
    · rw [heq] at h
      exact c h
    · refine .worker u ?_ h
      rw [hworkers]
      exact mem_set_of_ne hv hu heq
  | dirty h => exact d h
  | queue req hreq h => exact q req hreq h
  | phase h => exact .phase (by rw [hphase]; exact h)
  | addCh item hitem h => exact .addCh item (a hitem) h
  | waiting h => exact .waiting (by rw [hwaiting]; exact h)

theorem Owed.loop_step (h : Owed s id) (hworkers : t.workers = s.workers)
    (hdirty : t.dirty = s.dirty) (q : s.queue ⊆ t.queue) (p : s.phase.entity = some id → Owed t id)
    (a : ∀ item ∈ s.addCh, item.req.entityID = id → Owed t id)
    (w : (s.waiting.due id).isSome = true → Owed t id) : Owed t id := by
  cases h with
  | worker w hw h => exact .worker w (by rw [hworkers]; exact hw) h
  | dirty h => exact .dirty (by rw [hdirty]; exact h)
  | queue req hreq h => exact .queue req (q hreq) h
  | phase h => exact p h
  | addCh item hitem h => exact a item hitem h
  | waiting h => exact w h

theorem mem_setWorker {s : LoopState} {v w : Worker} (hv : s.workers[i]? = some v) :
    w ∈ (s.setWorker i w).workers :=
  List.mem_set (List.getElem?_eq_some_iff.1 hv).1 w

theorem Owed.take (h : Owed s id) {queue : List Request}
    (hv : s.workers[i]? = some .idle) (hqueue : s.queue = req :: queue) :
    Owed ({ s with queue := queue }.setWorker i (.received req)) id := by
  refine h.worker_step hv rfl rfl rfl nofun (.dirty ·) (fun r hr hid ↦ ?_) fun _ h ↦ h
  rw [hqueue] at hr
  obtain rfl | hr := mem_cons.1 hr
  · exact .worker _ (mem_setWorker hv) (congrArg some hid)
  · exact .queue r hr hid

theorem Owed.coalesce (h : Owed s id) (hv : s.workers[i]? = some (.received req)) :
    Owed ({ s with dirty := update s.dirty req.entityID (some req) }.setWorker i .idle) id := by
  have hmark : id = req.entityID ∨ (s.dirty id).isSome = true →
      (update s.dirty req.entityID (some req) id).isSome = true := by
    intro hid
    by_cases heq : id = req.entityID
    · rw [heq, update_self]
      rfl
    · rw [update_of_ne heq]
      exact hid.resolve_left heq
  exact h.worker_step hv rfl rfl rfl (fun hc ↦ .dirty (hmark (.inl (some.inj hc).symm)))
    (fun hd ↦ .dirty (hmark (.inr hd))) (.queue · · ·) fun _ h ↦ h

theorem owed_again {backoff : EntityBackoff} (hv : s.workers[i]? = some (.reconciling req))
    (hw : Dispatched cfg req outcome w) (hasks : cfg.asks outcome = true) :
    Owed ({ s with backoff := backoff }.setWorker i w) req.entityID := by
  cases hw with
  | again => exact .worker _ (mem_setWorker hv) rfl
  | never hlabel => simp [Config.asks, hlabel] at hasks
  | rest hrest => cases hrest.symm.trans hasks

section

variable (h : Owed s id)
include h

theorem Owed.send {v w : Worker} {item : WaitingItem}
    (hv : s.workers[i]? = some v) (hitem : v.carries = some item.req.entityID) :
    Owed ({ s with addCh := s.addCh ++ [item] }.setWorker i w) id :=
  h.worker_step hv rfl rfl rfl (fun hcarries ↦ .addCh item (mem_append_right _ mem_cons_self)
    (some.inj (hitem.symm.trans hcarries))) (.dirty ·) (.queue · · ·) (subset_append_left _ _)

theorem Owed.unlock {label : ResultLabel}
    (hv : s.workers[i]? = some (.finishing req label)) (hw : Completed s req label w)
    (hlabel : id = req.entityID → label ≠ .permanent) :
    Owed ((s.cleared req.entityID).setWorker i w) id := by
  refine h.worker_step hv rfl rfl rfl nofun (fun hdirty ↦ ?_) (.queue · · ·) fun _ h ↦ h
  by_cases heq : id = req.entityID
  · subst heq
    cases hw with
    | dirty => exact .worker _ (mem_setWorker hv) rfl
    | dropped _ _ hpermanent => exact absurd hpermanent (hlabel rfl)
    | clean hclean =>
      rw [hclean] at hdirty
      cases hdirty
  · refine .dirty ?_
    change (update s.dirty req.entityID none id).isSome = true
    rw [update_of_ne heq]
    exact hdirty

theorem Owed.pop (hsound : s.waiting.Sound) {now : Time}
    {waiting : WaitingQueue} (hphase : s.phase = .draining now)
    (hpop : s.waiting.popReady now = some (req, waiting)) :
    Owed { s with waiting := waiting, phase := .sending now req } id := by
  refine h.loop_step rfl rfl (fun _ h ↦ h) (by rw [hphase]; exact nofun) (.addCh · · ·) fun hdue ↦
    ?_
  obtain ⟨-, -, heq, -⟩ := WaitingQueue.popReady_some hsound hpop
  by_cases hid : id = req.entityID
  · exact .phase (by rw [hid]; rfl)
  · refine .waiting ?_
    change (waiting.due id).isSome = true
    rw [heq, update_of_ne hid]
    exact hdue

theorem Owed.release {now : Time} (hphase : s.phase = .sending now req) :
    Owed { s with queue := s.queue ++ [req], phase := .draining now } id := by
  refine h.loop_step rfl rfl (subset_append_left _ _) (fun hsending ↦ ?_) (.addCh · · ·)
    (.waiting ·)
  rw [hphase] at hsending
  exact .queue req (mem_append_right _ mem_cons_self) (some.inj hsending)

theorem Owed.add (hsound : s.waiting.Sound) {wake : Time} {item : WaitingItem}
    {addCh : List WaitingItem} (hphase : s.phase = .selecting wake)
    (hadd : s.addCh = item :: addCh) :
    Owed
      { s with
        addCh := addCh
        waiting := s.waiting.addOrMergeWaiting item
        phase := .draining s.clock } id := by
  have hmerged : id = item.req.entityID ∨ (s.waiting.due id).isSome = true →
      ((s.waiting.addOrMergeWaiting item).due id).isSome = true := by
    intro hid
    rw [(WaitingQueue.addOrMergeWaiting_spec hsound item).2.1]
    by_cases heq : id = item.req.entityID
    · rw [heq, update_self]
      rfl
    · rw [update_of_ne heq]
      exact hid.resolve_left heq
  refine h.loop_step rfl rfl (fun _ h ↦ h) (by rw [hphase]; exact nofun) (fun item' hitem hid ↦ ?_)
    fun hold ↦ .waiting (hmerged (.inr hold))
  rw [hadd] at hitem
  obtain rfl | hitem := mem_cons.1 hitem
  · exact .waiting (hmerged (.inl hid.symm))
  · exact .addCh item' hitem hid

theorem Owed.cancel_other (hsound : s.waiting.Sound) {wake : Time} {id' : String}
    {cancelCh : List String} (hphase : s.phase = .selecting wake) (hne : id ≠ id') :
    Owed
      { s with
        cancelCh := cancelCh
        waiting := s.waiting.cancelPending id'
        phase := .draining s.clock } id := by
  refine h.loop_step rfl rfl (fun _ h ↦ h) (by rw [hphase]; exact nofun) (.addCh · · ·)
    fun hold ↦ .waiting ?_
  change ((s.waiting.cancelPending id').due id).isSome = true
  rw [(WaitingQueue.cancelPending_sound hsound id').2, update_of_ne hne]
  exact hold

end

end Owing

section Runs

variable {cfg : Config} {s t : LoopState} {a : Action} {last : String → Bool}

theorem Worker.Regular.congr {last' : String → Bool} (h : w.Regular last)
    (heq : ∀ id, w.holds = some id → last' id = last id) : w.Regular last' := by
  cases w with
  | cancelling req => exact (heq _ rfl).trans h
  | finishing => exact fun hlabel ↦ (heq _ rfl).trans (h hlabel)
  | _ => exact h

theorem regular_set {workers : List Worker}
    (h : ∀ v ∈ workers, v.Regular last) (hw : w.Regular last) :
    ∀ v ∈ workers.set i w, v.Regular last := by
  intro v hv
  obtain hv | rfl := mem_or_eq_of_mem_set hv
  · exact h v hv
  · exact hw

theorem observe_ret (h : s.workers[i]? = some (.reconciling req)) :
    observe cfg s last (.ret i outcome) = update last req.entityID (cfg.asks outcome) := by
  simp only [observe, h]

theorem Dispatched.regular (h : Dispatched cfg req outcome w) :
    w.Regular (update last req.entityID (cfg.asks outcome)) := by
  cases h with
  | again item _ _ hlabel => exact hlabel
  | never hlabel =>
    change update last _ _ _ = false
    rw [update_self, Config.asks, hlabel]
  | rest =>
    intro hlabel
    cases hlabel

theorem Kept.ret (h : Kept (s, last))
    {backoff : EntityBackoff} (hv : s.workers[i]? = some (.reconciling req))
    (hw : Dispatched cfg req outcome w)
    (hconsistent : Consistent ({ s with backoff := backoff }.setWorker i w)) :
    Kept ({ s with backoff := backoff }.setWorker i w,
      update last req.entityID (cfg.asks outcome)) := by
  refine ⟨hconsistent, ?_, fun id hid ↦ ?_⟩
  · intro v hmem
    obtain ⟨j, hj⟩ := mem_iff_getElem?.1 hmem
    obtain ⟨rfl, rfl⟩ | ⟨hne, hj⟩ := getElem?_set_cases hj
    · exact hw.regular
    · -- nobody else has locked the entity
      refine (h.regular v (mem_of_getElem? hj)).congr fun id hid ↦ update_of_ne ?_ _ _
      rintro rfl
      exact hne (h.consistent.exclusive.unique i j _ v _ hv hj rfl hid)
  · change update last req.entityID (cfg.asks outcome) id = true at hid
    by_cases heq : id = req.entityID
    · subst heq
      rw [update_self] at hid
      exact owed_again hv hw hid
    · rw [update_of_ne heq] at hid
      exact (h.owed id hid).worker_step hv rfl rfl rfl (fun hc ↦ absurd (some.inj hc).symm heq)
        (.dirty ·) (.queue · · ·) fun _ h ↦ h

theorem Kept.unlock (h : Kept (s, last)) {label : ResultLabel}
    (hv : s.workers[i]? = some (.finishing req label)) (hw : Completed s req label w)
    (hconsistent : Consistent ((s.cleared req.entityID).setWorker i w)) :
    Kept ((s.cleared req.entityID).setWorker i w, last) := by
  have hregular : label = .permanent → last req.entityID = false :=
    h.regular _ (mem_of_getElem? hv)
  refine ⟨hconsistent, regular_set h.regular ?_, fun id hid ↦ ?_⟩
  · cases hw with
    | dirty | dropped | clean => trivial
  · refine (h.owed id hid).unlock hv hw fun heq hlabel ↦ ?_
    rw [heq] at hid
    cases (hregular hlabel).symm.trans hid

theorem Kept.worker (h : Kept (s, last)) (hconsistent : Consistent t)
    (hworkers : t.workers = s.workers.set i w) (hw : w.Regular last)
    (howed : ∀ id, Owed s id → Owed t id) : Kept (t, last) := by
  refine ⟨hconsistent, ?_, fun id hid ↦ howed id (h.owed id hid)⟩
  rw [hworkers]
  exact regular_set h.regular hw

theorem Kept.step (h : Kept (s, last)) (htimely : Timely (s, last) a) (hstep : Stepped cfg s a t) :
    Kept (t, observe cfg s last a) := by
  have hconsistent := h.consistent.step hstep
  cases hstep with
  | ret _ _ _ _ _ hv hw =>
    rw [observe_ret hv]
    exact h.ret hv hw hconsistent
  | unlock _ _ _ _ hv hw => exact h.unlock hv hw hconsistent
  | coalesce i req hv => exact h.worker hconsistent rfl trivial fun id ho ↦ ho.coalesce hv
  | take _ _ _ hv hqueue =>
    exact h.worker hconsistent rfl trivial fun id ho ↦ ho.take hv hqueue
  | begin i req hv =>
    exact h.worker hconsistent rfl trivial fun id ho ↦ ho.worker_step hv rfl rfl rfl
      (fun hc ↦ .worker _ (mem_setWorker hv) hc) (.dirty ·) (.queue · · ·) fun _ h ↦ h
  | sendAdd i req label item hv =>
    have hlabel : label ≠ .permanent := h.regular _ (mem_of_getElem? hv)
    have hitem : item.req.entityID = req.entityID := h.consistent.own _ (mem_of_getElem? hv)
    exact h.worker hconsistent rfl (fun hpermanent ↦ absurd hpermanent hlabel)
      fun id ho ↦ ho.send hv (congrArg some hitem.symm)
  | sendCancel i req hv =>
    have hlast : last req.entityID = false := h.regular _ (mem_of_getElem? hv)
    exact h.worker hconsistent rfl (fun _ ↦ hlast)
      fun id ho ↦ ho.worker_step hv rfl rfl rfl nofun (.dirty ·) (.queue · · ·) fun _ h ↦ h
  | sendDirty i req item hv =>
    have hitem : item.req.entityID = req.entityID := h.consistent.own _ (mem_of_getElem? hv)
    exact h.worker hconsistent rfl trivial fun id ho ↦ ho.send hv (congrArg some hitem.symm)
  | pop _ _ _ hphase hpop =>
    exact ⟨hconsistent, h.regular, fun id hid ↦ (h.owed id hid).pop h.consistent.sound hphase hpop⟩
  | release now req hphase =>
    exact ⟨hconsistent, h.regular, fun id hid ↦ (h.owed id hid).release hphase⟩
  | add _ _ _ hphase hadd =>
    exact ⟨hconsistent, h.regular, fun id hid ↦ (h.owed id hid).add h.consistent.sound hphase hadd⟩
  | cancel _ id _ hphase hcancel =>
    refine ⟨hconsistent, h.regular, fun id' hid ↦ ?_⟩
    have hlast : last id = false := htimely rfl id (by simp [hcancel])
    refine (h.owed id' hid).cancel_other h.consistent.sound hphase ?_
    rintro rfl
    cases hlast.symm.trans hid
  | enqueue =>
    exact ⟨hconsistent, h.regular, fun id hid ↦ (h.owed id hid).loop_step rfl rfl
      (subset_append_left _ _) (.phase ·) (.addCh · · ·) (.waiting ·)⟩
  | sleep now hphase | timer wake hphase =>
    exact ⟨hconsistent, h.regular, fun id hid ↦ (h.owed id hid).loop_step rfl rfl (fun _ h ↦ h)
      (by rw [hphase]; exact nofun) (.addCh · · ·) (.waiting ·)⟩
  | tick d | feed req | close =>
    exact ⟨hconsistent, h.regular, fun id hid ↦ (h.owed id hid).loop_step rfl rfl (fun _ h ↦ h)
      (.phase ·) (.addCh · · ·) (.waiting ·)⟩

theorem kept_start (n : ℕ) (now : Time) (backoff : EntityBackoff) :
    Kept (LoopState.start n now backoff, fun _ ↦ false) where
  consistent := consistent_start n now backoff
  regular w hw := by
    obtain rfl := (mem_replicate.1 hw).2
    trivial
  owed _ h := by cases h

/-- In a run in which no cancellation is received after a later outcome asked for another run, every
entity whose last outcome asks for another run is on its way to it. -/
theorem requeue_kept {n : ℕ} {now : Time} {backoff : EntityBackoff} {as : List Action}
    (hrun : exec (observed cfg) (LoopState.start n now backoff, fun _ ↦ false) as = some (s, last))
    (htimely : Along (observed cfg) (LoopState.start n now backoff, fun _ ↦ false) as Timely) :
    ∀ id, last id = true → Present s id := by
  have hkept : Kept (s, last) := by
    refine exec_invariant_along Kept (fun p a q hp hC hobserved ↦ ?_) as _ _
      (kept_start n now backoff) htimely hrun
    obtain ⟨t, hstep, rfl⟩ := map_eq_some_iff.1 hobserved
    exact hp.step hC (step_cases hstep)
  intro id hid
  exact (hkept.owed id hid).present hkept.consistent.sound

def deadThenAlive : List Action :=
  oneRound "x" (.error .permanent) ++ oneRound "x" (.ok 0)

theorem requeue_kept_in_order :
    ∃ s last, exec (observed {}) (LoopState.start 1 0 sampleBackoff, fun _ ↦ false)
        (deadThenAlive ++ [.sleep, .add]) = some (s, last) ∧ last "x" = true ∧ Present s "x" := by
  have hrun : (exec (observed {}) (LoopState.start 1 0 sampleBackoff, fun _ ↦ false)
      (deadThenAlive ++ [.sleep, .add])).map (fun p ↦ p.2 "x") = some true := by decide +kernel
  obtain ⟨⟨s, last⟩, hrun, hlast⟩ := map_eq_some_iff.1 hrun
  refine ⟨s, last, hrun, hlast, requeue_kept hrun (along_of_mem fun a ha u hcancel ↦ ?_) "x" hlast⟩
  rw [hcancel] at ha
  exact absurd ha (by decide)

/-- The cancellation of the permanent outcome is received after the item of the success, and takes
it out of the heap. -/
theorem requeue_lost :
    ¬∀ (as : List Action) (s : LoopState) (last : String → Bool),
      exec (observed {}) (LoopState.start 1 0 sampleBackoff, fun _ ↦ false) as = some (s, last) →
        ∀ id, last id = true → Present s id := by
  intro h
  have hrun : (exec (observed {}) (LoopState.start 1 0 sampleBackoff, fun _ ↦ false)
      (deadThenAlive ++ [.sleep, .add, .sleep, .cancel])).map
        (fun p ↦ (p.2 "x", decide (Present p.1 "x"))) = some (true, false) := by decide +kernel
  obtain ⟨⟨s, last⟩, hrun, heq⟩ := map_eq_some_iff.1 hrun
  obtain ⟨hlast, hgone⟩ := Prod.mk.inj heq
  exact of_decide_eq_false hgone (h _ s last hrun "x" hlast)

end Runs

end GoCell.Reconcile
