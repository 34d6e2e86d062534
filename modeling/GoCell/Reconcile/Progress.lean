import GoCell.Reconcile.Exclusion

namespace GoCell.Reconcile

open Foundation Kernel List Option Function LoopState

theorem WaitingQueue.length_cancelPending {w : WaitingQueue} (h : w.Sound) (id : String) :
    (w.cancelPending id).heap.length ≤ w.heap.length := by
  obtain ⟨-, hsame⟩ | ⟨v, heq, hlen, -⟩ := WaitingQueue.cancelPending_cases h id
  · rw [hsame]
  · rw [heq, ← hlen]
    exact Nat.le_succ _

section Load

def Worker.load (dirty : String → Option Request) : Worker → ℕ
  | .idle => 0
  | .received _ | .requeueing _ _ => 1
  | .reconciling req | .adding req _ _ | .cancelling req => 1 + (dirty req.entityID).toList.length
  | .finishing req _ => (dirty req.entityID).toList.length

def workersLoad (dirty : String → Option Request) (workers : List Worker) : ℕ :=
  (workers.map (Worker.load dirty)).sum

def Feeder.load : Feeder → ℕ
  | .sending _ => 1
  | .idle | .stopped => 0

def Phase.load : Phase → ℕ
  | .sending _ _ => 1
  | .draining _ | .selecting _ => 0

def LoopState.load (s : LoopState) : ℕ :=
  s.queue.length + s.feeder.load + s.addCh.length + s.cancelCh.length + s.waiting.heap.length +
    s.phase.load + workersLoad s.dirty s.workers

variable (dirty : String → Option Request) {workers : List Worker} {i : ℕ} {v : Worker}

theorem workersLoad_set (w : Worker) (hv : workers[i]? = some v) :
    workersLoad dirty (workers.set i w) + v.load dirty = workersLoad dirty workers +
      w.load dirty := by
  induction workers generalizing i with
  | nil => cases hv
  | cons u us ih =>
    cases i with
    | zero =>
      cases hv
      simp only [workersLoad, set_cons_zero, map_cons, sum_cons]
      omega
    | succ i =>
      have hrest := ih (i := i) hv
      simp only [workersLoad, set_cons_succ, map_cons, sum_cons] at hrest ⊢
      omega

theorem Worker.load_dirty (id : String) (req : Request) (w : Worker) :
    w.load (update dirty id (some req)) ≤ w.load dirty + if w.holds = some id then 1 else 0 := by
  have hone : ∀ r : Request, (update dirty id (some req) r.entityID).toList.length ≤
      (dirty r.entityID).toList.length + if some r.entityID = some id then 1 else 0 := by
    intro r
    by_cases hid : r.entityID = id
    · simp [hid]
    · simp [hid]
  cases w with
  | idle => exact Nat.zero_le _
  | received | requeueing => exact Nat.le_add_right _ _
  | reconciling r | adding r label item | cancelling r =>
    exact (Nat.add_le_add_left (hone r) 1).trans (Nat.add_assoc 1 _ _).ge
  | finishing r => exact hone r

theorem workersLoad_dirty (workers : List Worker) (id : String) (req : Request) :
    workersLoad (update dirty id (some req)) workers ≤
      workersLoad dirty workers + workers.countP (fun w ↦ w.holds = some id) := by
  induction workers with
  | nil => exact le_rfl
  | cons u us ih =>
    have hu := u.load_dirty dirty id req
    simp only [workersLoad, map_cons, sum_cons, countP_cons, decide_eq_true_eq]
      at ih ⊢
    omega

theorem workersLoad_clean (workers : List Worker) (id : String) :
    workersLoad (update dirty id none) workers ≤ workersLoad dirty workers := by
  have hone : ∀ r : Request, (update dirty id none r.entityID).toList.length ≤
      (dirty r.entityID).toList.length := by
    intro r
    by_cases hid : r.entityID = id
    · simp [hid]
    · simp [hid]
  induction workers with
  | nil => exact le_rfl
  | cons u us ih =>
    refine Nat.add_le_add ?_ ih
    cases u with
    | idle | received r | requeueing r item => exact le_rfl
    | reconciling r | adding r label item | cancelling r => exact Nat.add_le_add_left (hone r) 1
    | finishing r => exact hone r

theorem Exclusive.countP_le_one {processing : String → Bool} (h : Exclusive workers processing)
    (id : String) : workers.countP (fun w ↦ w.holds = some id) ≤ 1 := by
  have hunique := h.unique
  clear h
  induction workers with
  | nil => exact Nat.zero_le _
  | cons u us ih =>
    by_cases hu : u.holds = some id
    · have hnone : us.countP (fun w ↦ w.holds = some id) = 0 := by
        refine countP_eq_zero.2 fun w hw hid ↦ ?_
        obtain ⟨j, hj⟩ := mem_iff_getElem?.1 hw
        cases hunique 0 (j + 1) u w id rfl hj hu (of_decide_eq_true hid)
      rw [countP_cons, hnone]
      split <;> omega
    · have hrest := ih fun i j v w id' hv hw hvid hwid ↦
        Nat.succ.inj (hunique (i + 1) (j + 1) v w id' hv hw hvid hwid)
      simpa [countP_cons, hu] using hrest

end Load

section Steps

variable {cfg : Config} {s t : LoopState} {a : Action}

def Action.load : Action → ℕ
  | .feed _ => 1
  | _ => 0

def Marked (s : LoopState) : Prop := ∀ id, s.dirty id ≠ none → s.processing id = true

theorem Marked.step (h : Marked s) (hstep : Stepped cfg s a t) : Marked t := by
  cases hstep with
  | coalesce i req _ hbusy =>
    intro id hid
    by_cases heq : id = req.entityID
    · rw [heq]
      exact hbusy
    · change update s.dirty req.entityID (some req) id ≠ none at hid
      rw [update_of_ne heq] at hid
      exact h id hid
  | begin i req _ _ =>
    intro id hid
    change update s.processing req.entityID true id = true
    by_cases heq : id = req.entityID
    · rw [heq, update_self]
    · rw [update_of_ne heq]
      exact h id hid
  | unlock _ req =>
    intro id hid
    change update s.dirty req.entityID none id ≠ none at hid
    change update s.processing req.entityID false id = true
    by_cases heq : id = req.entityID
    · rw [heq, update_self] at hid
      exact absurd rfl hid
    · rw [update_of_ne heq] at hid ⊢
      exact h id hid
  | _ => exact h

def Awake (s : LoopState) : Prop :=
  ∀ wake, s.phase = .selecting wake → ∀ id at', s.waiting.due id = some at' →
    wake ≤ at' ∨ wake ≤ s.clock

theorem WaitingQueue.Sound.wake_le {w : WaitingQueue} (h : w.Sound) {id : String} {now at' : Time}
    (hdue : w.due id = some at') :
    now + w.nextWaitingDelay now ≤ at' ∨ now + w.nextWaitingDelay now ≤ now := by
  rw [nextWaitingDelay, if_neg (h.exact.heap_ne_nil hdue)]
  obtain hlate | hready := le_total 0 (w.readyAt 0 - now)
  · rw [max_eq_right hlate, add_sub_cancel]
    exact .inl (h.root_le hdue)
  · rw [max_eq_left hready, add_zero]
    exact .inr le_rfl

theorem Awake.step (h : Awake s) (hs : Consistent s) (hstep : Stepped cfg s a t) : Awake t := by
  cases hstep with
  | tick d =>
    intro wake hphase id at' hdue
    obtain hwake | hwake := h wake hphase id at' hdue
    · exact .inl hwake
    · exact .inr (hwake.trans (Int.le_add_of_nonneg_right (Int.natCast_nonneg d)))
  | pop | release | add | cancel | timer => exact nofun
  | sleep =>
    intro wake hphase id at' hdue
    obtain rfl := Phase.selecting.inj hphase
    exact hs.sound.wake_le hdue
  | _ => exact h

theorem Marked.dirty_eq_none (h : Marked s) {id : String} (hfree : s.processing id = false) :
    s.dirty id = none := by
  by_contra hdirty
  exact absurd (hfree.symm.trans (h id hdirty)) Bool.false_ne_true

theorem Dispatched.load_le {req : Request} {outcome : Outcome} {w : Worker}
    (h : Dispatched cfg req outcome w) (dirty : String → Option Request) :
    w.load dirty ≤ Worker.load dirty (.reconciling req) := by
  cases h with
  | again | never => exact le_rfl
  | rest => exact Nat.le_add_left _ _

theorem Completed.load_le {req : Request} {label : ResultLabel} {w : Worker}
    (h : Completed s req label w) :
    w.load s.dirty ≤ Worker.load s.dirty (.finishing req label) := by
  cases h with
  | dirty _ _ hdirty => simp [Worker.load, hdirty]
  | dropped | clean => exact Nat.zero_le _

theorem load_setWorker {i n : ℕ} {v w : Worker} (hv : s.workers[i]? = some v)
    (h : s.load + w.load s.dirty ≤ n + v.load s.dirty) : (s.setWorker i w).load ≤ n := by
  have hset := workersLoad_set s.dirty w hv
  simp only [load, setWorker] at h ⊢
  omega

theorem load_step (hs : Consistent s) (hmarked : Marked s) (hstep : Stepped cfg s a t) :
    t.load ≤ s.load + a.load := by
  cases hstep with
  | tick => exact le_rfl
  | feed _ h | close h | enqueue _ h | release _ _ h | sleep _ h | timer _ h =>
    simp [load, Action.load, Feeder.load, Phase.load, h]
    try omega
  | take i req queue hv hqueue =>
    refine load_setWorker hv ?_
    simp only [load, Worker.load, hqueue, length_cons]
    omega
  | coalesce i req hv _ =>
    refine load_setWorker hv ?_
    have hdirty := workersLoad_dirty s.dirty s.workers req.entityID req
    have hone := hs.exclusive.countP_le_one req.entityID
    simp only [load, Worker.load]
    omega
  | begin i req hv hfree =>
    refine load_setWorker hv ?_
    simp [load, Worker.load, hmarked.dirty_eq_none hfree]
  | ret _ _ _ _ w hv hw => exact load_setWorker hv (Nat.add_le_add_left (hw.load_le s.dirty) _)
  | sendAdd _ _ _ _ hv | sendCancel _ _ hv | sendDirty _ _ _ hv =>
    refine load_setWorker hv ?_
    simp only [load, Worker.load, length_append, length_singleton]
    omega
  | unlock i req label w hv hw =>
    -- The dirty request goes from the entity's mark into the hands of the worker.
    have hset := workersLoad_set s.dirty w hv
    have hclean := workersLoad_clean s.dirty (s.workers.set i w) req.entityID
    have hle := hw.load_le
    simp only [load, setWorker, cleared, Action.load]
    omega
  | pop _ _ _ hphase hpop =>
    have hlen := (WaitingQueue.popReady_some hs.sound hpop).2.2.2
    simp only [load, Action.load, Phase.load, hphase]
    omega
  | add _ item _ hphase hadd =>
    have hlen := (WaitingQueue.addOrMergeWaiting_spec hs.sound item).2.2
    simp only [load, Action.load, Phase.load, hphase, hadd, length_cons]
    omega
  | cancel _ id _ hphase hcancel =>
    have hlen := WaitingQueue.length_cancelPending hs.sound id
    simp only [load, Action.load, Phase.load, hphase, hcancel, length_cons]
    omega

end Steps

section Progress

variable {cfg : Config} {s t : LoopState} {a : Action}

def Action.internal : Action → Bool
  | .tick _ | .feed _ | .close => false
  | _ => true

def HasWork (s : LoopState) : Prop :=
  s.queue ≠ [] ∨ (∃ now req, s.phase = .sending now req) ∨
    ∃ id at', s.waiting.due id = some at' ∧ at' ≤ s.clock

def Live (cfg : Config) (s : LoopState) : Prop :=
  ∃ a t, a.internal = true ∧ s.step cfg a = some t

def Worker.Blocked (s : LoopState) : Worker → Prop
  | .idle => s.queue = []
  | .adding _ _ _ | .requeueing _ _ => addChBuffer ≤ s.addCh.length
  | .cancelling _ => addChBuffer ≤ s.cancelCh.length
  | .received _ | .reconciling _ | .finishing _ _ => False

theorem not_live_iff : ¬Live cfg s ↔ ∀ a, a.internal = true → s.step cfg a = none := by
  constructor
  · intro h a ha
    by_contra hne
    obtain ⟨t, ht⟩ := ne_none_iff_exists'.1 hne
    exact h ⟨a, t, ha, ht⟩
  · rintro h ⟨a, t, ha, ht⟩
    cases (h a ha).symm.trans ht

theorem blocked_of_stuck (h : ¬Live cfg s) {w : Worker} (hw : w ∈ s.workers) : w.Blocked s := by
  have hstuck := not_live_iff.1 h
  obtain ⟨i, hi⟩ := mem_iff_getElem?.1 hw
  cases w with
  | idle =>
    have htake := hstuck (.take i) rfl
    change s.queue = []
    cases hqueue : s.queue with
    | nil => rfl
    | cons => simp [step, hi, hqueue] at htake
  | received req =>
    have hlock := hstuck (.lock i) rfl
    simp only [step, hi] at hlock
    split at hlock
    · cases hlock
    · cases hlock
  | reconciling req =>
    have hret := hstuck (.ret i (.ok 0)) rfl
    simp [step, hi] at hret
  | finishing =>
    have hunlock := hstuck (.unlock i) rfl
    simp [step, hi] at hunlock
  | adding req label item | requeueing req item | cancelling req =>
    have hsend := hstuck (.send i) rfl
    simpa [step, hi, Worker.Blocked] using hsend

theorem phase_of_stuck (h : ¬Live cfg s) :
    (∃ now req, s.phase = .sending now req ∧ queueBuffer ≤ s.queue.length) ∨
      ∃ wake, s.phase = .selecting wake ∧ s.addCh = [] ∧ s.cancelCh = [] ∧ s.clock < wake := by
  have hstuck := not_live_iff.1 h
  cases hphase : s.phase with
  | draining now =>
    have hpop := hstuck .pop rfl
    have hsleep := hstuck .sleep rfl
    simp only [step, hphase, map_eq_none_iff] at hpop
    simp [step, hphase, hpop] at hsleep
  | sending now req =>
    have hrelease := hstuck .release rfl
    exact .inl ⟨now, req, rfl, by simpa [step, hphase] using hrelease⟩
  | selecting wake =>
    have hadd := hstuck .add rfl
    have hcancel := hstuck .cancel rfl
    have htimer := hstuck .timer rfl
    refine .inr ⟨wake, rfl, ?_, ?_, ?_⟩
    · cases haddCh : s.addCh with
      | nil => rfl
      | cons => simp [step, hphase, haddCh] at hadd
    · cases hcancelCh : s.cancelCh with
      | nil => rfl
      | cons => simp [step, hphase, hcancelCh] at hcancel
    · simpa [step, hphase] using htimer

theorem length_le_workersLoad {dirty : String → Option Request} {workers : List Worker}
    (h : ∀ w ∈ workers, 1 ≤ w.load dirty) : workers.length ≤ workersLoad dirty workers := by
  induction workers with
  | nil => exact le_rfl
  | cons w ws ih =>
    have hhead := h w mem_cons_self
    have hrest := ih fun v hv ↦ h v (mem_cons_of_mem _ hv)
    simp only [workersLoad, map_cons, sum_cons, length_cons] at hrest ⊢
    omega

/-- A stuck loop with work holds as many requests as its channels, its heap and its workers have
room for. -/
theorem load_of_stuck (hawake : Awake s) (hworkers : s.workers ≠ []) (hwork : HasWork s)
    (h : ¬Live cfg s) : queueBuffer + addChBuffer + 1 + s.workers.length ≤ s.load := by
  have hblocked : ∀ w ∈ s.workers, w.Blocked s := fun w hw ↦ blocked_of_stuck h hw
  obtain ⟨w, hw⟩ := exists_mem_of_ne_nil _ hworkers
  obtain ⟨now, req, hphase, hfull⟩ | ⟨wake, hphase, haddCh, hcancelCh, hwake⟩ := phase_of_stuck h
  · have hqueue : s.queue ≠ [] := by
      intro hnil
      rw [hnil] at hfull
      exact absurd hfull (by decide)
    have hbusy : s.workers.length ≤ workersLoad s.dirty s.workers := by
      refine length_le_workersLoad fun v hv ↦ ?_
      have hv := hblocked v hv
      cases v with
      | idle => exact absurd hv hqueue
      | received r | reconciling r | finishing r label => exact hv.elim
      | adding r label item | cancelling r => exact Nat.le_add_right _ _
      | requeueing => exact le_rfl
    have hchannel : addChBuffer ≤ s.addCh.length + s.cancelCh.length := by
      have hv := hblocked w hw
      cases w with
      | idle => exact absurd hv hqueue
      | received r | reconciling r | finishing r label => exact hv.elim
      | adding r label item | requeueing r item => exact hv.trans (Nat.le_add_right _ _)
      | cancelling r => exact hv.trans (Nat.le_add_left _ _)
    simp only [load, hphase, Phase.load]
    omega
  · -- Nobody can be blocked on an empty channel, so every worker is idle and the queue empty.
    exfalso
    have hqueue : s.queue = [] := by
      have hv := hblocked w hw
      cases w with
      | idle => exact hv
      | received r | reconciling r | finishing r label => exact hv.elim
      | adding r label item | requeueing r item =>
        rw [Worker.Blocked, haddCh] at hv
        exact absurd hv (by decide)
      | cancelling r =>
        rw [Worker.Blocked, hcancelCh] at hv
        exact absurd hv (by decide)
    obtain hne | ⟨now, req, hsending⟩ | ⟨id, at', hdue, hready⟩ := hwork
    · exact hne hqueue
    · cases hsending.symm.trans hphase
    · obtain hle | hle := hawake wake hphase id at' hdue
      · exact absurd (hwake.trans_le (hle.trans hready)) (lt_irrefl _)
      · exact absurd (hwake.trans_le hle) (lt_irrefl _)

theorem length_workers (hstep : Stepped cfg s a t) : t.workers.length = s.workers.length := by
  cases hstep with
  | take | coalesce | begin | ret | sendAdd | sendCancel | sendDirty | unlock =>
    exact length_set
  | _ => rfl

structure Uncrowded (n : ℕ) (s : LoopState) : Prop where
  consistent : Consistent s
  marked : Marked s
  awake : Awake s
  workers : s.workers.length = n
  load : s.load ≤ queueBuffer + addChBuffer + n

def Admitted (n : ℕ) (s : LoopState) (a : Action) : Prop :=
  ∀ req, a = .feed req → s.load < queueBuffer + addChBuffer + n

theorem Uncrowded.step {n : ℕ} (h : Uncrowded n s) (hroom : Admitted n s a)
    (hstep : Stepped cfg s a t) : Uncrowded n t where
  consistent := h.consistent.step hstep
  marked := h.marked.step hstep
  awake := h.awake.step h.consistent hstep
  workers := (length_workers hstep).trans h.workers
  load := by
    have hle := load_step h.consistent h.marked hstep
    cases a with
    | feed req =>
      have hlt := hroom req rfl
      simp only [Action.load] at hle
      omega
    | _ => exact hle.trans h.load

theorem uncrowded_start (n : ℕ) (now : Time) (backoff : EntityBackoff) :
    Uncrowded n (start n now backoff) where
  consistent := consistent_start n now backoff
  marked _ h := absurd rfl h
  awake := nofun
  workers := length_replicate
  load := by
    have hnone : workersLoad (fun _ ↦ none) (replicate n .idle) = 0 := by
      simp [workersLoad, Worker.load]
    have hload : (start n now backoff).load = 0 := by
      simp only [load, start, Feeder.load, Phase.load, hnone, length_nil]
    rw [hload]
    exact Nat.zero_le _

/-- The loop does not block as long as the source delivers only while there is room for one more
request in the queue, a channel to the waiting loop and the hands of the workers. -/
theorem loop_live {n : ℕ} {now : Time} {backoff : EntityBackoff} {as : List Action} (hn : 0 < n)
    (hrun : exec (LoopState.step cfg) (LoopState.start n now backoff) as = some s)
    (hroom : Along (LoopState.step cfg) (LoopState.start n now backoff) as (Admitted n))
    (hwork : HasWork s) : Live cfg s := by
  have h : Uncrowded n s :=
    exec_invariant_along (Uncrowded n) (fun _ _ _ hu hC hstep ↦
      hu.step hC (step_cases hstep)) as _ _ (uncrowded_start n now backoff) hroom hrun
  have hworkers : s.workers ≠ [] := by
    rw [← length_pos_iff, h.workers]
    exact hn
  by_contra hstuck
  have hload := load_of_stuck h.awake hworkers hwork hstuck
  have hmost := h.load
  have hcount := h.workers
  omega

theorem loop_live_queued :
    ∃ s, exec (LoopState.step {}) (LoopState.start 1 0 sampleBackoff) [.feed ⟨"x"⟩, .enqueue] =
      some s ∧ HasWork s ∧ Live {} s := by
  have hrun : ((exec (LoopState.step {}) (LoopState.start 1 0 sampleBackoff)
      [.feed ⟨"x"⟩, .enqueue]).map fun s ↦ s.queue) = some [⟨"x"⟩] := by decide +kernel
  obtain ⟨s, hs, hqueue⟩ := map_eq_some_iff.1 hrun
  have hwork : HasWork s := .inl (by rw [hqueue]; exact cons_ne_nil _ _)
  have hroom : Along (LoopState.step {}) (LoopState.start 1 0 sampleBackoff)
      [.feed ⟨"x"⟩, .enqueue] fun s a ↦ a = .feed ⟨"x"⟩ → s.load < 1281 := by decide +kernel
  refine ⟨s, hs, hwork, loop_live Nat.one_pos hs (fun pre a post u heq hpre req ha ↦ ?_) hwork⟩
  refine hroom pre a post u heq hpre ?_
  have hmem : a ∈ [Action.feed ⟨"x"⟩, .enqueue] := by
    rw [heq]
    exact mem_append_right _ mem_cons_self
  rw [ha] at hmem ⊢
  simpa using hmem

end Progress

section Crowded

variable {s : LoopState}

structure AtRest (s : LoopState) : Prop where
  workers : s.workers = [.idle]
  queue : s.queue = []
  feeder : s.feeder = .idle
  processing : s.processing = fun _ ↦ false
  dirty : s.dirty = fun _ ↦ none

structure Requeued (s t : LoopState) (id : String) : Prop where
  rest : AtRest t
  addCh : t.addCh = s.addCh ++ [s.itemAfter ⟨id⟩ 30000000000]
  clock : t.clock = s.clock
  waiting : t.waiting = s.waiting
  phase : t.phase = s.phase

theorem AtRest.reconciled (h : AtRest s) (id : String) :
    ∃ backoff, exec (step {}) s
        [.feed ⟨id⟩, .enqueue, .take 0, .lock 0, .ret 0 (.ok 0)] =
      some
        { s with
          workers := [.adding ⟨id⟩ .success (s.itemAfter ⟨id⟩ 30000000000)]
          processing := update s.processing id true
          backoff := backoff } := by
  obtain ⟨hworkers, hqueue, hfeeder, hprocessing, hdirty⟩ := h
  cases s
  subst hworkers hqueue hfeeder hprocessing hdirty
  exact ⟨_, rfl⟩

theorem send_of_adding {cfg : Config} {req : Request} {label : ResultLabel} {item : WaitingItem}
    (hworkers : s.workers = [.adding req label item]) (hroom : s.addCh.length < addChBuffer) :
    s.step cfg (.send 0) =
      some { s with addCh := s.addCh ++ [item], workers := [.finishing req label] } := by
  simp [step, setWorker, hworkers, hroom]

theorem AtRest.round (h : AtRest s) (hroom : s.addCh.length < addChBuffer) (id : String) :
    ∃ t, exec (step {}) s (oneRound id (.ok 0)) = some t ∧ Requeued s t id := by
  obtain ⟨backoff, hrun⟩ := h.reconciled id
  obtain ⟨hworkers, hqueue, hfeeder, hprocessing, hdirty⟩ := h
  cases s
  subst hworkers hqueue hfeeder hprocessing hdirty
  refine ⟨_, exec_append.2 ⟨_, hrun, exec_cons.2 ⟨_, send_of_adding rfl hroom, rfl⟩⟩, ?_⟩
  refine ⟨⟨rfl, rfl, rfl, ?_, ?_⟩, rfl, rfl, rfl, rfl⟩
  · exact (update_idem _ _ _).trans (update_eq_self id _)
  · exact update_eq_self id _

def rounds (ids : List String) : List Action := ids.flatMap fun id ↦ oneRound id (.ok 0)

def feeds (ids : List String) : List Action := ids.flatMap fun id ↦ [.feed ⟨id⟩, .enqueue]

theorem AtRest.rounds (h : AtRest s) {ids : List String}
    (hroom : s.addCh.length + ids.length ≤ addChBuffer) :
    ∃ t, exec (step {}) s (rounds ids) = some t ∧ AtRest t ∧
      t.addCh.length = s.addCh.length + ids.length ∧ t.waiting = s.waiting ∧ t.phase = s.phase := by
  induction ids generalizing s with
  | nil => exact ⟨s, rfl, h, rfl, rfl, rfl⟩
  | cons id ids ih =>
    rw [length_cons] at hroom
    obtain ⟨u, hu, hrequeued⟩ := h.round (by omega) id
    have hlen : u.addCh.length = s.addCh.length + 1 := by
      rw [hrequeued.addCh, length_append, length_singleton]
    obtain ⟨t, ht, hrest, haddCh, hwaiting, hphase⟩ := ih hrequeued.rest (by omega)
    refine ⟨t, exec_append.2 ⟨u, hu, ht⟩, hrest, ?_, hwaiting.trans hrequeued.waiting,
      hphase.trans hrequeued.phase⟩
    rw [haddCh, length_cons]
    omega

theorem exec_feeds (hfeeder : s.feeder = .idle) (ids : List String)
    (hroom : s.queue.length + ids.length ≤ queueBuffer) :
    exec (step {}) s (feeds ids) =
      some { s with queue := s.queue ++ ids.map Request.mk } := by
  induction ids generalizing s with
  | nil =>
    rw [map_nil, append_nil]
    rfl
  | cons id ids ih =>
    rw [length_cons] at hroom
    have hone : exec (step {}) s [.feed ⟨id⟩, .enqueue] =
        some { s with queue := s.queue ++ [⟨id⟩] } := by
      have hlt : s.queue.length < queueBuffer := by omega
      simp [exec, step, hfeeder, hlt]
    have hlen : (s.queue ++ [Request.mk id]).length + ids.length ≤ queueBuffer := by
      rw [length_append, length_singleton]
      omega
    have hrest := ih (s := { s with queue := s.queue ++ [⟨id⟩] }) hfeeder hlen
    rw [append_assoc] at hrest
    exact exec_append.2 ⟨_, hone, hrest⟩

def readied : List Action :=
  oneRound "0" (.ok 0) ++ [.sleep, .add, .sleep, .tick 30000000000, .timer]

def oneWaiting : WaitingQueue :=
  ({} : WaitingQueue).addOrMergeWaiting { req := ⟨"0"⟩, readyAt := 30000000000 }

theorem exec_readied :
    ∃ s, exec (step {}) (start 1 0 sampleBackoff) readied = some s ∧
      AtRest s ∧ s.addCh = [] ∧ s.phase = .draining 30000000000 ∧ s.waiting = oneWaiting := by
  have hstart : AtRest (start 1 0 sampleBackoff) := ⟨rfl, rfl, rfl, rfl, rfl⟩
  obtain ⟨u, hu, hrequeued⟩ := hstart.round (by decide) "0"
  obtain ⟨⟨hworkers, hqueue, hfeeder, hprocessing, hdirty⟩, haddCh, hclock, hwaiting, hphase⟩ :=
    hrequeued
  have hempty : ({} : WaitingQueue).popReady 0 = none := rfl
  have hearly : oneWaiting.popReady 0 = none :=
    isNone_iff_eq_none.1 (by decide +kernel)
  have hdelay : oneWaiting.nextWaitingDelay 0 = 30000000000 := by decide +kernel
  have hrun : exec (step {}) u [.sleep, .add, .sleep, .tick 30000000000, .timer] = some
        { u with
          clock := 30000000000
          addCh := []
          waiting := oneWaiting
          phase := .draining 30000000000 } := by
    have hphase : u.phase = .draining 0 := hphase
    have hclock : u.clock = 0 := hclock
    have hwaiting : u.waiting = {} := hwaiting
    have haddCh : u.addCh = [{ req := ⟨"0"⟩, readyAt := 30000000000 }] := haddCh
    have hadded : ({} : WaitingQueue).addOrMergeWaiting
        { req := ⟨"0"⟩, readyAt := 30000000000 } = oneWaiting := rfl
    simp [exec, step, hphase, hclock, hwaiting, haddCh, hempty, hadded, hearly, hdelay]
  exact ⟨_, exec_append.2 ⟨_, hu, hrun⟩, ⟨hworkers, hqueue, hfeeder, hprocessing, hdirty⟩, rfl, rfl,
    rfl⟩

def entities (start len : ℕ) : List String := (List.range' start len).map toString

theorem length_entities (start len : ℕ) : (entities start len).length = len := by
  rw [entities, length_map, length_range']

/-- The worker fills its channel to the waiting loop and the source fills the queue, before the
waiting loop gets its turn. -/
def crowd : List Action :=
  readied ++ (rounds (entities 1 256) ++
    ([Action.feed ⟨"257"⟩, .enqueue, .take 0, .lock 0, .ret 0 (.ok 0)] ++
      (feeds (entities 258 1024) ++ [Action.pop, .feed ⟨"1282"⟩])))

structure Deadlocked (s : LoopState) : Prop where
  queue : s.queue.length = queueBuffer
  addCh : s.addCh.length = addChBuffer
  worker : ∃ req label item, s.workers = [.adding req label item]
  phase : ∃ now req, s.phase = .sending now req
  feeder : ∃ req, s.feeder = .sending req

theorem Deadlocked.not_live (h : Deadlocked s) : ¬Live {} s := by
  obtain ⟨hqueue, haddCh, ⟨req, label, item, hworkers⟩, ⟨now, req', hphase⟩, ⟨req'', hfeeder⟩⟩ := h
  refine not_live_iff.2 fun a ha ↦ ?_
  have hone : ∀ (i : ℕ) (w : Worker), s.workers[i]? = some w → w = .adding req label item := by
    intro i w hw
    rw [hworkers] at hw
    exact mem_singleton.1 (mem_of_getElem? hw)
  by_contra hne
  obtain ⟨t, ht⟩ := ne_none_iff_exists'.1 hne
  cases step_cases ht with
  | tick | feed | close => cases ha
  | enqueue _ _ hroom => exact absurd hqueue hroom.ne
  | take i _ _ hv | coalesce i _ hv | begin i _ hv | ret i _ _ _ _ hv | sendCancel i _ hv
  | sendDirty i _ _ hv | unlock i _ _ _ hv => cases hone i _ hv
  | sendAdd _ _ _ _ _ hroom => exact absurd haddCh hroom.ne
  | pop _ _ _ hp | sleep _ hp | add _ _ _ hp | cancel _ _ _ hp | timer _ hp =>
    cases hp.symm.trans hphase
  | release _ _ _ hroom => exact absurd hqueue hroom.ne

theorem exec_pop_feed {now : Time} {req : Request} {waiting : WaitingQueue}
    (hphase : s.phase = .draining now) (hpop : s.waiting.popReady now = some (req, waiting))
    (hfeeder : s.feeder = .idle) (req' : Request) :
    exec (step {}) s [.pop, .feed req'] =
      some { s with waiting := waiting, phase := .sending now req, feeder := .sending req' } := by
  simp [exec, step, hphase, hpop, hfeeder]

theorem exec_crowd :
    ∃ s, exec (step {}) (start 1 0 sampleBackoff) crowd = some s ∧
      Deadlocked s := by
  obtain ⟨s₁, hs₁, hrest₁, haddCh₁, hphase₁, hwaiting₁⟩ := exec_readied
  obtain ⟨⟨req, waiting⟩, hpop⟩ : ∃ p, oneWaiting.popReady 30000000000 = some p :=
    isSome_iff_exists.1 (by decide +kernel)
  have hroom : s₁.addCh.length + (entities 1 256).length = addChBuffer := by
    rw [haddCh₁, length_entities]
    rfl
  obtain ⟨s₂, hs₂, hrest₂, haddCh₂, hwaiting₂, hphase₂⟩ := hrest₁.rounds hroom.le
  obtain ⟨backoff, hs₃⟩ := hrest₂.reconciled "257"
  obtain ⟨s₃, hs₃, hworkers, hqueue, hfeeder, haddCh, hwaiting, hphase⟩ : ∃ s₃,
      exec (step {}) s₂ [.feed ⟨"257"⟩, .enqueue, .take 0, .lock 0, .ret 0 (.ok 0)] =
        some s₃ ∧ (∃ item, s₃.workers = [.adding ⟨"257"⟩ .success item]) ∧ s₃.queue = s₂.queue ∧
      s₃.feeder = s₂.feeder ∧ s₃.addCh = s₂.addCh ∧ s₃.waiting = s₂.waiting ∧
      s₃.phase = s₂.phase := ⟨_, hs₃, ⟨_, rfl⟩, rfl, rfl, rfl, rfl, rfl⟩
  obtain ⟨item, hworkers⟩ := hworkers
  have hfull : (s₃.queue ++ (entities 258 1024).map Request.mk).length = queueBuffer := by
    rw [hqueue, hrest₂.queue, nil_append, length_map, length_entities]
    rfl
  have hs₄ := exec_feeds (hfeeder.trans hrest₂.feeder) (entities 258 1024) (by
    rw [← hfull, length_append, length_map])
  have hs₅ := exec_pop_feed
    (s := { s₃ with queue := s₃.queue ++ (entities 258 1024).map Request.mk })
    ((hphase.trans hphase₂).trans hphase₁) (by rw [hwaiting, hwaiting₂, hwaiting₁]; exact hpop)
    (hfeeder.trans hrest₂.feeder) ⟨"1282"⟩
  refine ⟨_, exec_append.2 ⟨_, hs₁, exec_append.2 ⟨_, hs₂, exec_append.2 ⟨_, hs₃,
    exec_append.2 ⟨_, hs₄, hs₅⟩⟩⟩⟩, ?_⟩
  refine ⟨hfull, ?_, ⟨_, _, item, hworkers⟩, ⟨_, _, rfl⟩, ⟨_, rfl⟩⟩
  exact (congrArg length haddCh).trans (haddCh₂.trans hroom)

/-- The source delivers one request more than the loop has room for. -/
theorem crowded_loop_stuck :
    ¬∀ (n : ℕ) (as : List Action) (s : LoopState), 0 < n →
      exec (LoopState.step {}) (LoopState.start n 0 sampleBackoff) as = some s → HasWork s →
        Live {} s := by
  intro h
  obtain ⟨s, hs, hdead⟩ := exec_crowd
  obtain ⟨now, req, hphase⟩ := hdead.phase
  exact hdead.not_live (h 1 crowd s Nat.one_pos hs (.inr (.inl ⟨now, req, hphase⟩)))

end Crowded

end GoCell.Reconcile
