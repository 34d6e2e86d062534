import GoCell.Foundation.Float64
import GoCell.Foundation.Runs
import GoCell.Kernel.Int64
import GoCell.Reconcile.WaitingQueue

namespace GoCell.Reconcile

open Foundation Kernel

section Backoff

def defaultBackoffBase : Duration := 5000000

def defaultBackoffMax : Duration := 1000000000000

def maxBackoffEntries : ℕ := 4096

structure EntityBackoff where
  entries : List (String × ℕ) := []
  base : Duration
  max : Duration

def newEntityBackoff (base max : Duration) : EntityBackoff :=
  let base := if base ≤ 0 then defaultBackoffBase else base
  let max := if max ≤ 0 then defaultBackoffMax else max
  { base := min base max, max := max }

namespace EntityBackoff

def forget (b : EntityBackoff) (id : String) : EntityBackoff :=
  { b with entries := b.entries.filter fun e ↦ e.1 ≠ id }

/-- `When`, which computes in `float64`; what is out of range is converted as on amd64. -/
def when (b : EntityBackoff) (id : String) : Duration × EntityBackoff :=
  let failures := (b.entries.lookup id).getD 0
  let ns := float64OfInt b.base * 2 ^ failures
  (if 2 ^ 63 < ns ∨ b.max < wrapInt64 ns then b.max else wrapInt64 ns,
    { b with entries := ((id, failures + 1) :: (b.forget id).entries).take maxBackoffEntries })

end EntityBackoff

end Backoff

section Outcomes

/-- The errors that a reconciler returns, as `classify` tells them apart. -/
inductive ReconcileError
  | fencedWriteStale
  | permanent
  | other
  | panicked
  deriving DecidableEq

abbrev Outcome := Except ReconcileError Duration

inductive ResultLabel
  | success
  | permanent
  | transient
  deriving DecidableEq

def classify : Outcome → ResultLabel
  | .ok _ => .success
  | .error .fencedWriteStale => .permanent
  | .error .permanent => .permanent
  | .error .other => .transient
  | .error .panicked => .transient

def normalizedRequeueAfter (d : Duration) : Duration := if d < 0 then 0 else d

end Outcomes

structure Config where
  interval : Duration := 30000000000
  noDefaultRequeue : Bool := false

def queueBuffer : ℕ := 1024

def addChBuffer : ℕ := 256

inductive Worker
  | idle
  | received (req : Request)
  | reconciling (req : Request)
  | adding (req : Request) (label : ResultLabel) (item : WaitingItem)
  | cancelling (req : Request)
  | finishing (req : Request) (label : ResultLabel)
  | requeueing (req : Request) (item : WaitingItem)
  deriving DecidableEq

inductive Phase
  | draining (now : Time)
  | sending (now : Time) (req : Request)
  | selecting (wake : Time)
  deriving DecidableEq

inductive Feeder
  | idle
  | sending (req : Request)
  | stopped
  deriving DecidableEq

structure LoopState where
  clock : Time := 0
  queue : List Request := []
  addCh : List WaitingItem := []
  cancelCh : List String := []
  waiting : WaitingQueue := {}
  phase : Phase := .draining 0
  feeder : Feeder := .idle
  workers : List Worker
  processing : String → Bool := fun _ ↦ false
  dirty : String → Option Request := fun _ ↦ none
  backoff : EntityBackoff := newEntityBackoff 0 0

inductive Action
  | tick (d : ℕ)
  | feed (req : Request)
  | close
  | enqueue
  | take (i : ℕ)
  | lock (i : ℕ)
  | ret (i : ℕ) (outcome : Outcome)
  | send (i : ℕ)
  | unlock (i : ℕ)
  | pop
  | release
  | sleep
  | add
  | cancel
  | timer
  deriving DecidableEq

namespace LoopState

variable (cfg : Config)

def start (workers : ℕ) (now : Time) (backoff : EntityBackoff := newEntityBackoff 0 0) :
    LoopState where
  clock := now
  phase := .draining now
  workers := List.replicate workers .idle
  backoff := backoff

variable (s : LoopState)

def setWorker (i : ℕ) (w : Worker) : LoopState :=
  { s with workers := s.workers.set i w }

def itemAfter (req : Request) (delay : Duration) : WaitingItem :=
  { req := req, readyAt := if 0 < delay then s.clock + delay else s.clock }

def dispatch (i : ℕ) (req : Request) (outcome : Outcome) : LoopState :=
  match classify outcome with
  | .success =>
    let s := { s with backoff := s.backoff.forget req.entityID }
    let delay := normalizedRequeueAfter (outcome.toOption.getD 0)
    if delay ≤ 0 then
      if cfg.noDefaultRequeue then s.setWorker i (.finishing req .success)
      else s.setWorker i (.adding req .success (s.itemAfter req cfg.interval))
    else s.setWorker i (.adding req .success (s.itemAfter req delay))
  | .permanent =>
    { s with backoff := s.backoff.forget req.entityID }.setWorker i (.cancelling req)
  | .transient =>
    let (delay, backoff) := s.backoff.when req.entityID
    { s with backoff := backoff }.setWorker i (.adding req .transient (s.itemAfter req delay))

/-- The end of `process`: the locked block, and the decision that follows it. -/
def complete (i : ℕ) (req : Request) (label : ResultLabel) : LoopState :=
  let cleared :=
    { s with
      processing := Function.update s.processing req.entityID false
      dirty := Function.update s.dirty req.entityID none }
  match s.dirty req.entityID with
  | some dirtyReq =>
    if label = .permanent then cleared.setWorker i .idle
    else cleared.setWorker i (.requeueing req (s.itemAfter dirtyReq 0))
  | none => cleared.setWorker i .idle

def step : Action → Option LoopState
  | .tick d => some { s with clock := s.clock + d }
  | .feed req =>
    match s.feeder with
    | .idle => some { s with feeder := .sending req }
    | _ => none
  | .close =>
    match s.feeder with
    | .idle => some { s with feeder := .stopped }
    | _ => none
  | .enqueue =>
    match s.feeder with
    | .sending req =>
      if s.queue.length < queueBuffer then
        some { s with queue := s.queue ++ [req], feeder := .idle }
      else none
    | _ => none
  | .take i =>
    match s.workers[i]?, s.queue with
    | some .idle, req :: queue => some ({ s with queue := queue }.setWorker i (.received req))
    | _, _ => none
  | .lock i =>
    match s.workers[i]? with
    | some (.received req) =>
      if s.processing req.entityID then
        some ({ s with dirty := Function.update s.dirty req.entityID (some req) }.setWorker i .idle)
      else
        some ({ s with processing := Function.update s.processing req.entityID true }.setWorker i
          (.reconciling req))
    | _ => none
  | .ret i outcome =>
    match s.workers[i]? with
    | some (.reconciling req) => some (s.dispatch cfg i req outcome)
    | _ => none
  | .send i =>
    match s.workers[i]? with
    | some (.adding req label item) =>
      if s.addCh.length < addChBuffer then
        some ({ s with addCh := s.addCh ++ [item] }.setWorker i (.finishing req label))
      else none
    | some (.cancelling req) =>
      if s.cancelCh.length < addChBuffer then
        some ({ s with cancelCh := s.cancelCh ++ [req.entityID] }.setWorker i
          (.finishing req .permanent))
      else none
    | some (.requeueing _ item) =>
      if s.addCh.length < addChBuffer then
        some ({ s with addCh := s.addCh ++ [item] }.setWorker i .idle)
      else none
    | _ => none
  | .unlock i =>
    match s.workers[i]? with
    | some (.finishing req label) => some (s.complete i req label)
    | _ => none
  | .pop =>
    match s.phase with
    | .draining now =>
      (s.waiting.popReady now).map fun (req, waiting) ↦
        { s with waiting := waiting, phase := .sending now req }
    | _ => none
  | .release =>
    match s.phase with
    | .sending now req =>
      if s.queue.length < queueBuffer then
        some { s with queue := s.queue ++ [req], phase := .draining now }
      else none
    | _ => none
  | .sleep =>
    match s.phase with
    | .draining now =>
      if s.waiting.popReady now = none then
        some { s with phase := .selecting (s.clock + s.waiting.nextWaitingDelay s.clock) }
      else none
    | _ => none
  | .add =>
    match s.phase, s.addCh with
    | .selecting _, item :: addCh =>
      some
        { s with
          addCh := addCh
          waiting := s.waiting.addOrMergeWaiting item
          phase := .draining s.clock }
    | _, _ => none
  | .cancel =>
    match s.phase, s.cancelCh with
    | .selecting _, id :: cancelCh =>
      some
        { s with
          cancelCh := cancelCh
          waiting := s.waiting.cancelPending id
          phase := .draining s.clock }
    | _, _ => none
  | .timer =>
    match s.phase with
    | .selecting wake => if wake ≤ s.clock then some { s with phase := .draining s.clock } else none
    | _ => none

end LoopState

section Inversion

variable {cfg : Config} {s t : LoopState}

/-- Whether an outcome asks for another run: a transient error, or a success that is requeued
explicitly or periodically. -/
def Config.asks (cfg : Config) (outcome : Outcome) : Bool :=
  match classify outcome with
  | .success => !cfg.noDefaultRequeue || decide (0 < outcome.toOption.getD 0)
  | .permanent => false
  | .transient => true

inductive Dispatched (cfg : Config) (req : Request) (outcome : Outcome) : Worker → Prop
  | again (item : WaitingItem) (hitem : item.req = req) (hasks : cfg.asks outcome = true)
    (hlabel : classify outcome ≠ .permanent) :
    Dispatched cfg req outcome (.adding req (classify outcome) item)
  | never (hlabel : classify outcome = .permanent) : Dispatched cfg req outcome (.cancelling req)
  | rest (hasks : cfg.asks outcome = false) (hlabel : classify outcome = .success) :
    Dispatched cfg req outcome (.finishing req .success)

theorem LoopState.dispatch_cases (s : LoopState) (i : ℕ) (req : Request) (outcome : Outcome) :
    ∃ backoff w, Dispatched cfg req outcome w ∧
      s.dispatch cfg i req outcome = { s with backoff := backoff }.setWorker i w := by
  unfold dispatch
  cases hlabel : classify outcome with
  | success =>
    simp only
    split
    · next hdelay =>
      split
      · next hrest =>
        refine ⟨_, _, .rest ?_ hlabel, rfl⟩
        rw [Config.asks, hlabel, hrest]
        unfold normalizedRequeueAfter at hdelay
        split at hdelay
        · next hneg => simpa using hneg.le
        · simpa using hdelay
      · next hrest =>
        refine ⟨_, _, .again _ rfl ?_ (by rw [hlabel]; exact nofun), by rw [hlabel]⟩
        simp [Config.asks, hlabel, hrest]
    · next hdelay =>
      refine ⟨_, _, .again _ rfl ?_ (by rw [hlabel]; exact nofun), by rw [hlabel]⟩
      unfold normalizedRequeueAfter at hdelay
      split at hdelay
      · exact absurd le_rfl hdelay
      · simp [Config.asks, hlabel, not_le.1 hdelay]
  | permanent => exact ⟨_, _, .never hlabel, rfl⟩
  | transient =>
    refine ⟨_, _, .again _ rfl ?_ (by rw [hlabel]; exact nofun), by rw [hlabel]⟩
    simp [Config.asks, hlabel]

inductive Completed (s : LoopState) (req : Request) (label : ResultLabel) : Worker → Prop
  | dirty (dirtyReq : Request) (item : WaitingItem) (hdirty : s.dirty req.entityID = some dirtyReq)
    (hitem : item.req = dirtyReq) (hlabel : label ≠ .permanent) :
    Completed s req label (.requeueing req item)
  | dropped (dirtyReq : Request) (hdirty : s.dirty req.entityID = some dirtyReq)
    (hlabel : label = .permanent) : Completed s req label .idle
  | clean (hdirty : s.dirty req.entityID = none) : Completed s req label .idle

def LoopState.cleared (s : LoopState) (id : String) : LoopState :=
  { s with
    processing := Function.update s.processing id false
    dirty := Function.update s.dirty id none }

theorem LoopState.complete_cases (s : LoopState) (i : ℕ) (req : Request) (label : ResultLabel) :
    ∃ w, Completed s req label w ∧ s.complete i req label =
      (s.cleared req.entityID).setWorker i w := by
  unfold complete
  cases hdirty : s.dirty req.entityID with
  | none => exact ⟨_, .clean hdirty, rfl⟩
  | some dirtyReq =>
    simp only
    split
    · next hlabel => exact ⟨_, .dropped dirtyReq hdirty hlabel, rfl⟩
    · next hlabel => exact ⟨_, .dirty dirtyReq _ hdirty rfl hlabel, rfl⟩

@[grind intro] inductive Stepped (cfg : Config) (s : LoopState) : Action → LoopState → Prop
  | tick (d : ℕ) : Stepped cfg s (.tick d) { s with clock := s.clock + d }
  | feed (req : Request) (h : s.feeder = .idle) :
    Stepped cfg s (.feed req) { s with feeder := .sending req }
  | close (h : s.feeder = .idle) : Stepped cfg s .close { s with feeder := .stopped }
  | enqueue (req : Request) (h : s.feeder = .sending req) (hroom : s.queue.length < queueBuffer) :
    Stepped cfg s .enqueue { s with queue := s.queue ++ [req], feeder := .idle }
  | take (i : ℕ) (req : Request) (queue : List Request) (h : s.workers[i]? = some .idle)
    (hqueue : s.queue = req :: queue) :
    Stepped cfg s (.take i) ({ s with queue := queue }.setWorker i (.received req))
  | coalesce (i : ℕ) (req : Request) (h : s.workers[i]? = some (.received req))
    (hbusy : s.processing req.entityID = true) :
    Stepped cfg s (.lock i)
      ({ s with dirty := Function.update s.dirty req.entityID (some req) }.setWorker i .idle)
  | begin (i : ℕ) (req : Request) (h : s.workers[i]? = some (.received req))
    (hfree : s.processing req.entityID = false) :
    Stepped cfg s (.lock i)
      ({ s with processing := Function.update s.processing req.entityID true }.setWorker i
        (.reconciling req))
  | ret (i : ℕ) (req : Request) (outcome : Outcome) (backoff : EntityBackoff) (w : Worker)
    (h : s.workers[i]? = some (.reconciling req)) (hw : Dispatched cfg req outcome w) :
    Stepped cfg s (.ret i outcome) ({ s with backoff := backoff }.setWorker i w)
  | sendAdd (i : ℕ) (req : Request) (label : ResultLabel) (item : WaitingItem)
    (h : s.workers[i]? = some (.adding req label item)) (hroom : s.addCh.length < addChBuffer) :
    Stepped cfg s (.send i)
      ({ s with addCh := s.addCh ++ [item] }.setWorker i (.finishing req label))
  | sendCancel (i : ℕ) (req : Request) (h : s.workers[i]? = some (.cancelling req))
    (hroom : s.cancelCh.length < addChBuffer) :
    Stepped cfg s (.send i)
      ({ s with cancelCh := s.cancelCh ++ [req.entityID] }.setWorker i (.finishing req .permanent))
  | sendDirty (i : ℕ) (req : Request) (item : WaitingItem)
    (h : s.workers[i]? = some (.requeueing req item)) (hroom : s.addCh.length < addChBuffer) :
    Stepped cfg s (.send i) ({ s with addCh := s.addCh ++ [item] }.setWorker i .idle)
  | unlock (i : ℕ) (req : Request) (label : ResultLabel) (w : Worker)
    (h : s.workers[i]? = some (.finishing req label)) (hw : Completed s req label w) :
    Stepped cfg s (.unlock i) ((s.cleared req.entityID).setWorker i w)
  | pop (now : Time) (req : Request) (waiting : WaitingQueue) (h : s.phase = .draining now)
    (hpop : s.waiting.popReady now = some (req, waiting)) :
    Stepped cfg s .pop { s with waiting := waiting, phase := .sending now req }
  | release (now : Time) (req : Request) (h : s.phase = .sending now req)
    (hroom : s.queue.length < queueBuffer) :
    Stepped cfg s .release { s with queue := s.queue ++ [req], phase := .draining now }
  | sleep (now : Time) (h : s.phase = .draining now) (hpop : s.waiting.popReady now = none) :
    Stepped cfg s .sleep
      { s with phase := .selecting (s.clock + s.waiting.nextWaitingDelay s.clock) }
  | add (wake : Time) (item : WaitingItem) (addCh : List WaitingItem)
    (h : s.phase = .selecting wake) (hadd : s.addCh = item :: addCh) :
    Stepped cfg s .add
      { s with
        addCh := addCh
        waiting := s.waiting.addOrMergeWaiting item
        phase := .draining s.clock }
  | cancel (wake : Time) (id : String) (cancelCh : List String) (h : s.phase = .selecting wake)
    (hcancel : s.cancelCh = id :: cancelCh) :
    Stepped cfg s .cancel
      { s with
        cancelCh := cancelCh
        waiting := s.waiting.cancelPending id
        phase := .draining s.clock }
  | timer (wake : Time) (h : s.phase = .selecting wake) (hwake : wake ≤ s.clock) :
    Stepped cfg s .timer { s with phase := .draining s.clock }

theorem step_cases {a : Action} (h : s.step cfg a = some t) : Stepped cfg s a t := by
  cases a with
  | ret i outcome =>
    simp only [LoopState.step] at h
    split at h
    · next req hworker =>
      cases h
      obtain ⟨backoff, w, hw, heq⟩ := s.dispatch_cases i req outcome
      rw [heq]
      exact .ret i req outcome backoff w hworker hw
    · cases h
  | unlock i =>
    simp only [LoopState.step] at h
    split at h
    · next req label hworker =>
      cases h
      obtain ⟨w, hw, heq⟩ := s.complete_cases i req label
      rw [heq]
      exact .unlock i req label w hworker hw
    · cases h
  | pop => grind -ring -linarith [LoopState.step, Option.map_eq_some_iff]
  | _ => grind -ring -linarith [LoopState.step]

theorem run_invariant (P : LoopState → Prop) (hstep : ∀ s a t, P s → Stepped cfg s a t → P t)
    {as : List Action} (hs : P s) (h : exec (LoopState.step cfg) s as = some t) : P t :=
  exec_invariant P (fun s a t hs h ↦ hstep s a t hs (step_cases h)) as s t hs h

end Inversion

end GoCell.Reconcile
