import GoCell.DistLock.Manager
import GoCell.Foundation.Runs
import GoCell.Foundation.Tables

namespace GoCell.DistLock

open Foundation Kernel List Option

inductive Disposition
  | release
  | orphan
  deriving DecidableEq

/-- A lock's holder, from `add` to the end of `Release` or `Orphan`. The locks are numbered as they
are registered. -/
inductive Caller
  | adding (state : LockState)
  | held
  | sending (kind : Disposition)
  | waiting (kind : Disposition)
  | done
  deriving DecidableEq

inductive ManagerEvent
  | add (state : LockState)
  | remove (i : ℕ)
  | orphan (i : ℕ)
  | renewResult (id item : ℕ) (held : Bool) (renewErr : Option Err)

def Disposition.event : Disposition → ℕ → ManagerEvent
  | .release => .remove
  | .orphan => .orphan

inductive Phase
  /-- There is none; one that is past its last critical section only closes its own channels. -/
  | absent
  | starting
  | selecting
  /-- It has handled a request and is before the first critical section of
  `decPendingAndMaybeDrain`. -/
  | disposed
  | stopping
  deriving DecidableEq

structure RenewWorker where
  term : ℕ
  id : ℕ
  item : ℕ

/-- The fields of `Manager` that are shared, the maps of the running goroutine, the renewals under
way and the callers. -/
structure Lifecycle where
  clock : Time := 0
  pendingDispositions : ℤ := 0
  running : Bool := false
  events : List ManagerEvent := []
  term : ℕ := 0
  phase : Phase := .absent
  m : Manager := {}
  workers : List RenewWorker := []
  callers : List Caller := []

inductive Action
  | tick (d : ℕ)
  | register (key token : String) (ttl : Duration)
  | sendAdd (i : ℕ)
  | dispose (i : ℕ) (kind : Disposition)
  | sendDisposition (i : ℕ)
  | boot
  | receive
  | decrement
  | stop
  | renew
  | post (k : ℕ) (held : Bool) (renewErr : Option Err)
  | abandon (k : ℕ)

def eventsBuffer : ℕ := 64

namespace Lifecycle

def setCaller (s : Lifecycle) (i : ℕ) (c : Caller) : Lifecycle :=
  { s with callers := s.callers.set i c }

def send (s : Lifecycle) (ev : ManagerEvent) : Lifecycle := { s with events := s.events ++ [ev] }

def dispatchEvent (cfg : Config) (s : Lifecycle) : ManagerEvent → Lifecycle
  | .add state => { s with m := s.m.handleAdd cfg s.clock state }
  | .remove i => { s with m := (s.m.handleRemove i).1, phase := .disposed }.setCaller i .done
  | .orphan i => { s with m := s.m.handleOrphan i, phase := .disposed }.setCaller i .done
  | .renewResult id item held renewErr =>
    { s with m := s.m.handleRenewResult cfg s.clock id item held renewErr }

def step (cfg : Config) (s : Lifecycle) : Action → Option Lifecycle
  | .tick d => some { s with clock := s.clock + d }
  | .register key token ttl =>
    let s :=
      { s with
        pendingDispositions := s.pendingDispositions + 1
        callers := s.callers ++ [.adding ⟨s.callers.length, key, token, ttl⟩] }
    if s.running then some s
    else some { s with running := true, term := s.term + 1, phase := .starting, m := {} }
  | .sendAdd i =>
    match s.callers[i]? with
    | some (.adding state) =>
      if s.events.length < eventsBuffer then
        some ((s.send (.add state)).setCaller i .held)
      else none
    | _ => none
  | .dispose i kind =>
    match s.callers[i]? with
    | some .held => some (s.setCaller i (.sending kind))
    | _ => none
  | .sendDisposition i =>
    match s.callers[i]? with
    | some (.sending kind) =>
      if s.events.length < eventsBuffer then
        some ((s.send (kind.event i)).setCaller i (.waiting kind))
      else none
    | _ => none
  | .boot => if s.phase = .starting then some { s with phase := .selecting } else none
  | .receive =>
    match s.phase, s.events with
    | .selecting, ev :: events => some ({ s with events := events }.dispatchEvent cfg ev)
    | _, _ => none
  | .decrement =>
    if s.phase = .disposed then
      some
        { s with
          pendingDispositions := s.pendingDispositions - 1
          phase := if s.pendingDispositions - 1 = 0 then .stopping else .selecting }
    else none
  | .stop =>
    if s.phase = .stopping then some { s with running := false, phase := .absent } else none
  | .renew =>
    match s.phase, s.m.nextTimer with
    | .selecting, some time =>
      if time ≤ s.clock then
        some
          { s with
            m := s.m.handleRenew.1
            workers := s.workers ++
              s.m.handleRenew.2.toList.map fun (id, item) ↦ ⟨s.term, id, item⟩ }
      else none
    | _, _ => none
  | .post k held renewErr =>
    match s.workers[k]? with
    | some w =>
      if s.events.length < eventsBuffer then
        some { s.send (.renewResult w.id w.item held renewErr) with
          workers := s.workers.eraseIdx k }
      else none
    | none => none
  | .abandon k =>
    match s.workers[k]? with
    | some w =>
      if w.term < s.term ∨ s.phase = .absent then
        some { s with workers := s.workers.eraseIdx k }
      else none
    | none => none

end Lifecycle

def Caller.inPlay : Caller → Bool
  | .done => false
  | _ => true

def Caller.isWaiting : Caller → Bool
  | .waiting _ => true
  | _ => false

def ManagerEvent.disposes (i : ℕ) : ManagerEvent → Bool
  | .remove j => j == i
  | .orphan j => j == i
  | _ => false

@[simp] theorem disposes_event (kind : Disposition) (i j : ℕ) :
    (kind.event j).disposes i = (j == i) := by
  cases kind <;> rfl

def Action.registers : Action → Bool
  | .register .. => true
  | _ => false

/-- The condition on a step: no lock is registered between the two critical sections of a manager
that stops. -/
def Timely (s : Lifecycle) (a : Action) : Prop := a.registers = true → s.phase ≠ .stopping

instance Timely.decidable (s : Lifecycle) (a : Action) : Decidable (Timely s a) :=
  inferInstanceAs (Decidable (_ → _))

theorem Timely.of_eq_false {s : Lifecycle} {a : Action} (h : a.registers = false) : Timely s a :=
  fun hr ↦ absurd (h.symm.trans hr) Bool.false_ne_true

structure Sane (s : Lifecycle) : Prop where
  running : s.running = true ↔ s.phase ≠ .absent
  pending : s.pendingDispositions =
    s.callers.countP Caller.inPlay + if s.phase = .disposed then 1 else 0
  idle : s.phase = .stopping ∨ s.phase = .absent → s.pendingDispositions = 0
  waiting : ∀ i, s.events.countP (·.disposes i) =
    if s.callers[i]?.any Caller.isWaiting then 1 else 0

variable {rest : List ManagerEvent}

namespace Sane

variable {cfg : Config} {s s' : Lifecycle}

theorem of_eq (h : Sane s) (hrunning : s'.running = s.running)
    (hpending : s'.pendingDispositions = s.pendingDispositions) (hphase : s'.phase = s.phase)
    (hcallers : s'.callers = s.callers)
    (hevents : ∀ i, s'.events.countP (·.disposes i) = s.events.countP (·.disposes i)) :
    Sane s' where
  running := by rw [hrunning, hphase, h.running]
  pending := by rw [hpending, hphase, hcallers, h.pending]
  idle := by rw [hpending, hphase]; exact h.idle
  waiting i := by rw [hevents, hcallers, h.waiting]

theorem move {i : ℕ} {c c' : Caller} (h : Sane s) (hc : s.callers[i]? = some c)
    (hplay : c.inPlay = true) (hcallers : s'.callers = s.callers.set i c')
    (hpending : s'.pendingDispositions = s.pendingDispositions) (hrunning : s'.running = s.running)
    (hphase : if c'.inPlay then s'.phase = s.phase else s.phase = .selecting ∧ s'.phase = .disposed)
    (hevents : ∀ j, s'.events.countP (·.disposes j) + (if i = j ∧ c.isWaiting then 1 else 0) =
      s.events.countP (·.disposes j) + if i = j ∧ c'.isWaiting then 1 else 0) : Sane s' where
  running := by
    rw [hrunning, h.running]
    split at hphase
    · rw [hphase]
    · simp [hphase.1, hphase.2]
  pending := by
    have hcount := countP_set_add Caller.inPlay c' hc
    have hold := h.pending
    rw [if_pos hplay] at hcount
    rw [hpending, hcallers]
    split at hphase
    · next hin =>
      rw [if_pos hin] at hcount
      rw [hphase]
      omega
    · next hout =>
      rw [if_neg hout] at hcount
      rw [hphase.1, if_neg (by decide)] at hold
      rw [hphase.2, if_pos rfl]
      omega
  idle := by
    rw [hpending]
    split at hphase
    · rw [hphase]
      exact h.idle
    · rw [hphase.2]
      simp
  waiting j := by
    have hj := h.waiting j
    have hev := hevents j
    rw [hcallers, getElem?_set]
    by_cases hij : i = j
    · subst hij
      have hi : i < s.callers.length := (List.getElem?_eq_some_iff.1 hc).1
      simp only [hc, any_some] at hj
      simp only [true_and] at hev
      simp only [if_pos, hi, any_some]
      omega
    · simp only [hij, false_and, if_false] at hev ⊢
      omega

theorem register {key token : String} {ttl : Duration} (h : Sane s) (hphase : s.phase ≠ .stopping)
    (hs : s.step cfg (.register key token ttl) = some s') : Sane s' := by
  have hcount (c : Caller) : (s.callers ++ [c]).countP Caller.inPlay =
      s.callers.countP Caller.inPlay + if c.inPlay then 1 else 0 := by
    rw [countP_append, countP_singleton]
  have hwaiting (i : ℕ) (state : LockState) :
      (s.callers ++ [.adding state])[i]?.any Caller.isWaiting =
        s.callers[i]?.any Caller.isWaiting := by
    rw [getElem?_append, getElem?_singleton]
    split
    · rfl
    · next hi =>
      rw [getElem?_eq_none (Nat.le_of_not_lt hi)]
      split <;> rfl
  have hpending := h.pending
  simp only [Lifecycle.step] at hs
  split at hs
  · next hrunning =>
    cases hs
    have hpresent := h.running.1 hrunning
    refine ⟨h.running, ?_, fun hidle ↦ (hidle.elim hphase hpresent).elim, fun i ↦ ?_⟩
    · simp only [hcount, Caller.inPlay, if_true]
      omega
    · simp only [hwaiting, h.waiting]
  · next hstopped =>
    cases hs
    have habsent : s.phase = .absent := Decidable.not_not.1 (mt h.running.2 hstopped)
    rw [habsent, if_neg (by decide)] at hpending
    refine ⟨by simp, ?_, by simp, fun i ↦ ?_⟩
    · simp only [hcount, Caller.inPlay, if_true, reduceCtorEq, if_false]
      omega
    · simp only [hwaiting, h.waiting]

theorem waiting_of_head {i : ℕ} {ev : ManagerEvent} (h : Sane s)
    (hevents : s.events = ev :: rest) (hev : ev.disposes i = true) :
    ∃ kind, s.callers[i]? = some (.waiting kind) := by
  have hone := h.waiting i
  rw [hevents, countP_cons_of_pos hev] at hone
  split at hone
  · next hany =>
    obtain ⟨c, hc, hcw⟩ := (any_eq_true _ _).1 hany
    cases c with
    | waiting kind => exact ⟨kind, hc⟩
    | _ => cases hcw
  · cases hone

theorem dispatchEvent {ev : ManagerEvent} (h : Sane s)
    (hphase : s.phase = .selecting) (hevents : s.events = ev :: rest) :
    Sane ({ s with events := rest }.dispatchEvent cfg ev) := by
  have hdisposed (i : ℕ) (hev : ∀ j, ev.disposes j = (i == j)) (m : Manager) :
      Sane ({ s with events := rest, m := m, phase := .disposed }.setCaller i .done) := by
    obtain ⟨kind, hc⟩ := h.waiting_of_head hevents ((hev i).trans (beq_self_eq_true i))
    refine h.move hc rfl rfl rfl rfl ⟨hphase, rfl⟩ fun j ↦ ?_
    simp [Lifecycle.setCaller, hevents, countP_cons, hev, Caller.isWaiting]
  have hkept (hev : ∀ j, ev.disposes j = false) (m : Manager) :
      Sane { s with events := rest, m := m } := by
    refine h.of_eq rfl rfl rfl rfl fun j ↦ ?_
    simp [hevents, hev]
  cases ev with
  | add | renewResult => exact hkept (fun _ ↦ rfl) _
  | remove i | orphan i => exact hdisposed i (fun _ ↦ rfl) _

theorem step {a : Action} (h : Sane s) (htimely : Timely s a) (hs : s.step cfg a = some s') :
    Sane s' := by
  cases a with
  | register => exact h.register (htimely rfl) hs
  | tick d =>
    cases hs
    exact h.of_eq rfl rfl rfl rfl fun _ ↦ rfl
  | sendAdd i =>
    simp only [Lifecycle.step] at hs
    split at hs
    · next state hc =>
      obtain ⟨-, ⟨⟩⟩ := ite_none_right_eq_some.1 hs
      refine h.move hc rfl rfl rfl rfl rfl fun j ↦ ?_
      simp [Lifecycle.setCaller, Lifecycle.send, ManagerEvent.disposes, Caller.isWaiting]
    · cases hs
  | dispose =>
    simp only [Lifecycle.step] at hs
    split at hs
    · next hc =>
      cases hs
      exact h.move hc rfl rfl rfl rfl rfl fun j ↦ rfl
    · cases hs
  | sendDisposition i =>
    simp only [Lifecycle.step] at hs
    split at hs
    · next kind hc =>
      obtain ⟨-, ⟨⟩⟩ := ite_none_right_eq_some.1 hs
      refine h.move hc rfl rfl rfl rfl rfl fun j ↦ ?_
      simp [Lifecycle.setCaller, Lifecycle.send, countP_append, countP_singleton, Caller.isWaiting]
    · cases hs
  | boot =>
    obtain ⟨hphase, ⟨⟩⟩ := ite_none_right_eq_some.1 hs
    have hpending := h.pending
    rw [hphase] at hpending
    exact ⟨by simp [h.running, hphase], hpending, by simp, h.waiting⟩
  | receive =>
    simp only [Lifecycle.step] at hs
    split at hs
    · next ev rest hphase hevents =>
      cases hs
      exact h.dispatchEvent hphase hevents
    · cases hs
  | decrement =>
    obtain ⟨hphase, ⟨⟩⟩ := ite_none_right_eq_some.1 hs
    have hpending := h.pending
    rw [if_pos hphase] at hpending
    refine ⟨?_, ?_, ?_, h.waiting⟩
    · simp only [h.running, hphase]
      split <;> simp
    · dsimp only
      rw [if_neg (by split <;> simp)]
      omega
    · intro hidle
      dsimp only at hidle
      split at hidle
      · assumption
      · simp at hidle
  | stop =>
    obtain ⟨hphase, ⟨⟩⟩ := ite_none_right_eq_some.1 hs
    have hpending := h.pending
    rw [hphase] at hpending
    exact ⟨by simp, hpending, fun _ ↦ h.idle (.inl hphase), h.waiting⟩
  | renew | abandon =>
    simp only [Lifecycle.step] at hs
    split at hs
    · obtain ⟨-, ⟨⟩⟩ := ite_none_right_eq_some.1 hs
      exact h.of_eq rfl rfl rfl rfl fun _ ↦ rfl
    · cases hs
  | post =>
    simp only [Lifecycle.step] at hs
    split at hs
    · obtain ⟨-, ⟨⟩⟩ := ite_none_right_eq_some.1 hs
      refine h.of_eq rfl rfl rfl rfl fun j ↦ ?_
      simp [Lifecycle.send, ManagerEvent.disposes]
    · cases hs

theorem initial : Sane {} where
  running := by decide
  pending := rfl
  idle _ := rfl
  waiting _ := rfl

end Sane

def Action.byManager : Action → Bool
  | .boot | .receive | .decrement | .stop | .renew => true
  | _ => false

/-- The manager, and the caller of the lock `i` in its send, get from one state to another. -/
def Leads (cfg : Config) (i : ℕ) (s s' : Lifecycle) : Prop :=
  ∃ acts : List Action, (∀ a ∈ acts, a.byManager = true ∨ a = .sendDisposition i) ∧
    exec (Lifecycle.step cfg) s acts = some s'

/-- The request of the lock `i` can be handled without any other caller. -/
def Attended (cfg : Config) (s : Lifecycle) (i : ℕ) : Prop :=
  ∃ s', Leads cfg i s s' ∧ s'.callers[i]? = some .done

namespace Leads

variable {cfg : Config} {i : ℕ} {s s' s'' : Lifecycle}

theorem refl (cfg : Config) (i : ℕ) (s : Lifecycle) : Leads cfg i s s :=
  ⟨[], fun _ h ↦ absurd h not_mem_nil, rfl⟩

theorem single {a : Action} (ha : a.byManager = true ∨ a = .sendDisposition i)
    (hs : s.step cfg a = some s') : Leads cfg i s s' := by
  refine ⟨[a], fun b hb ↦ ?_, exec_cons.2 ⟨s', hs, rfl⟩⟩
  obtain rfl := mem_singleton.1 hb
  exact ha

theorem trans (h : Leads cfg i s s') (h' : Leads cfg i s' s'') : Leads cfg i s s'' := by
  obtain ⟨acts, hacts, hs⟩ := h
  obtain ⟨acts', hacts', hs'⟩ := h'
  refine ⟨acts ++ acts', fun a ha ↦ ?_, exec_append.2 ⟨s', hs, hs'⟩⟩
  exact (mem_append.1 ha).elim (hacts a) (hacts' a)

theorem attended (h : Leads cfg i s s') (h' : Attended cfg s' i) : Attended cfg s i := by
  obtain ⟨t, ht, hdone⟩ := h'
  exact ⟨t, h.trans ht, hdone⟩

theorem eq_of_absent {kind : Disposition} (h : Leads cfg i s s') (hphase : s.phase = .absent)
    (hc : s.callers[i]? = some (.waiting kind)) : s' = s := by
  obtain ⟨acts, hacts, hs⟩ := h
  cases acts with
  | nil => exact (some.inj hs).symm
  | cons a acts =>
    obtain ⟨u, hu, -⟩ := exec_cons.1 hs
    have hnone : s.step cfg a = none := by
      obtain hm | rfl := hacts a mem_cons_self
      · cases a with
        | boot | receive | decrement | stop | renew => simp [Lifecycle.step, hphase]
        | _ => cases hm
      · simp [Lifecycle.step, hc]
    cases hnone.symm.trans hu

end Leads

namespace Sane

variable {cfg : Config} {i : ℕ} {c : Caller} {s : Lifecycle}

theorem rouse (cfg : Config) (h : Sane s) (hc : s.callers[i]? = some c) (hplay : c.inPlay = true) :
    ∃ s', Leads cfg i s s' ∧ Sane s' ∧ s'.phase = .selecting ∧ s'.callers = s.callers ∧
      s'.events = s.events := by
  have hpos : 0 < s.callers.countP Caller.inPlay :=
    countP_pos_iff.2 ⟨c, mem_of_getElem? hc, hplay⟩
  have hpending := h.pending
  cases hphase : s.phase with
  | absent =>
    rw [hphase, h.idle (.inr hphase), if_neg (by decide)] at hpending
    omega
  | stopping =>
    rw [hphase, h.idle (.inl hphase), if_neg (by decide)] at hpending
    omega
  | selecting => exact ⟨s, .refl .., h, hphase, rfl, rfl⟩
  | starting =>
    have hs : s.step cfg .boot = some { s with phase := .selecting } := if_pos hphase
    exact ⟨_, .single (.inl rfl) hs, h.step (.of_eq_false rfl) hs, rfl, rfl, rfl⟩
  | disposed =>
    rw [if_pos hphase] at hpending
    have hs : s.step cfg .decrement = some
        { s with
          pendingDispositions := s.pendingDispositions - 1
          phase := if s.pendingDispositions - 1 = 0 then .stopping else .selecting } :=
            if_pos hphase
    exact ⟨_, .single (.inl rfl) hs, h.step (.of_eq_false rfl) hs, if_neg (by omega), rfl, rfl⟩

theorem pass {ev : ManagerEvent} (h : Sane s)
    (hphase : s.phase = .selecting) (hevents : s.events = ev :: rest)
    (hev : ev.disposes i = false) (hc : s.callers[i]? = some c) (hplay : c.inPlay = true) :
    ∃ s', Leads cfg i s s' ∧ Sane s' ∧ s'.phase = .selecting ∧ s'.callers[i]? = some c ∧
      s'.events = rest := by
  have hs : s.step cfg .receive = some ({ s with events := rest }.dispatchEvent cfg ev) := by
    simp only [Lifecycle.step, hphase, hevents]
  have hcallers : ({ s with events := rest }.dispatchEvent cfg ev).callers[i]? = some c := by
    cases ev with
    | add | renewResult => exact hc
    | remove j | orphan j =>
      have hij : j ≠ i := fun heq ↦ by simp [ManagerEvent.disposes, heq] at hev
      exact (getElem?_set_ne hij).trans hc
  have hrest : ({ s with events := rest }.dispatchEvent cfg ev).events = rest := by
    cases ev <;> rfl
  obtain ⟨s', hleads, hsane, hphase', hcallers', hevents'⟩ :=
    (h.step (.of_eq_false rfl) hs).rouse cfg hcallers hplay
  exact ⟨s', .trans (.single (.inl rfl) hs) hleads, hsane, hphase', hcallers' ▸ hcallers,
    hevents'.trans hrest⟩

section

variable {kind : Disposition} {events : List ManagerEvent} (h : Sane s)
  (hphase : s.phase = .selecting) (hevents : s.events = events)
include h hphase hevents

theorem attended_of_waiting (hc : s.callers[i]? = some (.waiting kind)) : Attended cfg s i := by
  induction events generalizing s with
  | nil =>
    have hone := h.waiting i
    simp [hevents, hc, Caller.isWaiting] at hone
  | cons ev rest ih =>
    cases hev : ev.disposes i with
    | false =>
      obtain ⟨s', hleads, hsane, hphase', hc', hevents'⟩ := h.pass hphase hevents hev hc rfl
      exact hleads.attended (ih hsane hphase' hevents' hc')
    | true =>
      have hs : s.step cfg .receive = some ({ s with events := rest }.dispatchEvent cfg ev) := by
        simp only [Lifecycle.step, hphase, hevents]
      have hi : i < s.callers.length := (List.getElem?_eq_some_iff.1 hc).1
      refine ⟨_, .single (.inl rfl) hs, ?_⟩
      cases ev with
      | add | renewResult => cases hev
      | remove j | orphan j =>
        obtain rfl := eq_of_beq hev
        exact getElem?_set_self hi

theorem attended_of_sending (hc : s.callers[i]? = some (.sending kind)) : Attended cfg s i := by
  induction events generalizing s with
  | nil =>
    have hs : s.step cfg (.sendDisposition i) =
        some ((s.send (kind.event i)).setCaller i (.waiting kind)) := by
      simp [Lifecycle.step, hc, hevents, eventsBuffer]
    have hi : i < s.callers.length := (List.getElem?_eq_some_iff.1 hc).1
    refine (Leads.single (.inr rfl) hs).attended ?_
    exact (h.step (.of_eq_false rfl) hs).attended_of_waiting hphase rfl
      (getElem?_set_self hi)
  | cons ev rest ih =>
    have hev : ev.disposes i = false := by
      by_contra hev
      obtain ⟨kind', hc'⟩ := h.waiting_of_head hevents (eq_true_of_ne_false hev)
      cases hc.symm.trans hc'
    obtain ⟨s', hleads, hsane, hphase', hc', hevents'⟩ := h.pass hphase hevents hev hc rfl
    exact hleads.attended (ih hsane hphase' hevents' hc')

end

end Sane

def Caller.requested : Caller → Bool
  | .sending _ | .waiting _ => true
  | _ => false

/-- When no lock is registered between the two critical sections of a manager that stops, every
request that is not handled yet has a manager that will handle it. -/
theorem dispositions_attended (cfg : Config) (acts : List Action) (s : Lifecycle)
    (hrun : exec (Lifecycle.step cfg) {} acts = some s)
    (htimely : Along (Lifecycle.step cfg) {} acts Timely) (i : ℕ) (c : Caller)
    (hc : s.callers[i]? = some c) (hreq : c.requested = true) :
    s.phase ≠ .absent ∧ Attended cfg s i := by
  have hsane : Sane s :=
    exec_invariant_along Sane (fun _ _ _ h ht hs ↦ h.step ht hs) acts {} s .initial htimely hrun
  have hplay : c.inPlay = true := by
    cases c with
    | done => cases hreq
    | _ => rfl
  obtain ⟨s', hleads, hsane', hphase, hcallers, -⟩ := hsane.rouse cfg hc hplay
  constructor
  · intro habsent
    have hpending := hsane.pending
    have hpos : 0 < s.callers.countP Caller.inPlay :=
      countP_pos_iff.2 ⟨c, mem_of_getElem? hc, hplay⟩
    rw [hsane.idle (.inr habsent), habsent, if_neg (by decide)] at hpending
    omega
  · apply hleads.attended
    rw [← hcallers] at hc
    cases c with
    | sending kind => exact hsane'.attended_of_sending hphase rfl hc
    | waiting kind => exact hsane'.attended_of_waiting hphase rfl hc
    | adding | held | done => cases hreq

def overlapping : List Action :=
  [.register "a" "1" 10, .boot, .sendAdd 0, .receive, .register "b" "2" 10, .dispose 0 .release,
    .sendDisposition 0, .receive, .sendAdd 1, .dispose 1 .orphan, .sendDisposition 1]

theorem dispositions_attended_overlapping :
    ∃ s, exec (Lifecycle.step ⟨fun ttl ↦ ttl / 2⟩) {} overlapping = some s ∧
      s.phase = .disposed ∧ s.phase ≠ .absent ∧ Attended ⟨fun ttl ↦ ttl / 2⟩ s 1 := by
  have hrun : ((exec (Lifecycle.step ⟨fun ttl ↦ ttl / 2⟩) {} overlapping).map fun s ↦
      (s.phase, s.callers[1]?)) = some (.disposed, some (.waiting .orphan)) := by
    decide +kernel
  obtain ⟨s, hs, hfacts⟩ := map_eq_some_iff.1 hrun
  obtain ⟨hphase, hc⟩ := Prod.mk.inj hfacts
  exact ⟨s, hs, hphase, dispositions_attended _ overlapping s hs (by decide +kernel) 1 _ hc rfl⟩

def lateRegistration : List Action :=
  [.register "a" "1" 10, .boot, .sendAdd 0, .receive, .dispose 0 .release, .sendDisposition 0,
    .receive, .decrement, .register "b" "2" 10, .stop, .sendAdd 1, .dispose 1 .release,
    .sendDisposition 1]

theorem release_waits_without_manager :
    ¬∀ (cfg : Config) (acts : List Action) (s : Lifecycle) (i : ℕ) (c : Caller),
      exec (Lifecycle.step cfg) {} acts = some s → s.callers[i]? = some c → c.requested = true →
        s.phase ≠ .absent ∨ Attended cfg s i := by
  intro h
  have hrun : ((exec (Lifecycle.step ⟨fun ttl ↦ ttl / 2⟩) {} lateRegistration).map fun s ↦
      (s.phase, s.callers[1]?)) = some (.absent, some (.waiting .release)) := by
    decide +kernel
  obtain ⟨s, hs, hfacts⟩ := map_eq_some_iff.1 hrun
  obtain ⟨hphase, hc⟩ := Prod.mk.inj hfacts
  obtain hpresent | ⟨s', hleads, hdone⟩ := h _ lateRegistration s 1 _ hs hc rfl
  · exact hpresent hphase
  · rw [hleads.eq_of_absent hphase hc, hc] at hdone
    cases hdone

end GoCell.DistLock
