import GoCell.Saga.MemJournal

namespace GoCell.Saga

open Foundation Kernel List Option

def terminalStatus : EventKind → Option Status
  | .sagaSucceeded => some .succeeded
  | .sagaFailed => some .failed
  | .sagaCompensated => some .compensated
  | .sagaExpired => some .expired
  | .sagaCompensationFailed => some .compensationFailed
  | _ => none

def statusTo (s t : Status) : Option Status := if s.canTransitionTo t then some t else none

/-- The effect of one event kind on the projected status; `none` if it is out of phase. -/
def statusAfter (s : Status) (kind : EventKind) : Option Status :=
  match kind with
  | .stepStarted | .stepCompleted | .stepFailed =>
    if s = .pending ∨ s = .running then some .running else none
  | .compensationStarted => statusTo s .compensating
  | .stepCompensated | .stepCompensationFailed =>
    if s = .compensating then some .compensating else none
  | _ => (terminalStatus kind).bind (statusTo s)

def projectLog (log : List Event) : Option Status :=
  (log.map Event.kind).foldlM statusAfter .pending

theorem projectLog_append (log : List Event) (e : Event) :
    projectLog (log ++ [e]) = (projectLog log).bind fun s ↦ statusAfter s e.kind := by
  simp [projectLog, foldlM_append]

variable {kind : EventKind} {s : Status}

theorem terminalEventKind_status (h : terminalEventKind s = some kind) :
    ∀ src, statusAfter src kind = statusTo src s := by
  intro src
  cases s <;> simp only [terminalEventKind, some.injEq, reduceCtorEq] at h <;>
    subst h <;> rfl

theorem statusAfter_terminal (h : s.isTerminal = true) (kind : EventKind) :
    statusAfter s kind = none := by
  have hto : ∀ t, statusTo s t = none := by
    intro t
    simp [statusTo, terminal_has_no_transition h]
  have hs : s ≠ .pending ∧ s ≠ .running ∧ s ≠ .compensating := by
    refine ⟨?_, ?_, ?_⟩ <;> rintro rfl <;> cases h
  cases kind <;> simp [statusAfter, hto, hs, terminalStatus]

theorem statusAfter_isTerminal {s t : Status} (h : statusAfter s kind = some t) :
    t.isTerminal = kind.isTerminal := by
  have hto : ∀ {u}, statusTo s u = some t → t = u := by
    intro u hu
    simp only [statusTo] at hu
    split_ifs at hu
    exact (some.inj hu).symm
  cases kind <;> simp only [statusAfter, terminalStatus, bind_some, bind_none, reduceCtorEq] at h
  case compensationStarted | sagaSucceeded | sagaFailed | sagaCompensated | sagaExpired |
      sagaCompensationFailed =>
    rw [hto h]
    rfl
  all_goals
    split_ifs at h
    cases h
    rfl

variable {log : List Event}

theorem projectLog_open (h : projectLog log = some s)
    (hs : s.isTerminal = false) : ∀ e ∈ log, e.kind.isTerminal = false := by
  induction log using reverseRecOn generalizing s with
  | nil => simp
  | append_singleton log e ih =>
    rw [projectLog_append, bind_eq_some_iff] at h
    obtain ⟨t, ht, he⟩ := h
    have hlog : t.isTerminal = false := by
      cases htt : t.isTerminal with
      | false => rfl
      | true => simp [statusAfter_terminal htt] at he
    intro e' he'
    rcases mem_append.1 he' with hmem | hmem
    · exact ih ht hlog e' hmem
    · rw [mem_singleton.1 hmem, ← statusAfter_isTerminal he, hs]

theorem projectLog_dropLast (h : projectLog log = some s) :
    ∀ e ∈ log.dropLast, e.kind.isTerminal = false := by
  induction log using reverseRecOn with
  | nil => simp
  | append_singleton =>
    rw [projectLog_append, bind_eq_some_iff] at h
    obtain ⟨t, ht, he⟩ := h
    rw [dropLast_concat]
    refine projectLog_open ht ?_
    cases htt : t.isTerminal with
    | false => rfl
    | true => simp [statusAfter_terminal htt] at he

theorem statusAfter_active {s t : Status} (h : statusAfter s kind = some t) :
    t ≠ .pending ∧ t ≠ .unknown := by
  have hto : ∀ {u}, statusTo s u = some t → s.canTransitionTo t = true := by
    intro u hu
    simp only [statusTo] at hu
    split_ifs at hu with hcan
    exact some.inj hu ▸ hcan
  have hcan : s.canTransitionTo t = true → t ≠ .pending ∧ t ≠ .unknown := by
    intro hcan
    refine ⟨?_, ?_⟩ <;> rintro rfl <;> cases s <;>
      simp [Status.canTransitionTo, statusTransitions] at hcan
  cases kind <;> simp only [statusAfter, terminalStatus, bind_some, bind_none, reduceCtorEq] at h
  case compensationStarted | sagaSucceeded | sagaFailed | sagaCompensated | sagaExpired |
      sagaCompensationFailed => exact hcan (hto h)
  all_goals
    split_ifs at h
    cases h
    simp

theorem projectLog_pending (h : projectLog log = some .pending) : log = [] := by
  induction log using reverseRecOn with
  | nil => rfl
  | append_singleton =>
    rw [projectLog_append, bind_eq_some_iff] at h
    obtain ⟨t, -, he⟩ := h
    exact absurd rfl (statusAfter_active he).1

theorem projectLog_known (h : projectLog log = some s) : s ≠ .unknown := by
  induction log using reverseRecOn with
  | nil =>
    obtain rfl : Status.pending = s := some.inj h
    simp
  | append_singleton =>
    rw [projectLog_append, bind_eq_some_iff] at h
    obtain ⟨t, -, he⟩ := h
    exact (statusAfter_active he).2

variable {inst inst' : Instance}

theorem advanceSaga_status {dst : Status} {now : Time} (h : advanceSaga inst dst now = .ok inst') :
    statusTo inst.status dst = some inst'.status ∧ inst'.status = dst := by
  obtain ⟨ht, -, -, rfl⟩ := advanceSaga_ok.1 h
  exact ⟨if_pos ht, rfl⟩

theorem applyProjection_status {now : Time}
    (hvalid : kind.valid = true) (hterm : kind.isTerminal = false)
    (h : applyProjection inst kind now = .ok inst') :
    statusAfter inst.status kind = some inst'.status := by
  cases kind
  case stepStarted | stepCompleted | stepFailed =>
    simp only [applyProjection] at h
    cases hs : inst.status <;> simp only [hs, reduceCtorEq, Except.ok.injEq] at h
    · simp [statusAfter, (advanceSaga_status h).2]
    · subst h
      simp [statusAfter, hs]
  case compensationStarted => exact (advanceSaga_status h).1
  case stepCompensated | stepCompensationFailed =>
    simp only [applyProjection] at h
    split_ifs at h with hs
    cases h
    simp [statusAfter, hs]
  case unknown => simp [EventKind.valid] at hvalid
  all_goals cases hterm

def Instance.origin (i : Instance) : SafeID × SafeID × Time := (i.id, i.definitionID, i.startedAt)

theorem advanceSaga_origin {dst : Status} {now : Time}
    (h : advanceSaga inst dst now = .ok inst') : inst'.origin = inst.origin := by
  obtain ⟨-, -, -, rfl⟩ := advanceSaga_ok.1 h
  rfl

section

variable {inst inst' : Instance} {kind : EventKind} {now : Time}
  (h : applyProjection inst kind now = .ok inst')
include h

theorem applyProjection_cases : inst' = inst ∨ ∃ dst, advanceSaga inst dst now = .ok inst' := by
  cases kind
  case stepStarted | stepCompleted | stepFailed =>
    cases hs : inst.status <;>
      simp only [applyProjection, hs, reduceCtorEq, Except.ok.injEq] at h
    · exact .inr ⟨_, h⟩
    · exact .inl h.symm
  case compensationStarted => exact .inr ⟨_, h⟩
  case stepCompensated | stepCompensationFailed =>
    simp only [applyProjection] at h
    split_ifs at h
    exact .inl (Except.ok.inj h).symm
  all_goals exact .inl (Except.ok.inj h).symm

theorem applyProjection_origin : inst'.origin = inst.origin := by
  rcases applyProjection_cases h with rfl | ⟨dst, hdst⟩
  · rfl
  · exact advanceSaga_origin hdst

end

def replayEvent (inst : Instance) (e : Event) : Except Err Instance :=
  match terminalStatus e.kind with
  | some final => advanceSaga inst final e.createdAt
  | none => applyProjection inst e.kind e.createdAt

def replayLog (origin : SafeID × SafeID × Time) (log : List Event) : Except Err Instance :=
  log.foldlM replayEvent (newInstance origin.1 origin.2.1 origin.2.2)

theorem replayLog_append (origin : SafeID × SafeID × Time) (log : List Event) (e : Event) :
    replayLog origin (log ++ [e]) = replayLog origin log >>= fun inst ↦ replayEvent inst e := by
  simp [replayLog, foldlM_append]

theorem replayEvent_open {inst : Instance} {e : Event} (h : e.kind.isTerminal = false) :
    replayEvent inst e = applyProjection inst e.kind e.createdAt := by
  unfold replayEvent
  cases hk : e.kind <;> simp only [hk, EventKind.isTerminal, reduceCtorEq] at h <;> rfl

theorem replayEvent_terminal {inst : Instance} {e : Event} {final : Status}
    (h : terminalEventKind final = some e.kind) :
    replayEvent inst e = advanceSaga inst final e.createdAt := by
  unfold replayEvent
  cases final <;> simp only [terminalEventKind, some.injEq, reduceCtorEq] at h <;>
    rw [← h] <;> rfl

end GoCell.Saga
