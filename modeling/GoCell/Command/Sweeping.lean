import GoCell.Command.Entry

namespace GoCell.Command

open Foundation Kernel List

namespace Entry

def overdue (e : Entry) (now : Time) : Bool :=
  elapsed e .overall now || elapsed e .sendToComplete now || elapsed e .scheduleToSend now

/-- The phase in which the command is reported; `OverallDeadline` spans both phases. -/
def overduePhase (e : Entry) (now : Time) : TimeoutPhase :=
  if elapsed e .overall now then .overall
  else if elapsed e .sendToComplete now then .sendToComplete
  else .scheduleToSend

end Entry

def TimeoutPhase.reason : TimeoutPhase → String
  | .overall => "phase_overall_deadline"
  | .sendToComplete => "phase_send_to_complete"
  | .scheduleToSend => "phase_schedule_to_send"

/-- The phase `phase` lies before the sending or after it, as the command does. -/
def TimeoutPhase.Current (e : Entry) : TimeoutPhase → Prop
  | .scheduleToSend => e.sentAt = none
  | .sendToComplete => e.sentAt ≠ none
  | .overall => True

variable {e : Entry} {now : Time}

theorem checkExpiry_eq (e : Entry) (now : Time) :
    checkExpiry e now =
      if e.overdue now then
        some ⟨e.id, e.status, .expired, (e.overduePhase now).reason⟩ else none := by
  unfold checkExpiry Entry.overdue Entry.overduePhase
  cases elapsed e .overall now with
  | true => rfl
  | false =>
    cases elapsed e .sendToComplete now with
    | true | false => rfl

theorem sentAt_of_elapsed (h : elapsed e .sendToComplete now = true) : e.sentAt ≠ none := by
  intro hnone
  simp [elapsed, Entry.deadlineFor, hnone] at h

theorem current_overduePhase_iff (h : e.overdue now = true) :
    (e.overduePhase now).Current e ↔ (elapsed e .scheduleToSend now = true → e.sentAt ≠ none →
      elapsed e .overall now = true ∨ elapsed e .sendToComplete now = true) := by
  unfold Entry.overduePhase
  split_ifs with hoverall hsend
  · simp [TimeoutPhase.Current, hoverall]
  · simp [TimeoutPhase.Current, hsend, sentAt_of_elapsed hsend]
  · have hschedule : elapsed e .scheduleToSend now = true := by
      simpa [Entry.overdue, hoverall, hsend] using h
    simp [TimeoutPhase.Current, hoverall, hsend, hschedule]

/-- A sweep expires each open command that is past a deadline, once. The phases it reports are those
of the commands exactly when no command that was sent is past the deadline for its sending alone,
and `OverallDeadline` is reported for sent commands only when no other one is past it. -/
theorem sweepOnce_phases_iff (entries : List Entry) (now : Time) :
    sweepOnce entries now = (entries.filter fun e ↦ !e.status.isTerminal && e.overdue now).map
          (fun e ↦ ⟨e.id, e.status, .expired, (e.overduePhase now).reason⟩) ∧
      ((∀ e ∈ entries, e.status.isTerminal = false → e.overdue now = true →
          (e.overduePhase now).Current e) ↔
        ∀ e ∈ entries, e.status.isTerminal = false → elapsed e .scheduleToSend now = true →
          e.sentAt ≠ none →
          elapsed e .overall now = true ∨ elapsed e .sendToComplete now = true) ∧
      ((∀ e ∈ entries, e.status.isTerminal = false → e.overdue now = true →
          e.overduePhase now = .overall → e.sentAt ≠ none) ↔
        ∀ e ∈ entries, e.status.isTerminal = false → elapsed e .overall now = true →
          e.sentAt ≠ none) := by
  refine ⟨?_, ?_, ?_⟩
  · rw [sweepOnce, ← filterMap_eq_map, filterMap_filter]
    refine filterMap_congr fun e _ ↦ ?_
    cases hterminal : e.status.isTerminal with
    | true => rfl
    | false => simp [checkExpiry_eq]
  · refine forall₃_congr fun e _ _ ↦ ?_
    constructor
    · intro h hschedule
      have hoverdue : e.overdue now = true := by simp [Entry.overdue, hschedule]
      exact (current_overduePhase_iff hoverdue).1 (h hoverdue) hschedule
    · intro h hoverdue
      exact (current_overduePhase_iff hoverdue).2 h
  · refine forall₃_congr fun e _ _ ↦ ?_
    cases hoverall : elapsed e .overall now with
    | true => simp [Entry.overdue, Entry.overduePhase, hoverall]
    | false =>
      have hphase : e.overduePhase now ≠ .overall := by
        grind -ring -linarith [Entry.overduePhase]
      simp [hphase]

def sentInTime : Entry where
  id := "c-1"
  deviceID := "d-1"
  commandType := "reboot"
  payload := [0x7b, 0x7d]
  timeouts := { scheduleToSend := 10, sendToComplete := 100 }
  createdAt := 1

/-- The command is sent after five of ten nanoseconds and expires after ten, as if it had not been
sent. -/
theorem sent_command_expires :
    ¬∀ (e e' : Entry) (sent now : Time), e.validateNew = .ok () →
      advanceCommand e .sent sent = .ok e' → ∀ t ∈ sweepOnce [e'] now,
        t.reason = TimeoutPhase.scheduleToSend.reason → e'.sentAt = none := by
  intro h
  have hnone := h sentInTime (sentInTime.moved .sent 6) 6 12 (by decide +kernel)
    (advanceCommand_sent rfl rfl 6) ⟨"c-1", .sent, .expired, "phase_schedule_to_send"⟩
    (by decide +kernel) rfl
  cases hnone

end GoCell.Command
