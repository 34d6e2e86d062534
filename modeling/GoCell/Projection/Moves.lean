import GoCell.Projection.ReadModel

namespace GoCell.Projection

open Foundation Kernel Coordinator

variable {Ev Model : Type} {p : Spec Ev Model}

def RebuildPc.gateOpen : RebuildPc → Bool
  | .idle _ | .shutGate | .live _ => true
  | _ => false

def RebuildPc.isIdle : RebuildPc → Bool
  | .idle _ => true
  | _ => false

theorem RebuildPc.gateOpen_of_isIdle {pc : RebuildPc} (h : pc.isIdle = true) :
    pc.gateOpen = true := by
  cases pc with
  | idle _ => rfl
  | _ => cases h

/-- The transitions of a coordinator, one for each atomic step of the rebuild goroutine and of the
live handler. -/
@[grind intro] inductive Moves (p : Spec Ev Model) (s : Coordinator Ev Model) :
    Action Ev → Coordinator Ev Model → Prop
  | append {e : Ev} (he : lastPos p.position s.journal < p.position e) :
      Moves p s (.append e) { s with journal := s.journal ++ [e] }
  | refused (hpc : ∀ last, s.rebuild ≠ .idle last) : Moves p s .startRebuild s
  | started {last : Option RebuildResult} (hpc : s.rebuild = .idle last) :
      Moves p s .startRebuild { s with rebuild := .shutGate }
  | shutGate {fault : Fault} (hpc : s.rebuild = .shutGate) :
      Moves p s (.rebuildStep fault) { s with gate := s.gate + 1, rebuild := .captureHead }
  | failed {fault : Fault} (hpc : s.rebuild.gateOpen = false) :
      Moves p s (.rebuildStep fault) s.failRebuild
  | captureHead {fault : Fault} (hpc : s.rebuild = .captureHead) :
      Moves p s (.rebuildStep fault) { s with rebuild := .reset (lastPos p.position s.journal) }
  | reset {fault : Fault} {head0 : ℕ} (hpc : s.rebuild = .reset head0) :
      Moves p s (.rebuildStep fault)
        { s with readSide := resetPhase p, rebuild := .drain .replay head0 head0 }
  | replay {fault : Fault} {stage : Stage} {head0 through : ℕ}
      (hpc : s.rebuild = .drain stage head0 through) :
      Moves p s (.rebuildStep fault)
        { s with
          rebuild := .replaying stage head0 through (Coordinator.drainFrom stage head0)
            (lastPos p.position s.journal) }
  | entry {fault : Fault} {stage : Stage} {head0 through cursor due : ℕ} {e : Ev}
      {r : ReadSide Ev Model} (hpc : s.rebuild = .replaying stage head0 through cursor due)
      (he : (since p.position s.journal cursor).head? = some e)
      (hr : drainEntry p s.readSide e = .ok r) :
      Moves p s (.rebuildStep fault)
        { s with readSide := r, rebuild := .replaying stage head0 through (p.position e) due }
  | cutoff {fault : Fault} {stage : Stage} {head0 through cursor due : ℕ} {e : Ev}
      {r : ReadSide Ev Model} (hpc : s.rebuild = .replaying stage head0 through cursor due)
      (he : (since p.position s.journal cursor).head? = some e)
      (hr : drainEntry p s.readSide e = .ok r) (hthrough : through ≤ p.position e) :
      Moves p s (.rebuildStep fault)
        { s with readSide := r, rebuild := Stage.next head0 through stage }
  | replayEnd {stage : Stage} {head0 through cursor due : ℕ}
      (hpc : s.rebuild = .replaying stage head0 through cursor due) (hdue : due ≤ cursor) :
      Moves p s .replayEnd { s with rebuild := Stage.next head0 through stage }
  | catchup {fault : Fault} {head0 : ℕ} (hpc : s.rebuild = .catchup head0) :
      Moves p s (.rebuildStep fault)
        { s with rebuild := .drain .catchup head0 (lastPos p.position s.journal) }
  | degraded {fault : Fault} {head0 : ℕ} (hpc : s.rebuild = .catchup head0) :
      Moves p s (.rebuildStep fault) { s with rebuild := .openGate (.succeeded head0 none) }
  | openGate {fault : Fault} {result : RebuildResult} (hpc : s.rebuild = .openGate result) :
      Moves p s (.rebuildStep fault)
        { s with opened := s.gate :: s.opened, rebuild := .live result }
  | live {fault : Fault} {result : RebuildResult} (hpc : s.rebuild = .live result) :
      Moves p s (.rebuildStep fault) { s with rebuild := .idle (some result) }
  | deliver {e : Ev} (hlive : s.live = .idle) (he : s.nextLive p = some e) :
      Moves p s .deliver { s with live := .gated e s.gate }
  | passGate {e : Ev} {gate : ℕ} (hlive : s.live = .gated e gate) (hgate : gate ∈ s.opened) :
      Moves p s .passGate { s with live := .admitted e }
  | commitLive {e : Ev} {r : ReadSide Ev Model} (hlive : s.live = .admitted e)
      (hr : applyOne p s.readSide e = .ok r) :
      Moves p s .commitLive { s with live := .idle, delivered := p.position e, readSide := r }
  | rejected {e : Ev} (hlive : s.live = .admitted e) (he : p.position e = 0) :
      Moves p s .commitLive { s with live := .idle, delivered := p.position e }
  | requeue : Moves p s .requeue { s with live := .idle }

theorem applyOne_error {r : ReadSide Ev Model} {e : Ev} {err : Err}
    (h : applyOne p r e = .error err) : p.position e = 0 := by
  by_contra hne
  have hpos : decide (1 ≤ p.position e) = true := decide_eq_true (by omega)
  have hres : resolvePosition p r e =
      .ok (p.position e, !decide (p.position e ≤ r.checkpoint)) := by
    rw [resolvePosition, hpos]
    rfl
  rw [applyOne, hres] at h
  change (if _ then Except.ok _ else Except.ok r) = Except.error err at h
  split_ifs at h

theorem moves_drainStep {s : Coordinator Ev Model} {fault : Fault} {stage : Stage}
    {head0 through cursor due : ℕ} {e : Ev}
    (hpc : s.rebuild = .replaying stage head0 through cursor due)
    (he : (since p.position s.journal cursor).head? = some e) :
    Moves p s (.rebuildStep fault) (s.drainStep p stage head0 through due e) := by
  unfold drainStep
  cases hr : drainEntry p s.readSide e with
  | error err => exact .failed (by rw [hpc]; rfl)
  | ok r =>
    dsimp only
    split_ifs with hthrough
    · exact .cutoff hpc he hr hthrough.2
    · exact .entry hpc he hr

theorem moves_rebuildStep {s t : Coordinator Ev Model} {fault : Fault}
    (h : s.rebuildStep p fault = some t) : Moves p s (.rebuildStep fault) t := by
  unfold rebuildStep at h
  cases hpc : s.rebuild with
  | replaying =>
    simp only [hpc] at h
    split_ifs at h
    · obtain ⟨e, he, rfl⟩ := Option.map_eq_some_iff.1 h
      exact moves_drainStep hpc he
    · cases h
      exact .failed (by rw [hpc]; rfl)
  | catchup head0 =>
    simp only [hpc] at h
    cases fault <;> grind -ring -linarith [RebuildPc.gateOpen]
  | _ => grind -ring -linarith [RebuildPc.gateOpen]

theorem moves_step {s t : Coordinator Ev Model} {a : Action Ev} (h : s.step p a = some t) :
    Moves p s a t := by
  cases a with
  | rebuildStep fault => exact moves_rebuildStep h
  | commitLive => grind -ring -linarith [step, commitLive, applyOne_error]
  | replayEnd => grind -ring -linarith [step, drained]
  | deliver => grind -ring -linarith [step, Option.map_eq_some_iff]
  | _ => grind -ring -linarith [step]

end GoCell.Projection
