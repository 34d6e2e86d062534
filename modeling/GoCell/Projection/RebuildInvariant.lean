import GoCell.Projection.Moves

namespace GoCell.Projection

open Foundation Kernel List Option

variable {Ev Model : Type} {p : Spec Ev Model} {s t : Coordinator Ev Model} {a : Action Ev}

/-- `e` is the first own event after the last acknowledged one. -/
structure Next (p : Spec Ev Model) (journal : List Ev) (delivered : ℕ) (e : Ev) : Prop where
  mem : e ∈ journal
  own : p.own e = true
  after : delivered < p.position e
  first : ∀ b ∈ journal, p.own b = true → delivered < p.position b → p.position e ≤ p.position b

theorem Next.append {journal : List Ev} {delivered : ℕ} {e b : Ev}
    (h : Next p journal delivered e) (hj : Ascending p.position journal)
    (hb : lastPos p.position journal < p.position b) :
    Next p (journal ++ [b]) delivered e := by
  refine ⟨mem_append_left _ h.mem, h.own, h.after, fun c hc hown hlt ↦ ?_⟩
  rcases mem_append.1 hc with hc | hc
  · exact h.first c hc hown hlt
  · rw [mem_singleton.1 hc]
    have hle := le_lastPos hj h.mem
    omega

theorem next_of_nextLive {e : Ev} (hj : Ascending p.position s.journal)
    (h : s.nextLive p = some e) : Next p s.journal s.delivered e := by
  obtain ⟨hown, before, after, hsince, hbefore⟩ := find?_eq_some_iff_append.1 h
  have hmem : e ∈ since p.position s.journal s.delivered := by
    rw [hsince]
    exact mem_append_right _ mem_cons_self
  obtain ⟨hej, hafter⟩ := mem_since.1 hmem
  refine ⟨hej, hown, hafter, fun b hb hbown hlt ↦ ?_⟩
  have hbs : b ∈ since p.position s.journal s.delivered := mem_since.2 ⟨hb, hlt⟩
  have hasc := since_ascending hj s.delivered
  rw [hsince] at hbs hasc
  rcases mem_append.1 hbs with hbs | hbs
  · have hnot := hbefore b hbs
    rw [hbown] at hnot
    cases hnot
  · rcases mem_cons.1 hbs with rfl | hbs
    · exact le_rfl
    · have hlt' := (pairwise_cons.1 (pairwise_append.1 hasc).2.1).1 b hbs
      exact hlt'.le

def LivePc.event : LivePc Ev → Option Ev
  | .idle => none
  | .gated e _ | .admitted e => some e

def LivePc.mayCommit (opened : List ℕ) : LivePc Ev → Option Ev
  | .idle => none
  | .gated e gate => if gate ∈ opened then some e else none
  | .admitted e => some e

theorem LivePc.event_of_mayCommit {live : LivePc Ev} {opened : List ℕ} {e : Ev}
    (h : live.mayCommit opened = some e) : live.event = some e := by
  cases live with
  | idle => cases h
  | gated =>
    simp only [mayCommit] at h
    split_ifs at h
    exact h
  | admitted b => exact h

def RebuildResult.isSuccess : RebuildResult → Bool
  | .succeeded _ _ => true
  | .failed => false

def RebuildPc.head0 : RebuildPc → Option ℕ
  | .reset head0 | .drain _ head0 _ | .replaying _ head0 _ _ _ | .catchup head0
  | .openGate (.succeeded head0 _) => some head0
  | _ => none

theorem RebuildPc.gateOpen_of_head0 {pc : RebuildPc} {head0 : ℕ} (h : pc.head0 = some head0) :
    pc.gateOpen = false := by
  cases pc with
  | idle | shutGate | live => cases h
  | _ => rfl

structure Coordinator.Sound (p : Spec Ev Model) (s : Coordinator Ev Model) : Prop where
  ascending : Ascending p.position s.journal
  positive : ∀ e ∈ s.journal, 1 ≤ p.position e
  opened_le : ∀ gate ∈ s.opened, gate ≤ s.gate
  gate_opened : s.gate ∈ s.opened ↔ s.rebuild.gateOpen = true
  delivered_le : s.delivered ≤ lastPos p.position s.journal
  next : ∀ e, s.live.event = some e → Next p s.journal s.delivered e
  window : ∀ head0, s.rebuild.head0 = some head0 → s.delivered ≤ head0 ∧
    ∀ e, s.live.mayCommit s.opened = some e → p.position e ≤ head0

theorem Coordinator.Sound.rebuild (h : s.Sound p) {pc : RebuildPc} {r : ReadSide Ev Model}
    (hgate : pc.gateOpen = s.rebuild.gateOpen)
    (hhead : ∀ head0, pc.head0 = some head0 → s.rebuild.head0 = some head0) :
    ({ s with readSide := r, rebuild := pc } : Coordinator Ev Model).Sound p where
  ascending := h.ascending
  positive := h.positive
  opened_le := h.opened_le
  gate_opened := by
    change s.gate ∈ s.opened ↔ pc.gateOpen = true
    rw [hgate]
    exact h.gate_opened
  delivered_le := h.delivered_le
  next := h.next
  window := fun head0 hpc ↦ h.window head0 (hhead head0 hpc)

theorem Stage.next_gateOpen (stage : Stage) (head0 through : ℕ) :
    (stage.next head0 through).gateOpen = false := by
  cases stage <;> rfl

theorem Stage.next_head0 (stage : Stage) (head0 through : ℕ) :
    (stage.next head0 through).head0 = some head0 := by
  cases stage <;> rfl

theorem Coordinator.Sound.moves (h : s.Sound p) (hm : Moves p s a t) : t.Sound p := by
  cases hm with
  | append he =>
    refine { h with
      ascending := ?_
      positive := ?_
      delivered_le := ?_
      next := fun b hb ↦ (h.next b hb).append h.ascending he }
    · refine ascending_concat.2 ⟨h.ascending, fun b hb ↦ ?_⟩
      have hle := le_lastPos h.ascending hb
      omega
    · intro b hb
      rcases mem_append.1 hb with hb | hb
      · exact h.positive b hb
      · rw [mem_singleton.1 hb]
        omega
    · have hle := h.delivered_le
      change s.delivered ≤ lastPos p.position (s.journal ++ [_])
      rw [lastPos_concat]
      omega
  | refused hpc => exact h
  | shutGate hpc =>
    refine { h with opened_le := ?_, gate_opened := ?_, window := fun _ h ↦ by cases h }
    · intro gate hgate
      exact Nat.le_succ_of_le (h.opened_le gate hgate)
    · change s.gate + 1 ∈ s.opened ↔ false = true
      constructor
      · intro hmem
        have hle := h.opened_le _ hmem
        omega
      · intro hfalse
        cases hfalse
  | captureHead hpc =>
    refine { h with gate_opened := ?_, window := ?_ }
    · have hgate := h.gate_opened
      rw [hpc] at hgate
      exact hgate
    · intro head0 hhead
      cases hhead
      refine ⟨h.delivered_le, fun e he ↦ ?_⟩
      exact le_lastPos h.ascending (h.next e (LivePc.event_of_mayCommit he)).mem
  | openGate hpc =>
    refine { h with opened_le := ?_, gate_opened := ?_, window := fun _ h ↦ by cases h }
    · intro gate hgate
      rcases mem_cons.1 hgate with rfl | hgate
      · exact le_rfl
      · exact h.opened_le gate hgate
    · exact iff_of_true mem_cons_self rfl
  | deliver hlive he =>
    refine { h with next := ?_, window := ?_ }
    · intro b hb
      cases hb
      exact next_of_nextLive h.ascending he
    · intro head0 hhead
      refine ⟨(h.window head0 hhead).1, fun b hb ↦ ?_⟩
      have hshut : s.gate ∉ s.opened := by
        rw [h.gate_opened, RebuildPc.gateOpen_of_head0 hhead]
        exact Bool.false_ne_true
      simp only [LivePc.mayCommit, if_neg hshut] at hb
      cases hb
  | passGate hlive hgate =>
    refine { h with next := ?_, window := ?_ }
    · intro b hb
      exact h.next b (by rw [hlive]; exact hb)
    · intro head0 hhead
      refine ⟨(h.window head0 hhead).1, fun b hb ↦ (h.window head0 hhead).2 b ?_⟩
      rw [hlive, LivePc.mayCommit, if_pos hgate]
      exact hb
  | commitLive hlive hr =>
    have hnext := h.next _ (by rw [hlive]; rfl)
    refine { h with
      delivered_le := le_lastPos h.ascending hnext.mem
      next := fun _ h ↦ by cases h
      window := fun head0 hhead ↦ ⟨?_, fun _ h ↦ by cases h⟩ }
    exact (h.window head0 hhead).2 _ (by rw [hlive]; rfl)
  | rejected hlive he =>
    have hnext := h.next _ (by rw [hlive]; rfl)
    have hpos := h.positive _ hnext.mem
    omega
  | requeue =>
    exact { h with
      next := fun _ h ↦ by cases h
      window := fun head0 hhead ↦ ⟨(h.window head0 hhead).1, fun _ h ↦ by cases h⟩ }
  | _ =>
    -- the goroutine goes on and keeps its gate and its head
    exact h.rebuild (by grind -ring -linarith [RebuildPc.gateOpen, Stage.next_gateOpen])
      (by grind -ring -linarith [RebuildPc.head0, Stage.next_head0])

def RebuildPc.afterReset : RebuildPc → Bool
  | .drain .. | .replaying .. | .catchup _ => true
  | .openGate result | .live result | .idle (some result) => result.isSuccess
  | _ => false

def Stage.Begun (checkpoint head0 through : ℕ) : Stage → Prop
  | .replay => through = head0
  | .catchup => head0 ≤ checkpoint

def RebuildResult.Reached (checkpoint : ℕ) : RebuildResult → Prop
  | .succeeded head0 head1 => head0 ≤ checkpoint ∧ ∀ head ∈ head1, head ≤ checkpoint
  | .failed => True

/-- How the checkpoint stands to the positions that the rebuild goroutine holds. `last` is the last
position of the journal. -/
def RebuildPc.Progress (checkpoint last : ℕ) : RebuildPc → Prop
  | .reset head0 => head0 ≤ last
  | .drain stage head0 through => stage.Begun checkpoint head0 through ∧ through ≤ last
  | .replaying stage head0 through cursor due =>
    stage.Begun checkpoint head0 through ∧ through ≤ due ∧ cursor ≤ checkpoint
  | .catchup head0 => head0 ≤ checkpoint
  | .openGate result | .live result | .idle (some result) => result.Reached checkpoint
  | _ => True

section

variable {checkpoint checkpoint' last last' : ℕ}

theorem Stage.Begun.mono {stage : Stage} {head0 through : ℕ}
    (h : stage.Begun checkpoint head0 through) (hle : checkpoint ≤ checkpoint') :
    stage.Begun checkpoint' head0 through := by
  cases stage with
  | replay => exact h
  | catchup => exact Nat.le_trans h hle

theorem RebuildResult.Reached.mono {result : RebuildResult} (h : result.Reached checkpoint)
    (hle : checkpoint ≤ checkpoint') : result.Reached checkpoint' := by
  cases result with
  | succeeded => exact ⟨h.1.trans hle, fun head hhead ↦ (h.2 head hhead).trans hle⟩
  | failed => trivial

theorem RebuildPc.Progress.mono {pc : RebuildPc} (h : pc.Progress checkpoint last)
    (hle : checkpoint ≤ checkpoint') (hlast : last ≤ last') : pc.Progress checkpoint' last' := by
  cases pc with
  | idle result =>
    cases result with
    | none => trivial
    | some => exact RebuildResult.Reached.mono h hle
  | shutGate | captureHead => trivial
  | reset head0 => exact Nat.le_trans h hlast
  | drain => exact ⟨h.1.mono hle, h.2.trans hlast⟩
  | replaying => exact ⟨h.1.mono hle, h.2.1, h.2.2.trans hle⟩
  | catchup head0 => exact Nat.le_trans h hle
  | openGate | live => exact RebuildResult.Reached.mono h hle

section

variable {stage : Stage} {head0 through : ℕ} (h : stage.Begun checkpoint head0 through)
include h

theorem Stage.Begun.next (hle : through ≤ checkpoint) :
    (stage.next head0 through).Progress checkpoint last := by
  cases stage with
  | replay =>
    have heq : through = head0 := h
    rw [heq] at hle
    exact hle
  | catchup =>
    refine ⟨h, fun head hhead ↦ ?_⟩
    cases hhead
    exact hle

theorem Stage.Begun.drainFrom_le :
    Coordinator.drainFrom stage head0 ≤ checkpoint := by
  cases stage with
  | replay => exact Nat.zero_le _
  | catchup => exact h

end

theorem Stage.next_afterReset (stage : Stage) (head0 through : ℕ) :
    (stage.next head0 through).afterReset = true := by
  cases stage <;> rfl

end

structure Coordinator.Progressed (p : Spec Ev Model) (s : Coordinator Ev Model) : Prop where
  progress : s.rebuild.Progress s.readSide.checkpoint (lastPos p.position s.journal)
  handedOver : s.rebuild.afterReset = true → s.rebuild.gateOpen = true →
    s.delivered ≤ s.readSide.checkpoint

theorem Coordinator.Progressed.rebuild {pc : RebuildPc} {r : ReadSide Ev Model}
    (hpc : pc.Progress r.checkpoint (lastPos p.position s.journal))
    (hshut : pc.afterReset = true → pc.gateOpen = false) :
    ({ s with readSide := r, rebuild := pc } : Coordinator Ev Model).Progressed p where
  progress := hpc
  handedOver := by
    intro hreset hopen
    have hclosed := hshut hreset
    rw [show pc.gateOpen = true from hopen] at hclosed
    cases hclosed

theorem Coordinator.Progressed.moves (h : s.Progressed p) (hs : s.Sound p) (hm : Moves p s a t) :
    t.Progressed p := by
  have hprogress := h.progress
  cases hm with
  | append he =>
    refine ⟨hprogress.mono le_rfl ?_, h.handedOver⟩
    change _ ≤ lastPos p.position (s.journal ++ [_])
    rw [lastPos_concat]
    exact he.le
  | refused hpc => exact h
  | started | failed => exact .rebuild trivial (fun h ↦ by cases h)
  | shutGate hpc => exact ⟨trivial, fun h ↦ by cases h⟩
  | captureHead hpc => exact .rebuild le_rfl (fun h ↦ by cases h)
  | reset hpc =>
    rw [hpc] at hprogress
    exact .rebuild ⟨rfl, hprogress⟩ (fun _ ↦ rfl)
  | replay hpc =>
    rw [hpc] at hprogress
    exact .rebuild ⟨hprogress.1, hprogress.2, hprogress.1.drainFrom_le⟩ (fun _ ↦ rfl)
  | entry hpc he hr =>
    rw [hpc] at hprogress
    have hadv := advances_drainEntry hr
    exact .rebuild ⟨hprogress.1.mono hadv.le, hprogress.2.1, hadv.reaches⟩ (fun _ ↦ rfl)
  | cutoff hpc he hr hthrough =>
    rw [hpc] at hprogress
    have hadv := advances_drainEntry hr
    exact .rebuild ((hprogress.1.mono hadv.le).next (hthrough.trans hadv.reaches))
      (fun _ ↦ Stage.next_gateOpen _ _ _)
  | replayEnd hpc hdue =>
    rw [hpc] at hprogress
    obtain ⟨hbegun, hthrough, hcursor⟩ := hprogress
    exact .rebuild (hbegun.next (by omega)) (fun _ ↦ Stage.next_gateOpen _ _ _)
  | catchup hpc =>
    rw [hpc] at hprogress
    exact .rebuild ⟨hprogress, le_rfl⟩ (fun _ ↦ rfl)
  | degraded hpc =>
    rw [hpc] at hprogress
    exact .rebuild ⟨hprogress, fun _ h ↦ by cases h⟩ (fun _ ↦ rfl)
  | @openGate fault result hpc =>
    rw [hpc] at hprogress
    refine ⟨hprogress, fun hreset _ ↦ ?_⟩
    cases result with
    | failed => cases hreset
    | succeeded head0 =>
      -- the handlers that the gate held back had not passed the head of the replay
      exact (hs.window head0 (by rw [hpc]; rfl)).1.trans hprogress.1
  | live hpc =>
    rw [hpc] at hprogress
    refine ⟨hprogress, fun hreset hopen ↦ ?_⟩
    exact h.handedOver (by rw [hpc]; exact hreset) (by rw [hpc]; exact hopen)
  | deliver | passGate | requeue => exact ⟨hprogress, h.handedOver⟩
  | commitLive hlive hr =>
    have hadv := advances_applyOne hr
    exact ⟨hprogress.mono hadv.le le_rfl, fun _ _ ↦ hadv.reaches⟩
  | rejected hlive he =>
    have hpos := hs.positive _ (hs.next _ (by rw [hlive]; rfl)).mem
    omega

inductive Writes (p : Spec Ev Model) (s : Coordinator Ev Model) (a : Action Ev) :
    List Ev → ReadSide Ev Model → Prop
  | nothing : Writes p s a s.journal s.readSide
  | append {e : Ev} (he : lastPos p.position s.journal < p.position e) :
      Writes p s a (s.journal ++ [e]) s.readSide
  | reset {head0 : ℕ} (hpc : s.rebuild = .reset head0) : Writes p s a s.journal (resetPhase p)
  | drain {stage : Stage} {head0 through cursor due : ℕ} {e : Ev} {r : ReadSide Ev Model}
      (hpc : s.rebuild = .replaying stage head0 through cursor due)
      (he : (since p.position s.journal cursor).head? = some e)
      (hr : drainEntry p s.readSide e = .ok r) : Writes p s a s.journal r
  | commit {e : Ev} {r : ReadSide Ev Model} (ha : a = .commitLive) (hlive : s.live = .admitted e)
      (hr : applyOne p s.readSide e = .ok r) : Writes p s a s.journal r

theorem Moves.writes (hm : Moves p s a t) (hs : s.Sound p) :
    Writes p s a t.journal t.readSide := by
  cases hm with
  | append he => exact .append he
  | reset hpc => exact .reset hpc
  | entry hpc he hr | cutoff hpc he hr => exact .drain hpc he hr
  | commitLive hlive hr => exact .commit rfl hlive hr
  | rejected hlive he =>
    have hpos := hs.positive _ (hs.next _ (by rw [hlive]; rfl)).mem
    omega
  | _ => exact .nothing

section

variable {journal : List Ev} {r : ReadSide Ev Model}

theorem Bounded.writes (h : Bounded p s.journal s.readSide) (hs : s.Sound p)
    (hw : Writes p s a journal r) : Bounded p journal r := by
  cases hw with
  | nothing => exact h
  | append he => exact h.append he
  | reset hpc => exact bounded_reset
  | drain hpc he hr =>
    exact h.advances (advances_drainEntry hr) hs.ascending
      (mem_since.1 (mem_of_mem_head? he)).1
  | commit ha hlive hr =>
    exact h.advances (advances_applyOne hr) hs.ascending (hs.next _ (by rw [hlive]; rfl)).mem

theorem Exact.writes (h : Exact p s.journal s.readSide) (hb : Bounded p s.journal s.readSide)
    (hs : s.Sound p) (hp : s.Progressed p) (hw : Writes p s a journal r)
    (hlive : ∀ e, a = .commitLive → s.live = .admitted e → ¬Skips p s.journal s.readSide e) :
    Exact p journal r := by
  cases hw with
  | nothing => exact h
  | append he => exact h.append hb he
  | reset hpc => exact exact_reset hs.positive
  | drain hpc he hr =>
    have hprogress := hp.progress
    rw [hpc] at hprogress
    exact h.drainEntry hs.ascending hprogress.2.2 he hr
  | @commit e r ha hadmitted hr =>
    have hnext := hs.next e (by rw [hadmitted]; rfl)
    rcases applyOne_ok hr with ⟨-, rfl⟩ | ⟨hlt, rfl⟩
    · exact h
    · exact h.extend hs.ascending hnext.mem hnext.own hlt (hlive e ha hadmitted)

end

theorem Next.not_skips {journal : List Ev} {r : ReadSide Ev Model} {delivered : ℕ} {e : Ev}
    (h : Next p journal delivered e)
    (hle : ∀ b ∈ journal, p.own b = true → p.position b ≤ delivered → p.position b ≤ r.checkpoint) :
    ¬Skips p journal r e := by
  rintro ⟨b, hb, hown, hgt, hlt⟩
  by_cases hdelivered : p.position b ≤ delivered
  · have hreached := hle b hb hown hdelivered
    omega
  · have hfirst := h.first b hb hown (by omega)
    omega

/-- A coordinator over an existing journal, before its first delivery and its first rebuild. The
read model and the checkpoint may be anything. -/
structure Coordinator.Fresh (p : Spec Ev Model) (s : Coordinator Ev Model) : Prop where
  ascending : Ascending p.position s.journal
  positive : ∀ e ∈ s.journal, 1 ≤ p.position e
  opened : s.opened = [s.gate]
  rebuild : s.rebuild = .idle none
  live : s.live = .idle
  delivered_le : s.delivered ≤ lastPos p.position s.journal

theorem Coordinator.Fresh.sound (h : s.Fresh p) : s.Sound p where
  ascending := h.ascending
  positive := h.positive
  opened_le := by
    intro gate hgate
    rw [h.opened] at hgate
    exact (mem_singleton.1 hgate).le
  gate_opened := by
    rw [h.opened, h.rebuild]
    exact iff_of_true mem_cons_self rfl
  delivered_le := h.delivered_le
  next := by
    rw [h.live]
    intro e he
    cases he
  window := by
    rw [h.rebuild]
    intro head0 hhead
    cases hhead

theorem Coordinator.Fresh.progressed (h : s.Fresh p) : s.Progressed p := by
  constructor
  · rw [h.rebuild]
    trivial
  · rw [h.rebuild]
    intro hreset
    cases hreset

end GoCell.Projection
