import GoCell.Projection.Rebuild

namespace GoCell.Projection

open Foundation Kernel

variable {Ev Model : Type} {p : Spec Ev Model} {s t : Coordinator Ev Model} {a : Action Ev}
  {actions : List (Action Ev)}

/-- The checkpoint is before an own event that live delivery has acknowledged, and will not deliver
again. -/
def Behind (p : Spec Ev Model) (s : Coordinator Ev Model) : Prop :=
  ∃ e ∈ s.journal, p.own e = true ∧ s.readSide.checkpoint < p.position e ∧
    p.position e ≤ s.delivered

instance (p : Spec Ev Model) (s : Coordinator Ev Model) : Decidable (Behind p s) := by
  unfold Behind
  infer_instance

def oneAfterAnother (s : Coordinator Ev Model) : Action Ev → Bool
  | .startRebuild => s.live.event.isNone
  | .deliver | .passGate | .commitLive => s.rebuild.isIdle
  | _ => true

structure Coordinator.Running (p : Spec Ev Model) (s : Coordinator Ev Model) : Prop where
  sound : s.Sound p
  progressed : s.Progressed p
  bounded : Bounded p s.journal s.readSide

theorem Coordinator.Running.step (h : s.Running p) (hstep : s.step p a = some t) :
    t.Running p := by
  have hm := moves_step hstep
  exact ⟨h.sound.moves hm, h.progressed.moves h.sound hm,
    h.bounded.writes h.sound (hm.writes h.sound)⟩

theorem Coordinator.Running.exec (h : s.Running p)
    (hrun : Foundation.exec (Coordinator.step p) s actions = some t) : t.Running p :=
  exec_invariant (Coordinator.Running p) (fun _ _ _ h hstep ↦ h.step hstep) actions s t h hrun

theorem not_skips_of_not_behind {e : Ev} (hs : s.Sound p) (hlive : s.live = .admitted e)
    (hb : ¬Behind p s) : ¬Skips p s.journal s.readSide e := by
  have hnext := hs.next e (by rw [hlive]; rfl)
  refine hnext.not_skips fun b hmem hown hle ↦ ?_
  by_contra hgt
  exact hb ⟨b, hmem, hown, not_le.1 hgt, hle⟩

theorem skips_of_behind {e : Ev} (hs : s.Sound p) (hlive : s.live = .admitted e)
    (hb : Behind p s) : Skips p s.journal s.readSide e := by
  have hnext := hs.next e (by rw [hlive]; rfl)
  obtain ⟨b, hmem, hown, hgt, hle⟩ := hb
  exact ⟨b, hmem, hown, hgt, hle.trans_lt hnext.after⟩

theorem Coordinator.Running.exact_step (h : s.Running p) (hexact : Exact p s.journal s.readSide)
    (hb : a = .commitLive → ¬Behind p s) (hstep : s.step p a = some t) :
    Exact p t.journal t.readSide := by
  have hm := moves_step hstep
  refine hexact.writes h.bounded h.sound h.progressed (hm.writes h.sound) fun e ha hlive ↦ ?_
  exact not_skips_of_not_behind h.sound hlive (hb ha)

theorem Coordinator.Running.exact_exec (h : s.Running p) (hexact : Exact p s.journal s.readSide)
    (hb : Along (Coordinator.step p) s actions fun u b ↦ b = .commitLive → ¬Behind p u)
    (hrun : Foundation.exec (Coordinator.step p) s actions = some t) :
    Exact p t.journal t.readSide := by
  have hall := exec_invariant_along (fun u ↦ u.Running p ∧ Exact p u.journal u.readSide)
    (fun u b v hu hb hstep ↦ ⟨hu.1.step hstep, hu.1.exact_step hu.2 hb hstep⟩)
    actions s t ⟨h, hexact⟩ hb hrun
  exact hall.2

theorem Coordinator.Running.missing_step (h : s.Running p) (hb : Behind p s)
    (hstep : s.step p .commitLive = some t) : Missing p t.journal t.readSide := by
  cases moves_step hstep with
  | commitLive hlive hr => exact (skips_of_behind h.sound hlive hb).missing h.bounded hr
  | rejected hlive he =>
    have hpos := h.sound.positive _ (h.sound.next _ (by rw [hlive]; rfl)).mem
    omega

theorem Coordinator.Fresh.running (h : s.Fresh p) (hreset : s.readSide = resetPhase p) :
    s.Running p := by
  refine ⟨h.sound, h.progressed, ?_⟩
  rw [hreset]
  exact bounded_reset

/-- Over live deliveries and rebuilds, one after another, that may fail anywhere: whenever the gate
is open the read model is the fold over the own events up to the checkpoint and none was passed
over, exactly when live delivery never commits while the checkpoint is behind what it has
acknowledged. -/
theorem exact_between_rebuilds_iff (hs : s.Fresh p) (hreset : s.readSide = resetPhase p)
    (hrun : exec (Coordinator.step p) s actions = some t)
    (hseq : Along (Coordinator.step p) s actions fun u a ↦ oneAfterAnother u a = true) :
    (∀ pre post u, actions = pre ++ post → exec (Coordinator.step p) s pre = some u →
        u.gate ∈ u.opened → Exact p u.journal u.readSide ∧ ¬Missing p u.journal u.readSide) ↔
      Along (Coordinator.step p) s actions fun u a ↦ a = .commitLive → ¬Behind p u := by
  have hrunning := hs.running hreset
  have hexact : Exact p s.journal s.readSide := by
    rw [hreset]
    exact exact_reset hs.positive
  constructor
  · rintro hall pre a post u rfl hu rfl hb
    have hidle : u.rebuild.isIdle = true := hseq pre .commitLive post u rfl hu
    obtain ⟨u', hu', hrest⟩ := exec_append.1 hrun
    cases hu.symm.trans hu'
    obtain ⟨v, hv, -⟩ := exec_cons.1 hrest
    have hmissing := (hrunning.exec hu).missing_step hb hv
    have hopen : v.gate ∈ v.opened := by
      rw [((hrunning.exec hu).step hv).sound.gate_opened]
      cases moves_step hv with
      | commitLive | rejected =>
        exact RebuildPc.gateOpen_of_isIdle hidle
    refine (hall (pre ++ [.commitLive]) post v (by simp) ?_ hopen).2 hmissing
    exact exec_append.2 ⟨u, hu, exec_cons.2 ⟨v, hv, rfl⟩⟩
  · rintro hb pre post u rfl hu -
    have hu' := hrunning.exact_exec hexact hb.of_append hu
    exact ⟨hu', fun hmissing ↦ hmissing.not_exact hu'⟩

def threeOrders : Coordinator (ℕ × String) (List ℕ) :=
  { journal := [(1, "orders"), (2, "orders"), (3, "orders")], readSide := resetPhase orders }

theorem threeOrders_fresh : threeOrders.Fresh orders where
  ascending := by
    simp [Ascending, threeOrders, orders]
  positive := by
    simp [threeOrders, orders]
  opened := rfl
  rebuild := rfl
  live := rfl
  delivered_le := Nat.zero_le _

def delivery : List (Action (ℕ × String)) := [.deliver, .passGate, .commitLive]

def failedRebuild (steps : ℕ) : List (Action (ℕ × String)) :=
  .startRebuild :: List.replicate steps (.rebuildStep .none) ++
    [.rebuildStep .error, .rebuildStep .none, .rebuildStep .none]

/-- A rebuild that fails to read the head has not reset the projection. -/
theorem exact_between_rebuilds_iff_head_error :
    ∃ t, exec (Coordinator.step orders) threeOrders
        (delivery ++ delivery ++ failedRebuild 1 ++ delivery) = some t ∧
      Exact orders t.journal t.readSide ∧ t.readSide.model = [1, 2, 3] := by
  have hrun : (exec (Coordinator.step orders) threeOrders
      (delivery ++ delivery ++ failedRebuild 1 ++ delivery)).map
        (fun t ↦ (decide (t.gate ∈ t.opened), t.readSide.model)) =
      some (true, [1, 2, 3]) := by decide
  obtain ⟨t, ht, heq⟩ := Option.map_eq_some_iff.1 hrun
  obtain ⟨hopen, hmodel⟩ := Prod.mk.inj heq
  have hall := (exact_between_rebuilds_iff threeOrders_fresh rfl ht (by decide)).2 (by decide)
  have hexact := hall _ [] t (List.append_nil _).symm ht (of_decide_eq_true hopen)
  exact ⟨t, ht, hexact.1, hmodel⟩

/-- A rebuild that fails after its reset leaves the first two orders to nobody: the delivery of the
third one takes the checkpoint past them. -/
theorem failed_rebuild_loses_orders :
    threeOrders.Fresh orders ∧ threeOrders.readSide = resetPhase orders ∧
      Along (Coordinator.step orders) threeOrders
        (delivery ++ delivery ++ failedRebuild 3 ++ delivery)
        (fun u a ↦ oneAfterAnother u a = true) ∧
      ∃ t, exec (Coordinator.step orders) threeOrders
          (delivery ++ delivery ++ failedRebuild 3 ++ delivery) = some t ∧
        t.rebuild = .idle (some .failed) ∧ t.gate ∈ t.opened ∧
        t.readSide.checkpoint = 3 ∧ t.readSide.model = [3] ∧
        (orders.ownUpTo t.journal t.readSide.checkpoint).foldl orders.apply orders.empty =
          [1, 2, 3] := by
  refine ⟨threeOrders_fresh, rfl, by decide, ?_⟩
  have hrun : (exec (Coordinator.step orders) threeOrders
      (delivery ++ delivery ++ failedRebuild 3 ++ delivery)).map
        (fun t ↦ (t.rebuild, decide (t.gate ∈ t.opened), t.readSide.checkpoint, t.readSide.model,
          (orders.ownUpTo t.journal t.readSide.checkpoint).foldl orders.apply orders.empty)) =
      some (.idle (some .failed), true, 3, [3], [1, 2, 3]) := by decide
  obtain ⟨t, ht, heq⟩ := Option.map_eq_some_iff.1 hrun
  simp only [Prod.mk.injEq, decide_eq_true_eq] at heq
  exact ⟨t, ht, heq⟩

end GoCell.Projection
