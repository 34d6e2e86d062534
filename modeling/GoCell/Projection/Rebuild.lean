import GoCell.Projection.RebuildInvariant

namespace GoCell.Projection

open Foundation Kernel List Option

variable {Ev Model : Type} {p : Spec Ev Model} {s t u : Coordinator Ev Model} {a : Action Ev}
  {actions during : List (Action Ev)} {head0 : ℕ} {head1 : Option ℕ}

/-- A handler that was admitted before the gate was shut is about to commit into the rebuild, past
an own event that the rebuild has not applied yet. -/
def Overtakes (p : Spec Ev Model) (s : Coordinator Ev Model) : Prop :=
  s.rebuild.afterReset = true ∧ s.rebuild.gateOpen = false ∧
    ∃ e, s.live = .admitted e ∧ Skips p s.journal s.readSide e

structure Coordinator.Reached (p : Spec Ev Model) (s : Coordinator Ev Model) : Prop where
  sound : s.Sound p
  progressed : s.Progressed p
  bounded : s.rebuild.afterReset = true → Bounded p s.journal s.readSide

theorem Coordinator.Fresh.reached (h : s.Fresh p) : s.Reached p := by
  refine ⟨h.sound, h.progressed, ?_⟩
  rw [h.rebuild]
  intro hreset
  cases hreset

theorem Moves.afterReset (hm : Moves p s a t) (h : t.rebuild.afterReset = true) :
    s.rebuild.afterReset = true ∨ ∃ head0, s.rebuild = .reset head0 := by
  cases hm with
  | started | shutGate | failed | captureHead => cases h
  | reset hpc => exact .inr ⟨_, hpc⟩
  | replay hpc | entry hpc | cutoff hpc | replayEnd hpc hdue | catchup hpc | degraded hpc =>
    exact .inl (by rw [hpc]; rfl)
  | openGate hpc | live hpc => exact .inl (by rw [hpc]; exact h)
  | _ => exact .inl h

theorem Moves.resets (hm : Moves p s a t) (hpc : s.rebuild = .reset head0)
    (h : t.rebuild.afterReset = true) : t.readSide = resetPhase p := by
  cases hm with
  | reset _ => rfl
  | started hpc' | shutGate hpc' | captureHead hpc' | replay hpc' | entry hpc' _ _
  | cutoff hpc' _ _ _ | replayEnd hpc' _ | catchup hpc' | degraded hpc' | openGate hpc'
  | live hpc' =>
    rw [hpc] at hpc'
    cases hpc'
  | failed _ => cases h
  | _ =>
    change s.rebuild.afterReset = true at h
    rw [hpc] at h
    cases h

theorem Moves.since_reset {P : List Ev → ReadSide Ev Model → Prop} (hm : Moves p s a t)
    (h : s.rebuild.afterReset = true → P s.journal s.readSide)
    (hkeep : s.rebuild.afterReset = true → P s.journal s.readSide → P t.journal t.readSide)
    (hreset : P t.journal (resetPhase p)) (ht : t.rebuild.afterReset = true) :
    P t.journal t.readSide := by
  rcases hm.afterReset ht with hs | ⟨head0, hpc⟩
  · exact hkeep hs (h hs)
  · rw [hm.resets hpc ht]
    exact hreset

theorem Coordinator.Reached.step (h : s.Reached p) (hstep : s.step p a = some t) :
    t.Reached p := by
  have hm := moves_step hstep
  refine ⟨h.sound.moves hm, h.progressed.moves h.sound hm, ?_⟩
  exact hm.since_reset h.bounded (fun _ hb ↦ hb.writes h.sound (hm.writes h.sound)) bounded_reset

theorem Coordinator.Reached.exec (h : s.Reached p)
    (hrun : Foundation.exec (Coordinator.step p) s actions = some t) : t.Reached p :=
  exec_invariant (Coordinator.Reached p) (fun _ _ _ h hstep ↦ h.step hstep) actions s t h hrun

/-- A live commit that does not overtake the rebuild skips nothing, since the replay has passed what
was delivered before the handover. -/
theorem Coordinator.Reached.not_skips (h : s.Reached p) (hs : s.rebuild.afterReset = true)
    (ho : ¬Overtakes p s) {e : Ev} (hlive : s.live = .admitted e) :
    ¬Skips p s.journal s.readSide e := by
  cases hopen : s.rebuild.gateOpen with
  | false => exact fun hskips ↦ ho ⟨hs, hopen, e, hlive, hskips⟩
  | true =>
    have hnext := h.sound.next e (by rw [hlive]; rfl)
    exact hnext.not_skips fun b _ _ hle ↦ hle.trans (h.progressed.handedOver hs hopen)

theorem Coordinator.Reached.exact_step (h : s.Reached p)
    (hexact : s.rebuild.afterReset = true → Exact p s.journal s.readSide)
    (ho : a = .commitLive → ¬Overtakes p s) (hstep : s.step p a = some t) :
    t.rebuild.afterReset = true → Exact p t.journal t.readSide := by
  have hm := moves_step hstep
  have ht := h.sound.moves hm
  refine hm.since_reset hexact (fun hs hs' ↦ ?_) (exact_reset ht.positive)
  refine hs'.writes (h.bounded hs) h.sound h.progressed (hm.writes h.sound) fun e ha hlive ↦ ?_
  exact h.not_skips hs (ho ha) hlive

theorem Coordinator.Reached.exact_exec (h : s.Reached p)
    (hexact : s.rebuild.afterReset = true → Exact p s.journal s.readSide)
    (ho : Along (Coordinator.step p) s actions fun v b ↦ b = .commitLive → ¬Overtakes p v)
    (hrun : Foundation.exec (Coordinator.step p) s actions = some t)
    (ht : t.rebuild.afterReset = true) : Exact p t.journal t.readSide := by
  have hall := exec_invariant_along
    (fun v ↦ v.Reached p ∧ (v.rebuild.afterReset = true → Exact p v.journal v.readSide))
    (fun v b w hv hb hstep ↦ ⟨hv.1.step hstep, hv.1.exact_step hv.2 hb hstep⟩)
    actions s t ⟨h, hexact⟩ ho hrun
  exact hall.2 ht

theorem Coordinator.Fresh.not_afterReset (h : s.Fresh p) : ¬s.rebuild.afterReset = true := by
  rw [h.rebuild]
  exact Bool.false_ne_true

/-- When no live delivery commits during a rebuild that ends without an error, it leaves the fold of
`Apply` over the own events up to the checkpoint, which is not before the head that the catch-up
read. -/
theorem rebuild_exact (hs : s.Fresh p) (hrun : exec (Coordinator.step p) s actions = some t)
    (hlive : Along (Coordinator.step p) s actions fun v a ↦
      a = .commitLive → v.rebuild.isIdle = true)
    (hdone : t.rebuild = .idle (some (.succeeded head0 head1))) :
    t.readSide.model = (p.ownUpTo t.journal t.readSide.checkpoint).foldl p.apply p.empty ∧
      t.readSide.applied = p.ownUpTo t.journal t.readSide.checkpoint ∧
      Ascending p.position t.readSide.applied ∧
      (∀ e ∈ t.readSide.applied, p.own e = true) ∧
      ∀ head ∈ head1, head ≤ t.readSide.checkpoint := by
  have hreached := hs.reached.exec hrun
  have hexact : Exact p t.journal t.readSide := by
    refine hs.reached.exact_exec (fun h ↦ absurd h hs.not_afterReset) ?_ hrun (by rw [hdone]; rfl)
    intro pre a post v heq hv ha ho
    have hopen := RebuildPc.gateOpen_of_isIdle (hlive pre a post v heq hv ha)
    rw [ho.2.1] at hopen
    cases hopen
  have hprogress := hreached.progressed.progress
  rw [hdone] at hprogress
  refine ⟨hexact.model, hexact.applied, ?_, ?_, hprogress.2⟩
  · rw [hexact.applied]
    exact (filter_ascending hreached.sound.ascending).sublist filter_sublist
  · intro e he
    rw [hexact.applied] at he
    exact (mem_ownUpTo.1 he).2.1

def orders : Spec (ℕ × String) (List ℕ) where
  topic := "orders"
  stream := Prod.snd
  position := Prod.fst
  apply := fun model e ↦ model ++ [e.1]
  empty := []

def corrupted : Coordinator (ℕ × String) (List ℕ) :=
  { journal := [(1, "orders"), (2, "payments"), (3, "orders")], readSide := ⟨[9], 7, []⟩ }

theorem corrupted_fresh : corrupted.Fresh orders where
  ascending := by
    simp [Ascending, corrupted, orders]
  positive := by
    simp [corrupted, orders]
  opened := rfl
  rebuild := rfl
  live := rfl
  delivered_le := Nat.zero_le _

def rebuildOfOrders : List (Action (ℕ × String)) :=
  List.replicate 5 (Action.rebuildStep .none) ++ Action.append (4, "orders") ::
    List.replicate 4 (Action.rebuildStep .none) ++ Action.append (5, "payments") ::
    List.replicate 3 (Action.rebuildStep .none)

theorem rebuildOfOrders_alone {C : Coordinator (ℕ × String) (List ℕ) → Prop}
    {s : Coordinator (ℕ × String) (List ℕ)} :
    Along (Coordinator.step orders) s (.startRebuild :: rebuildOfOrders) fun v a ↦
      a = .commitLive → C v := by
  refine along_of_mem fun a ha v hcommit ↦ ?_
  rw [hcommit] at ha
  simp [rebuildOfOrders] at ha

theorem rebuild_exact_orders :
    ∃ t, exec (Coordinator.step orders) corrupted (.startRebuild :: rebuildOfOrders) = some t ∧
      t.readSide.checkpoint = 4 ∧ t.readSide.model = [1, 3, 4] ∧
      t.readSide.model =
        (orders.ownUpTo t.journal t.readSide.checkpoint).foldl orders.apply orders.empty := by
  have hrun : (exec (Coordinator.step orders) corrupted (.startRebuild :: rebuildOfOrders)).map
      (fun t ↦ (t.rebuild, t.readSide.checkpoint, t.readSide.model)) =
        some (.idle (some (.succeeded 3 (some 4))), 4, [1, 3, 4]) := by decide
  obtain ⟨t, ht, heq⟩ := map_eq_some_iff.1 hrun
  obtain ⟨hdone, hcheckpoint, hmodel⟩ :
      t.rebuild = .idle (some (.succeeded 3 (some 4))) ∧ t.readSide.checkpoint = 4 ∧
        t.readSide.model = [1, 3, 4] := by simpa only [Prod.mk.injEq] using heq
  have hexact := rebuild_exact corrupted_fresh ht rebuildOfOrders_alone hdone
  exact ⟨t, ht, hcheckpoint, hmodel, hexact.1⟩

def RebuildPc.hasFailed : RebuildPc → Bool
  | .openGate result | .live result | .idle (some result) => !result.isSuccess
  | _ => false

theorem RebuildPc.hasFailed_step (hm : Moves p s a t) (ha : a ≠ .startRebuild)
    (h : s.rebuild.hasFailed = true) : t.rebuild.hasFailed = true := by
  cases hm with
  | started hpc | refused hpc => exact absurd rfl ha
  | shutGate hpc | captureHead hpc | reset hpc | replay hpc | entry hpc _ _ | cutoff hpc _ _ _
  | replayEnd hpc _ | catchup hpc | degraded hpc =>
    rw [hpc] at h
    cases h
  | failed hpc => rfl
  | openGate hpc | live hpc =>
    rw [hpc] at h
    exact h
  | _ => exact h

theorem Coordinator.Reached.missing_step (h : s.Reached p) (hs : s.rebuild.afterReset = true)
    (hmissing : Missing p s.journal s.readSide) (ha : a ≠ .startRebuild)
    (hstep : s.step p a = some t) :
    t.rebuild.hasFailed = true ∨
      (t.rebuild.afterReset = true ∧ Missing p t.journal t.readSide) := by
  have hm := moves_step hstep
  have hafter : t.rebuild.hasFailed = true ∨ t.rebuild.afterReset = true := by
    cases hm with
    | started hpc | refused hpc => exact absurd rfl ha
    | shutGate hpc | captureHead hpc =>
      rw [hpc] at hs
      cases hs
    | failed hpc => exact .inl rfl
    | reset hpc | replay hpc | entry hpc _ _ | catchup hpc | degraded hpc => exact .inr rfl
    | cutoff hpc _ _ _ | replayEnd hpc _ => exact .inr (Stage.next_afterReset _ _ _)
    | openGate hpc | live hpc =>
      rw [hpc] at hs
      exact .inr hs
    | _ => exact .inr hs
  refine hafter.imp_right fun ht ↦ ⟨ht, ?_⟩
  have hw := hm.writes h.sound
  generalize t.journal = journal, t.readSide = r at hw
  cases hw with
  | nothing => exact hmissing
  | append he => exact hmissing.append
  | reset hpc =>
    rw [hpc] at hs
    cases hs
  | drain hpc he hr => exact hmissing.advances (advances_drainEntry hr)
  | commit _ _ hr => exact hmissing.advances (advances_applyOne hr)

theorem Coordinator.Reached.missing_exec (h : s.Reached p) (ho : Overtakes p s)
    (hnone : .startRebuild ∉ actions)
    (hrun : Foundation.exec (Coordinator.step p) s (.commitLive :: actions) = some t) :
    t.rebuild.hasFailed = true ∨ Missing p t.journal t.readSide := by
  obtain ⟨hs, -, e, hlive, hskips⟩ := ho
  obtain ⟨w, hw, hrun⟩ := exec_cons.1 hrun
  have hcommitted : w.rebuild.afterReset = true ∧ Missing p w.journal w.readSide := by
    cases moves_step hw with
    | commitLive hlive' hr =>
      obtain rfl := LivePc.admitted.inj (hlive.symm.trans hlive')
      exact ⟨hs, hskips.missing (h.bounded hs) hr⟩
    | rejected hlive' he =>
      have hpos := h.sound.positive _ (h.sound.next _ (by rw [hlive']; rfl)).mem
      omega
  have hall := exec_invariant_along (C := fun _ b ↦ b ≠ .startRebuild)
    (fun v ↦ v.Reached p ∧ (v.rebuild.hasFailed = true ∨
      (v.rebuild.afterReset = true ∧ Missing p v.journal v.readSide)))
    (fun v b w hv hb hstep ↦ ⟨hv.1.step hstep, hv.2.elim
      (fun hfailed ↦ .inl (RebuildPc.hasFailed_step (moves_step hstep) hb hfailed))
      (fun hmissing ↦ hv.1.missing_step hmissing.1 hmissing.2 hb hstep)⟩)
    actions w t ⟨h.step hw, .inr hcommitted⟩ (along_of_mem fun _ hb _ ↦
      ne_of_mem_of_not_mem hb hnone)
    hrun
  exact hall.2.imp_right And.right

/-- A rebuild that ends without an error has rebuilt the read model exactly when no handler that was
admitted before the gate was shut overtook it. -/
theorem rebuild_exact_iff {before : List (Action Ev)} {last : Option RebuildResult}
    (hs : s.Fresh p) (hbefore : exec (Coordinator.step p) s before = some t)
    (hidle : t.rebuild = .idle last)
    (hrun : exec (Coordinator.step p) t (.startRebuild :: during) = some u)
    (hone : .startRebuild ∉ during) (hdone : u.rebuild = .idle (some (.succeeded head0 head1))) :
    Exact p u.journal u.readSide ↔ Along (Coordinator.step p) t (.startRebuild :: during) fun v a ↦
        a = .commitLive → ¬Overtakes p v := by
  have hreached := hs.reached.exec hbefore
  constructor
  · rintro hexact pre a post v hactions hv rfl ho
    cases pre with
    | nil => cases hactions
    | cons b pre =>
      obtain ⟨rfl, rfl⟩ := cons.inj hactions
      obtain ⟨v', hv', hrest⟩ := exec_append.1 (show exec (Coordinator.step p) t
        ((.startRebuild :: pre) ++ .commitLive :: post) = some u from hrun)
      cases hv.symm.trans hv'
      have hpost : .startRebuild ∉ post := fun hmem ↦
        hone (mem_append_right _ (mem_cons_of_mem _ hmem))
      rcases (hreached.exec hv).missing_exec ho hpost hrest with hfailed | hmissing
      · rw [hdone] at hfailed
        cases hfailed
      · exact hmissing.not_exact hexact
  · intro ho
    obtain ⟨v, hv, hrest⟩ := exec_cons.1 hrun
    have hv' : v.rebuild.afterReset = false := by
      cases moves_step hv with
      | started hpc => rfl
      | refused hpc => exact absurd hidle (hpc last)
    exact (hreached.step hv).exact_exec (fun h ↦ by rw [hv'] at h; cases h) (ho.tail hv) hrest
      (by rw [hdone]; rfl)

theorem rebuild_exact_iff_orders :
    ∃ u, exec (Coordinator.step orders) corrupted (.startRebuild :: rebuildOfOrders) = some u ∧
      Exact orders u.journal u.readSide := by
  have hrun : (exec (Coordinator.step orders) corrupted (.startRebuild :: rebuildOfOrders)).map
      Coordinator.rebuild = some (.idle (some (.succeeded 3 (some 4)))) := by decide
  obtain ⟨u, hu, hdone⟩ := map_eq_some_iff.1 hrun
  have hone : .startRebuild ∉ rebuildOfOrders := by simp [rebuildOfOrders]
  have hiff := rebuild_exact_iff corrupted_fresh (exec_nil _ _) rfl hu hone hdone
  exact ⟨u, hu, hiff.2 rebuildOfOrders_alone⟩

def oneDelivered : Coordinator (ℕ × String) (List ℕ) :=
  { journal := [(1, "orders"), (2, "orders")]
    readSide := ⟨[1], 1, [(1, "orders")]⟩
    delivered := 1 }

theorem oneDelivered_fresh : oneDelivered.Fresh orders where
  ascending := by
    simp [Ascending, oneDelivered, orders]
  positive := by
    simp [oneDelivered, orders]
  opened := rfl
  rebuild := rfl
  live := rfl
  delivered_le := by decide

def overtakenRebuild : List (Action (ℕ × String)) :=
  List.replicate 3 (Action.rebuildStep .none) ++
    Action.commitLive :: List.replicate 5 (Action.rebuildStep .none) ++
    Action.replayEnd :: List.replicate 2 (Action.rebuildStep .none)

/-- The checkpoint has passed the first order, so the rebuild does not apply it. -/
theorem overtaken_rebuild_loses_order :
    oneDelivered.Fresh orders ∧ ∃ t u,
      exec (Coordinator.step orders) oneDelivered [.deliver, .passGate] = some t ∧
      t.rebuild = .idle none ∧
      exec (Coordinator.step orders) t (.startRebuild :: overtakenRebuild) = some u ∧
      u.rebuild = .idle (some (.succeeded 2 (some 2))) ∧
      u.readSide.checkpoint = 2 ∧ u.readSide.model = [2] ∧
      (orders.ownUpTo u.journal u.readSide.checkpoint).foldl orders.apply orders.empty =
        [1, 2] := by
  have hrun : ((exec (Coordinator.step orders) oneDelivered [.deliver, .passGate]).bind fun t ↦
      (exec (Coordinator.step orders) t (.startRebuild :: overtakenRebuild)).map fun u ↦
        (t.rebuild, u.rebuild, u.readSide.checkpoint, u.readSide.model,
          (orders.ownUpTo u.journal u.readSide.checkpoint).foldl orders.apply orders.empty)) =
      some (.idle none, .idle (some (.succeeded 2 (some 2))), 2, [2], [1, 2]) := by decide
  obtain ⟨t, ht, hrun⟩ := bind_eq_some_iff.1 hrun
  obtain ⟨u, hu, heq⟩ := map_eq_some_iff.1 hrun
  simp only [Prod.mk.injEq] at heq
  obtain ⟨hidle, hdone, hcheckpoint, hmodel, hfold⟩ := heq
  exact ⟨oneDelivered_fresh, t, u, ht, hidle, hu, hdone, hcheckpoint, hmodel, hfold⟩

end GoCell.Projection
