import GoCell.Reconcile.Loop

namespace GoCell.Reconcile

open Foundation Kernel List Option Function

section Holding

def Worker.holds : Worker → Option String
  | .idle | .received _ | .requeueing _ _ => none
  | .reconciling req | .adding req _ _ | .cancelling req | .finishing req _ => some req.entityID

structure Exclusive (workers : List Worker) (processing : String → Bool) : Prop where
  unique : ∀ (i j : ℕ) (v w : Worker) (id : String), workers[i]? = some v → workers[j]? = some w →
    v.holds = some id → w.holds = some id → i = j
  marked : ∀ id, processing id = true ↔ ∃ (i : ℕ) (w : Worker),
    workers[i]? = some w ∧ w.holds = some id

variable {workers : List Worker} {processing : String → Bool} {i : ℕ} {v w : Worker} {id : String}

theorem exclusive_idle (n : ℕ) : Exclusive (replicate n .idle) fun _ ↦ false where
  unique i j v w id hv _ hid _ := by
    obtain rfl := (mem_replicate.1 (mem_of_getElem? hv)).2
    cases hid
  marked id := by
    refine ⟨nofun, fun ⟨i, w, hw, hid⟩ ↦ ?_⟩
    obtain rfl := (mem_replicate.1 (mem_of_getElem? hw)).2
    cases hid

section

variable (h : Exclusive workers processing) (hv : workers[i]? = some v)
include h hv

theorem Exclusive.keep (hsame : w.holds = v.holds) : Exclusive (workers.set i w) processing := by
  have hback : ∀ (j : ℕ) (u : Worker), (workers.set i w)[j]? = some u →
      ∃ u', workers[j]? = some u' ∧ u'.holds = u.holds := by
    intro j u hu
    obtain ⟨rfl, rfl⟩ | ⟨-, hold⟩ := getElem?_set_cases hu
    · exact ⟨v, hv, hsame.symm⟩
    · exact ⟨u, hold, rfl⟩
  constructor
  · intro j k u u' id hu hu' hid hid'
    obtain ⟨x, hx, hxid⟩ := hback j u hu
    obtain ⟨x', hx', hxid'⟩ := hback k u' hu'
    exact h.unique j k x x' id hx hx' (hxid.trans hid) (hxid'.trans hid')
  · intro id
    rw [h.marked]
    constructor
    · rintro ⟨j, u, hu, hid⟩
      by_cases hji : j = i
      · cases hv.symm.trans (hji ▸ hu)
        exact ⟨i, w, List.getElem?_set_self (List.getElem?_eq_some_iff.1 hv).1, hsame.trans hid⟩
      · exact ⟨j, u, by rw [getElem?_set_ne (Ne.symm hji)]; exact hu, hid⟩
    · rintro ⟨j, u, hu, hid⟩
      obtain ⟨x, hx, hxid⟩ := hback j u hu
      exact ⟨j, x, hx, hxid.trans hid⟩

theorem Exclusive.begin (hnone : v.holds = none) (hid : w.holds = some id)
    (hfree : processing id = false) :
    Exclusive (workers.set i w) (update processing id true) := by
  have hother : ∀ (j : ℕ) (u : Worker), workers[j]? = some u → u.holds ≠ some id := by
    intro j u hu heq
    have hmarked := (h.marked id).2 ⟨j, u, hu, heq⟩
    cases hfree.symm.trans hmarked
  constructor
  · intro j k u u' id' hu hu' hj hk
    obtain ⟨rfl, rfl⟩ | ⟨-, hold⟩ := getElem?_set_cases hu
    · obtain ⟨rfl, rfl⟩ | ⟨-, hold'⟩ := getElem?_set_cases hu'
      · rfl
      · exact absurd (hk.trans (hj.symm.trans hid)) (hother k u' hold')
    · obtain ⟨rfl, rfl⟩ | ⟨-, hold'⟩ := getElem?_set_cases hu'
      · exact absurd (hj.trans (hk.symm.trans hid)) (hother j u hold)
      · exact h.unique j k u u' id' hold hold' hj hk
  · intro id'
    by_cases heq : id' = id
    · rw [heq, update_self]
      exact iff_of_true rfl
        ⟨i, w, List.getElem?_set_self (List.getElem?_eq_some_iff.1 hv).1, hid⟩
    · rw [update_of_ne heq, h.marked]
      constructor
      · rintro ⟨j, u, hu, hu'⟩
        have hji : i ≠ j := by
          rintro rfl
          cases hv.symm.trans hu
          cases hnone.symm.trans hu'
        exact ⟨j, u, by rw [getElem?_set_ne hji]; exact hu, hu'⟩
      · rintro ⟨j, u, hu, hu'⟩
        obtain ⟨rfl, rfl⟩ | ⟨-, hu⟩ := getElem?_set_cases hu
        · exact absurd (some.inj (hu'.symm.trans hid)) heq
        · exact ⟨j, u, hu, hu'⟩

theorem Exclusive.finish (hid : v.holds = some id) (hnone : w.holds = none) :
    Exclusive (workers.set i w) (update processing id false) := by
  have hold : ∀ (j : ℕ) (u : Worker) (id' : String), (workers.set i w)[j]? = some u →
      u.holds = some id' → j ≠ i ∧ workers[j]? = some u := by
    intro j u id' hu hu'
    obtain ⟨rfl, rfl⟩ | ⟨hji, hu⟩ := getElem?_set_cases hu
    · cases hnone.symm.trans hu'
    · exact ⟨hji.symm, hu⟩
  constructor
  · intro j k u u' id' hu hu' hj hk
    exact h.unique j k u u' id' (hold j u id' hu hj).2 (hold k u' id' hu' hk).2 hj hk
  · intro id'
    by_cases heq : id' = id
    · rw [heq, update_self]
      refine ⟨nofun, fun ⟨j, u, hu, hu'⟩ ↦ ?_⟩
      obtain ⟨hji, hu⟩ := hold j u id hu hu'
      exact absurd (h.unique j i u v id hu hv hu' hid) hji
    · rw [update_of_ne heq, h.marked]
      constructor
      · rintro ⟨j, u, hu, hu'⟩
        have hji : i ≠ j := by
          rintro rfl
          cases hv.symm.trans hu
          exact heq (some.inj (hu'.symm.trans hid))
        exact ⟨j, u, by rw [getElem?_set_ne hji]; exact hu, hu'⟩
      · rintro ⟨j, u, hu, hu'⟩
        obtain ⟨-, hu⟩ := hold j u id' hu hu'
        exact ⟨j, u, hu, hu'⟩

end

end Holding

section Runs

variable {cfg : Config} {s t : LoopState} {a : Action}

def Worker.Own : Worker → Prop
  | .adding req _ item | .requeueing req item => item.req.entityID = req.entityID
  | .idle | .received _ | .reconciling _ | .cancelling _ | .finishing _ _ => True

structure Consistent (s : LoopState) : Prop where
  exclusive : Exclusive s.workers s.processing
  sound : s.waiting.Sound
  keyed : ∀ id req, s.dirty id = some req → req.entityID = id
  own : ∀ w ∈ s.workers, w.Own

theorem Dispatched.holds {req : Request} {outcome : Outcome} {w : Worker}
    (h : Dispatched cfg req outcome w) : w.holds = some req.entityID := by
  cases h with
  | again | never | rest => rfl

theorem Completed.holds {req : Request} {label : ResultLabel} {w : Worker}
    (h : Completed s req label w) : w.holds = none := by
  cases h with
  | dirty | dropped | clean => rfl

theorem Exclusive.step (h : Exclusive s.workers s.processing) (hstep : Stepped cfg s a t) :
    Exclusive t.workers t.processing := by
  cases hstep with
  | take _ _ _ hworker | coalesce i req hworker | sendAdd _ _ _ _ hworker
  | sendCancel i req hworker | sendDirty i req item hworker => exact h.keep hworker rfl
  | begin i req hworker hfree => exact h.begin hworker rfl rfl hfree
  | ret _ _ _ _ _ hworker hw => exact h.keep hworker hw.holds
  | unlock _ _ _ _ hworker hw => exact h.finish hworker rfl hw.holds
  | _ => exact h

theorem WaitingQueue.Sound.step (h : s.waiting.Sound) (hstep : Stepped cfg s a t) :
    t.waiting.Sound := by
  cases hstep with
  | pop _ _ _ _ hpop => exact (WaitingQueue.popReady_some h hpop).1
  | add wake item => exact (WaitingQueue.addOrMergeWaiting_spec h item).1
  | cancel wake id => exact (WaitingQueue.cancelPending_sound h id).1
  | _ => exact h

theorem Consistent.keyed_step (h : Consistent s) (hstep : Stepped cfg s a t) :
    ∀ id req, t.dirty id = some req → req.entityID = id := by
  cases hstep with
  | coalesce i req =>
    intro id r hr
    change update s.dirty req.entityID (some req) id = some r at hr
    by_cases heq : id = req.entityID
    · rw [heq, update_self] at hr
      rw [heq, some.inj hr]
    · rw [update_of_ne heq] at hr
      exact h.keyed id r hr
  | unlock i req =>
    intro id r hr
    change update s.dirty req.entityID none id = some r at hr
    by_cases heq : id = req.entityID
    · rw [heq, update_self] at hr
      cases hr
    · rw [update_of_ne heq] at hr
      exact h.keyed id r hr
  | _ => exact h.keyed

theorem own_set {workers : List Worker} {i : ℕ} {w : Worker} (h : ∀ v ∈ workers, v.Own)
    (hw : w.Own) : ∀ v ∈ workers.set i w, v.Own := by
  intro v hv
  obtain hv | rfl := mem_or_eq_of_mem_set hv
  · exact h v hv
  · exact hw

theorem Consistent.own_step (h : Consistent s) (hstep : Stepped cfg s a t) :
    ∀ w ∈ t.workers, w.Own := by
  cases hstep with
  | take | coalesce | begin | sendAdd | sendCancel | sendDirty => exact own_set h.own trivial
  | ret _ _ _ _ _ _ hw =>
    refine own_set h.own ?_
    cases hw with
    | again item hitem => exact congrArg Request.entityID hitem
    | never | rest => trivial
  | unlock _ _ _ _ _ hw =>
    refine own_set h.own ?_
    cases hw with
    | dirty _ _ hdirty hitem =>
      exact (congrArg Request.entityID hitem).trans (h.keyed _ _ hdirty)
    | dropped | clean => trivial
  | _ => exact h.own

theorem consistent_start (n : ℕ) (now : Time) (backoff : EntityBackoff) :
    Consistent (LoopState.start n now backoff) where
  exclusive := exclusive_idle n
  sound := WaitingQueue.sound_empty
  keyed _ _ h := by cases h
  own w hw := by
    obtain rfl := (mem_replicate.1 hw).2
    trivial

theorem Consistent.step (h : Consistent s) (hstep : Stepped cfg s a t) : Consistent t :=
  ⟨h.exclusive.step hstep, h.sound.step hstep, h.keyed_step hstep, h.own_step hstep⟩

theorem consistent_run {n : ℕ} {now : Time} {backoff : EntityBackoff} {as : List Action}
    (h : exec (LoopState.step cfg) (LoopState.start n now backoff) as = some s) : Consistent s :=
  run_invariant Consistent (fun _ _ _ hs hstep ↦ hs.step hstep) (consistent_start n now backoff) h

/-- In every state that a run reaches no entity is reconciled twice at a time, the heap holds an
entity once, and the map leads from an entity to its place. -/
theorem one_of_each_entity {n : ℕ} {now : Time} {backoff : EntityBackoff} {as : List Action}
    (h : exec (LoopState.step cfg) (LoopState.start n now backoff) as = some s) :
    (∀ (i j : ℕ) (req req' : Request), s.workers[i]? = some (.reconciling req) →
        s.workers[j]? = some (.reconciling req') → req.entityID = req'.entityID → i = j) ∧
      (∀ (k l ref ref' : ℕ) (it it' : WaitingItem), s.waiting.heap[k]? = some ref →
        s.waiting.items[ref]? = some it → s.waiting.heap[l]? = some ref' →
        s.waiting.items[ref']? = some it' → it.req.entityID = it'.req.entityID → k = l) ∧
      (∀ (id : String) (ref : ℕ), s.waiting.pending id = some ref →
        ∃ (k : ℕ) (it : WaitingItem), s.waiting.heap[k]? = some ref ∧
          s.waiting.items[ref]? = some it ∧ it.req.entityID = id ∧ it.index = k) ∧
      ∀ k ref : ℕ, s.waiting.heap[k]? = some ref →
        ∃ it, s.waiting.items[ref]? = some it ∧ it.index = k ∧
          s.waiting.pending it.req.entityID = some ref := by
  obtain ⟨hexclusive, hsound, -, -⟩ := consistent_run h
  refine ⟨fun i j req req' hi hj heq ↦ ?_, fun k l ref ref' it it' hk hit hl hit' heq ↦ ?_,
    fun id ref hpending ↦ ?_, fun k ref hk ↦ ?_⟩
  · exact hexclusive.unique i j _ _ req.entityID hi hj rfl (congrArg some heq.symm)
  · have hpending := (hsound.exact _ ref).2 ⟨mem_of_getElem? hk, it, hit, rfl⟩
    have hpending' := (hsound.exact _ ref').2 ⟨mem_of_getElem? hl, it', hit', rfl⟩
    rw [heq] at hpending
    cases hpending.symm.trans hpending'
    exact hsound.placed.eq_of_getElem? hk hl
  · exact hsound.place hpending
  · obtain ⟨it, hit, hindex⟩ := hsound.placed k ref hk
    exact ⟨it, hit, hindex, (hsound.exact _ ref).2 ⟨mem_of_getElem? hk, it, hit, rfl⟩⟩

def sampleBackoff : EntityBackoff := newEntityBackoff 0 0

def oneRound (id : String) (outcome : Outcome) : List Action :=
  [.feed ⟨id⟩, .enqueue, .take 0, .lock 0, .ret 0 outcome, .send 0, .unlock 0]

def twoRounds : List Action :=
  oneRound "a" (.ok 0) ++ oneRound "b" (.error .other) ++ [.sleep, .add, .sleep, .add]

theorem one_of_each_entity_round :
    ∃ s, exec (LoopState.step {}) (LoopState.start 1 0 sampleBackoff) twoRounds = some s ∧
      s.waiting.heap.length = 2 ∧
      ∀ k ref : ℕ, s.waiting.heap[k]? = some ref →
        ∃ it, s.waiting.items[ref]? = some it ∧ it.index = k ∧
          s.waiting.pending it.req.entityID = some ref := by
  have hlen : (exec (LoopState.step {}) (LoopState.start 1 0 sampleBackoff) twoRounds).map
      (fun s ↦ s.waiting.heap.length) = some 2 := by decide +kernel
  obtain ⟨s, hs, hlen⟩ := map_eq_some_iff.1 hlen
  exact ⟨s, hs, hlen, (one_of_each_entity hs).2.2.2⟩

end Runs

end GoCell.Reconcile
