import GoCell.DistLock.Manager
import GoCell.Foundation.Runs
import GoCell.Foundation.Tables

namespace GoCell.DistLock

open Foundation Kernel List Option Function

section Index

variable {items : ℕ → Option ℕ} {p q : PointerHeap HeapItem} {id ref : ℕ}

def lockOf (p : PointerHeap HeapItem) (ref : ℕ) : Option ℕ := (p.contentOf ref).map HeapItem.id

abbrev Indexed (items : ℕ → Option ℕ) (p : PointerHeap HeapItem) : Prop :=
  p.Indexed HeapItem.id items

theorem push_with (h : Indexed items p) (hlock : lockOf p ref = some id) (hnone : items id = none) :
    p.With ref (p.push HeapItem.before ref) := by
  refine PointerHeap.push_spec HeapItem.before h.placed ?_ (h.not_mem hlock hnone)
  rw [← isSome_map (f := HeapItem.id)]
  exact isSome_of_eq_some hlock

theorem lockOf_push (h : Indexed items p) (hlock : lockOf p ref = some id) (hnone : items id = none)
    (r : ℕ) : lockOf (p.push HeapItem.before ref) r = lockOf p r := by
  rw [lockOf, (push_with h hlock hnone).content]
  rfl

theorem lockOf_alloc (p : PointerHeap HeapItem) (item : HeapItem) (ref : ℕ) :
    lockOf (p.alloc item).1 ref = if ref = p.cells.length then some item.id else lockOf p ref := by
  rw [lockOf, PointerHeap.contentOf_alloc]
  split <;> rfl

theorem ne_of_lockOf (h : lockOf p ref = some id) : ref ≠ p.cells.length := by
  rintro rfl
  rw [lockOf, PointerHeap.contentOf_length] at h
  cases h

def postpone (p : PointerHeap HeapItem) (ref : ℕ) (time : Time) : PointerHeap HeapItem :=
  (p.contentOf ref).elim p fun c ↦ p.store ref { c with nextRenew := time }

theorem lockOf_postpone (p : PointerHeap HeapItem) (ref r : ℕ) (time : Time) :
    lockOf (postpone p ref time) r = lockOf p r := by
  unfold postpone
  cases hc : p.contentOf ref with
  | none => rfl
  | some c =>
    rw [Option.elim_some, lockOf, PointerHeap.contentOf_store, lockOf, Option.map_map]
    by_cases heq : ref = r
    · subst heq
      simp [hc]
    · congr 1
      funext b
      simp [heq]

theorem indexed_postpone (h : Indexed items p) (ref : ℕ) (time : Time) :
    Indexed items (postpone p ref time) := by
  unfold postpone
  cases hc : p.contentOf ref with
  | none => exact h
  | some c => exact h.store hc rfl

end Index

section Places

@[grind cases] inductive LockPlace : Option LockState → Option ℕ → Bool → List Cause → Prop
  | gone (causes : List Cause) (honce : causes.length ≤ 1) : LockPlace none none false causes
  | waiting (state : LockState) (ref : ℕ) : LockPlace (some state) (some ref) false []
  | renewing (state : LockState) : LockPlace (some state) none true []

structure Manager.Sound (m : Manager) : Prop where
  index : Indexed m.items m.h
  place : ∀ id, LockPlace (m.locks id) (m.items id) (m.inflightRenew id) (m.causes id)

variable {m m' : Manager} {id : ℕ} {cause : Cause}

theorem Manager.Sound.items_eq_none (h : m.Sound) (hlock : m.locks id = none) :
    m.items id = none ∧ m.inflightRenew id = false := by
  have hplace := h.place id
  grind

theorem Manager.Sound.waiting (h : m.Sound) {ref : ℕ} (hitem : m.items id = some ref) :
    ∃ state, m.locks id = some state ∧ m.inflightRenew id = false ∧ m.causes id = [] := by
  have hplace := h.place id
  grind

theorem Manager.Sound.renewing (h : m.Sound) {state : LockState} (hlock : m.locks id = some state)
    (hitem : m.items id = none) : m.inflightRenew id = true ∧ m.causes id = [] := by
  have hplace := h.place id
  grind

theorem Manager.Sound.silent (h : m.Sound) (hlock : m.locks id ≠ none) : m.causes id = [] := by
  have hplace := h.place id
  grind

theorem Manager.Sound.one_cause (h : m.Sound) (id : ℕ) : (m.causes id).length ≤ 1 := by
  have hplace := h.place id
  grind

structure Detached (m m' : Manager) (id : ℕ) (cause : Cause) : Prop where
  locks : m'.locks = Function.update m.locks id none
  items : m'.items = Function.update m.items id none
  inflight : m'.inflightRenew = Function.update m.inflightRenew id false
  causes : m'.causes = Function.update m.causes id (m.causes id ++ [cause])
  index : Indexed m'.items m'.h
  lockOf : ∀ ref, lockOf m'.h ref = lockOf m.h ref

theorem Detached.sound (h : Detached m m' id cause) (hm : m.Sound) (hlock : m.locks id ≠ none) :
    m'.Sound := by
  refine ⟨h.index, fun id' ↦ ?_⟩
  rw [h.locks, h.items, h.inflight, h.causes]
  by_cases hid : id' = id
  · subst hid
    simp only [update_self]
    refine .gone _ ?_
    rw [hm.silent hlock]
    exact le_rfl
  · simp only [update_of_ne hid]
    exact hm.place id'

theorem unschedule_cases (h : Indexed m.items m.h) (id : ℕ) :
    ∃ q, m.unschedule id = { m with h := q, items := update m.items id none } ∧
      Indexed (update m.items id none) q ∧ ∀ ref, lockOf q ref = lockOf m.h ref := by
  unfold Manager.unschedule
  cases hitem : m.items id with
  | none =>
    have hsame : update m.items id none = m.items := by
      rw [← hitem, update_eq_self]
    refine ⟨m.h, ?_, ?_, fun _ ↦ rfl⟩
    · rw [hsame]
      rfl
    · rw [hsame]
      exact h
  | some ref =>
    obtain ⟨k, hk⟩ := mem_iff_getElem?.1 (h.mem hitem)
    obtain ⟨c, hc, hindex⟩ := h.placed k ref hk
    obtain ⟨q, hq, hwithout⟩ := PointerHeap.remove_spec HeapItem.before h.placed hk
    refine ⟨q, ?_, h.erase hitem hwithout, fun r ↦ ?_⟩
    · simp only [bind_some, hc, hindex, Int.toNat_natCast, hq]
    · rw [lockOf, hwithout.content]
      rfl

theorem Manager.Sound.detachLock_cases (h : m.Sound) (id : ℕ) (cause : Cause) :
    (m.locks id = none ∧ m.detachLock id cause = (m, none)) ∨
      ∃ state m', m.locks id = some state ∧ m.detachLock id cause = (m', some state) ∧
        Detached m m' id cause := by
  cases hlock : m.locks id with
  | none =>
    left
    rw [Manager.detachLock, hlock]
    exact ⟨rfl, rfl⟩
  | some state =>
    right
    have hindex : Indexed { m with locks := update m.locks id none }.items
        { m with locks := update m.locks id none }.h := h.index
    obtain ⟨q, hq, hindex, hsame⟩ := unschedule_cases hindex id
    refine ⟨state,
      { locks := update m.locks id none
        items := update m.items id none
        h := q
        inflightRenew := update m.inflightRenew id false
        causes := update m.causes id (m.causes id ++ [cause]) },
      rfl, ?_, ⟨rfl, rfl, rfl, rfl, hindex, hsame⟩⟩
    simp only [Manager.detachLock, hlock, hq]
    rfl

theorem Manager.Sound.handleAdd (cfg : Config) (h : m.Sound) (now : Time) {state : LockState}
    (hlock : m.locks state.id = none) (hcauses : m.causes state.id = []) :
    (m.handleAdd cfg now state).Sound := by
  obtain ⟨hitem, hinflight⟩ := h.items_eq_none hlock
  have hnew : lockOf (m.h.alloc ⟨now + cfg.renewAfter state.ttl, state.id⟩).1 m.h.cells.length =
      some state.id := by
    rw [lockOf_alloc, if_pos rfl]
  refine ⟨(h.index.alloc _).insert hnew hitem (push_with (h.index.alloc _) hnew hitem), fun id ↦ ?_⟩
  change LockPlace (update m.locks state.id (some state) id)
    (update m.items state.id (some m.h.cells.length) id) (m.inflightRenew id) (m.causes id)
  by_cases hid : id = state.id
  · rw [hid, update_self, update_self, hinflight, hcauses]
    exact .waiting state _
  · rw [update_of_ne hid, update_of_ne hid]
    exact h.place id

theorem Manager.Sound.handleRenew_cases (h : m.Sound) (hne : m.h.heap ≠ []) :
    ∃ id ref m', m.items id = some ref ∧ m.handleRenew = (m', some (id, ref)) ∧ m'.Sound ∧
      m'.locks = m.locks ∧ m'.items = update m.items id none ∧ m'.causes = m.causes ∧
      ∀ r, DistLock.lockOf m'.h r = DistLock.lockOf m.h r := by
  obtain ⟨ref, q, hpop, hroot, hwithout⟩ :=
    PointerHeap.pop_spec HeapItem.before h.index.placed hne
  have hmem := mem_of_getElem? hroot
  obtain ⟨item, hcontent⟩ :=
    isSome_iff_exists.1 (PointerHeap.contentOf_isSome h.index.placed hmem)
  have hitem : m.items item.id = some ref := by
    refine (h.index.exact item.id ref).2 ⟨hmem, ?_⟩
    rw [hcontent]
    rfl
  obtain ⟨state, hlock, -, hcauses⟩ := h.waiting hitem
  refine ⟨item.id, ref, { m with
      h := q
      items := update m.items item.id none
      inflightRenew := update m.inflightRenew item.id true },
    hitem, ?_, ⟨h.index.erase hitem hwithout, fun id ↦ ?_⟩, rfl, rfl, rfl, fun r ↦ ?_⟩
  · simp only [Manager.handleRenew, hpop, hwithout.content, hcontent, hlock]
  · change LockPlace (m.locks id) (update m.items item.id none id)
      (update m.inflightRenew item.id true id) (m.causes id)
    by_cases hid : id = item.id
    · rw [hid, update_self, update_self, hlock, hcauses]
      exact .renewing state
    · rw [update_of_ne hid, update_of_ne hid]
      exact h.place id
  · rw [DistLock.lockOf, hwithout.content]
    rfl

theorem Manager.Sound.handleRenewResult_cases (cfg : Config) (h : m.Sound) (now : Time) {item : ℕ}
    (held : Bool) (renewErr : Option Err) (hitem : m.items id = none)
    (hlock : DistLock.lockOf m.h item = some id) :
    (m.locks id = none ∧ m.handleRenewResult cfg now id item held renewErr = m) ∨
      (m.locks id ≠ none ∧ (renewErr.isSome ∨ held = false) ∧
        Detached m (m.handleRenewResult cfg now id item held renewErr) id .lost) ∨
      (m.locks id ≠ none ∧ ¬(renewErr.isSome ∨ held = false) ∧
        ∃ m', m.handleRenewResult cfg now id item held renewErr = m' ∧ m'.Sound ∧
        m'.locks = m.locks ∧ m'.items = update m.items id (some item) ∧
        m'.causes = m.causes ∧ ∀ r, DistLock.lockOf m'.h r = DistLock.lockOf m.h r) := by
  cases hstate : m.locks id with
  | none =>
    left
    have hsame : update m.inflightRenew id false = m.inflightRenew := by
      rw [← (h.items_eq_none hstate).2, update_eq_self]
    simp only [Manager.handleRenewResult, hstate, hsame, and_self]
  | some state =>
    have hsame : update m.items id none = m.items := by
      rw [← hitem, update_eq_self]
    have hlost : Detached m
        ({ m with inflightRenew := update m.inflightRenew id false }.lose id) id .lost :=
      ⟨rfl, hsame.symm, rfl, rfl, h.index, fun _ ↦ rfl⟩
    right
    by_cases herr : renewErr.isSome
    · refine .inl ⟨some_ne_none state, .inl herr, ?_⟩
      simp only [Manager.handleRenewResult, hstate, herr, if_true]
      exact hlost
    cases held with
    | false =>
      refine .inl ⟨some_ne_none state, .inr rfl, ?_⟩
      simp only [Manager.handleRenewResult, hstate, herr, Bool.false_eq_true, if_false,
        Bool.not_false, if_true]
      exact hlost
    | true =>
      have heq : m.handleRenewResult cfg now id item true renewErr = { m with
            inflightRenew := update m.inflightRenew id false
            items := update m.items id (some item)
            h :=
              (postpone m.h item (now + cfg.renewAfter state.ttl)).push HeapItem.before item } := by
        simp only [Manager.handleRenewResult, hstate, herr, Bool.false_eq_true, if_false,
          Bool.not_true]
        rfl
      refine .inr ⟨some_ne_none state, by simp [herr], _, heq, ?_⟩
      have hindex := indexed_postpone h.index item (now + cfg.renewAfter state.ttl)
      have hlock' : DistLock.lockOf (postpone m.h item (now + cfg.renewAfter state.ttl)) item =
          some id := (lockOf_postpone ..).trans hlock
      refine ⟨⟨hindex.insert hlock' hitem (push_with hindex hlock' hitem), fun id' ↦ ?_⟩, rfl, rfl,
        rfl, fun r ↦ ?_⟩
      · change LockPlace (m.locks id') (update m.items id (some item) id')
          (update m.inflightRenew id false id') (m.causes id')
        by_cases hid : id' = id
        · rw [hid, update_self, update_self, hstate, (h.renewing hstate hitem).2]
          exact .waiting state item
        · rw [update_of_ne hid, update_of_ne hid]
          exact h.place id'
      · exact (lockOf_push hindex hlock' hitem r).trans (lockOf_postpone ..)

end Places

section Events

/-- The manager with the renewals under way, each by its lock and its item. `added` and `ended` are
the locks that came, and those that were removed, orphaned or reported lost. -/
structure Tracker where
  now : Time
  m : Manager := {}
  workers : List (ℕ × ℕ) := []
  added : List ℕ := []
  ended : List ℕ := []

inductive Event
  | tick (d : ℕ)
  | add (state : LockState)
  | due
  | result (k : ℕ) (held : Bool) (renewErr : Option Err)
  | remove (id : ℕ)
  | orphan (id : ℕ)

def Tracker.step (cfg : Config) (t : Tracker) : Event → Option Tracker
  | .tick d => some { t with now := t.now + d }
  | .add state =>
    if state.id ∈ t.added then none
    else some { t with m := t.m.handleAdd cfg t.now state, added := t.added ++ [state.id] }
  | .due =>
    match t.m.nextTimer with
    | none => none
    | some time =>
      if time ≤ t.now then
        some
          { t with
            m := t.m.handleRenew.1
            workers := t.workers ++ t.m.handleRenew.2.toList }
      else none
  | .result k held renewErr =>
    match t.workers[k]? with
    | none => none
    | some (id, item) =>
      some
        { t with
          m := t.m.handleRenewResult cfg t.now id item held renewErr
          workers := t.workers.eraseIdx k
          ended := t.ended ++
            if (t.m.locks id).isSome ∧ (renewErr.isSome ∨ held = false) then [id] else [] }
  | .remove id =>
    if id ∈ t.added then some { t with m := (t.m.handleRemove id).1, ended := t.ended ++ [id] }
    else none
  | .orphan id =>
    if id ∈ t.added then some { t with m := t.m.handleOrphan id, ended := t.ended ++ [id] }
    else none

structure Tracked (t : Tracker) : Prop where
  sound : t.m.Sound
  unique : (t.workers.map Prod.fst).Nodup
  worker : ∀ id ref, (id, ref) ∈ t.workers →
    lockOf t.m.h ref = some id ∧ t.m.items id = none ∧ id ∈ t.added
  fresh : ∀ id, id ∉ t.added → t.m.locks id = none ∧ t.m.causes id = []
  ended : ∀ id ∈ t.ended, t.m.locks id = none ∧ id ∈ t.added

variable {cfg : Config} {t u : Tracker} {id : ℕ}

section

variable (h : Tracked t)
include h

theorem Tracked.detached {m : Manager} {cause : Cause}
    {workers : List (ℕ × ℕ)} (hm : Detached t.m m id cause) (hlock : t.m.locks id ≠ none)
    (hsub : workers.Sublist t.workers) :
    Tracked { t with m := m, workers := workers, ended := t.ended ++ [id] } := by
  have hadded : id ∈ t.added := by
    by_contra hnew
    exact hlock (h.fresh id hnew).1
  have hlocks : ∀ id', t.m.locks id' = none → m.locks id' = none := by
    intro id' hnone
    rw [hm.locks]
    by_cases hid : id' = id
    · rw [hid, update_self]
    · rw [update_of_ne hid]
      exact hnone
  refine ⟨hm.sound h.sound hlock, (hsub.map _).nodup h.unique, fun id' ref hmem ↦ ?_,
    fun id' hnew ↦ ?_, fun id' hend ↦ ?_⟩
  · obtain ⟨hof, hitem, hin⟩ := h.worker id' ref (hsub.subset hmem)
    refine ⟨(hm.lockOf ref).trans hof, ?_, hin⟩
    change m.items id' = none
    rw [hm.items]
    by_cases hid : id' = id
    · rw [hid, update_self]
    · rw [update_of_ne hid]
      exact hitem
  · obtain ⟨hnone, hcauses⟩ := h.fresh id' hnew
    refine ⟨hlocks id' hnone, ?_⟩
    have hid : id' ≠ id := by
      rintro rfl
      exact hnew hadded
    change m.causes id' = []
    rw [hm.causes, update_of_ne hid]
    exact hcauses
  · obtain hend | hend := mem_append.1 hend
    · exact ⟨hlocks id' (h.ended id' hend).1, (h.ended id' hend).2⟩
    · rw [mem_singleton.1 hend]
      exact ⟨by rw [hm.locks, update_self], hadded⟩

theorem Tracked.detach (hadded : id ∈ t.added) (cause : Cause) :
    Tracked { t with m := (t.m.detachLock id cause).1, ended := t.ended ++ [id] } := by
  obtain ⟨hnone, heq⟩ | ⟨state, m, hlock, heq, hm⟩ := h.sound.detachLock_cases id cause
  · rw [heq]
    refine { h with ended := fun id' hend ↦ ?_ }
    obtain hend | hend := mem_append.1 hend
    · exact h.ended id' hend
    · rw [mem_singleton.1 hend]
      exact ⟨hnone, hadded⟩
  · rw [heq]
    refine h.detached hm ?_ (List.Sublist.refl _)
    rw [hlock]
    exact some_ne_none state

theorem Tracked.add {state : LockState} (hnew : state.id ∉ t.added) :
    Tracked { t with m := t.m.handleAdd cfg t.now state, added := t.added ++ [state.id] } := by
  obtain ⟨hlock, hcauses⟩ := h.fresh state.id hnew
  have hother : ∀ id, id ∈ t.added → id ≠ state.id := by
    rintro id hin rfl
    exact hnew hin
  refine ⟨h.sound.handleAdd cfg t.now hlock hcauses, h.unique, fun id ref hmem ↦ ?_,
    fun id hid ↦ ?_, fun id hend ↦ ?_⟩
  · obtain ⟨hof, hitem, hin⟩ := h.worker id ref hmem
    refine ⟨?_, (update_of_ne (hother id hin) ..).trans hitem, mem_append_left _ hin⟩
    have hself : lockOf (t.m.h.alloc ⟨t.now + cfg.renewAfter state.ttl, state.id⟩).1
        t.m.h.cells.length = some state.id := by
      rw [lockOf_alloc, if_pos rfl]
    refine (lockOf_push (h.sound.index.alloc _) hself (h.sound.items_eq_none hlock).1 ref).trans ?_
    rw [lockOf_alloc, if_neg (ne_of_lockOf hof)]
    exact hof
  · obtain ⟨hold, hne⟩ := not_or.1 (mt mem_append.2 hid)
    have hne : id ≠ state.id := fun heq ↦ hne (heq ▸ mem_cons_self)
    exact ⟨(update_of_ne hne ..).trans (h.fresh id hold).1, (h.fresh id hold).2⟩
  · obtain ⟨hnone, hin⟩ := h.ended id hend
    exact ⟨(update_of_ne (hother id hin) ..).trans hnone, mem_append_left _ hin⟩

theorem Tracked.due (hne : t.m.h.heap ≠ []) :
    Tracked
      { t with
        m := t.m.handleRenew.1
        workers := t.workers ++ t.m.handleRenew.2.toList } := by
  obtain ⟨id, ref, m, hitem, heq, hsound, hlocks, hitems, hcauses, hof⟩ :=
    h.sound.handleRenew_cases hne
  obtain ⟨state, hlock, -, -⟩ := h.sound.waiting hitem
  rw [heq]
  have hnone : ∀ id', t.m.items id' = none → m.items id' = none := by
    intro id' hnone
    rw [hitems]
    by_cases hid : id' = id
    · rw [hid, update_self]
    · rw [update_of_ne hid]
      exact hnone
  refine ⟨hsound, ?_, fun id' ref' hmem ↦ ?_, fun id' hid ↦ ?_, fun id' hend ↦ ?_⟩
  · rw [toList_some, map_append, map_singleton]
    refine nodup_append.2 ⟨h.unique, nodup_singleton _, fun x hx y hy heq' ↦ ?_⟩
    obtain ⟨⟨id', ref'⟩, hmem, rfl⟩ := mem_map.1 hx
    have hid : id' = id := heq'.trans (mem_singleton.1 hy)
    rw [hid] at hmem
    cases (h.worker id ref' hmem).2.1.symm.trans hitem
  · obtain hmem | hmem := mem_append.1 hmem
    · obtain ⟨hold, hitem', hin⟩ := h.worker id' ref' hmem
      exact ⟨(hof ref').trans hold, hnone id' hitem', hin⟩
    · obtain ⟨rfl, rfl⟩ := Prod.mk.inj (mem_singleton.1 hmem)
      refine ⟨(hof ref').trans ((h.sound.index.exact id' ref').1 hitem).2, ?_, ?_⟩
      · change m.items id' = none
        rw [hitems, update_self]
      · by_contra hnew
        cases (h.fresh id' hnew).1.symm.trans hlock
  · change m.locks id' = none ∧ m.causes id' = []
    rw [hlocks, hcauses]
    exact h.fresh id' hid
  · change m.locks id' = none ∧ _
    rw [hlocks]
    exact h.ended id' hend

theorem Tracked.ne_of_mem_eraseIdx {k item id' ref : ℕ}
    (hk : t.workers[k]? = some (id, item)) (hmem : (id', ref) ∈ t.workers.eraseIdx k) :
    id' ≠ id := by
  obtain ⟨i, hne, hi⟩ := mem_eraseIdx_iff_getElem?.1 hmem
  rintro rfl
  have hfst : ∀ (j x y : ℕ), t.workers[j]? = some (x, y) →
      (t.workers.map Prod.fst)[j]? = some x := by
    intro j x y hj
    rw [getElem?_map, hj]
    rfl
  obtain ⟨hlt, hget⟩ := List.getElem?_eq_some_iff.1 (hfst i id' ref hi)
  obtain ⟨hlt', hget'⟩ := List.getElem?_eq_some_iff.1 (hfst k id' item hk)
  exact hne ((h.unique.getElem_inj_iff).1 (hget.trans hget'.symm))

theorem Tracked.result {k item : ℕ} (held : Bool) (renewErr : Option Err)
    (hk : t.workers[k]? = some (id, item)) :
    Tracked
      { t with
        m := t.m.handleRenewResult cfg t.now id item held renewErr
        workers := t.workers.eraseIdx k
        ended := t.ended ++
          if (t.m.locks id).isSome ∧ (renewErr.isSome ∨ held = false) then [id] else [] } := by
  obtain ⟨hof, hitem, hadded⟩ := h.worker id item (mem_of_getElem? hk)
  have hsub : (t.workers.eraseIdx k).Sublist t.workers := eraseIdx_sublist ..
  obtain ⟨hlock, heq⟩ | ⟨hlock, hbad, hm⟩ | ⟨hlock, hgood, m, heq, hsound, hlocks, hitems, hcauses,
    hsame⟩ := h.sound.handleRenewResult_cases cfg t.now held renewErr hitem hof
  · rw [heq, hlock, if_neg (fun hcon ↦ absurd hcon.1 Bool.false_ne_true), append_nil]
    exact ⟨h.sound, (hsub.map _).nodup h.unique, fun id' ref hmem ↦
      h.worker id' ref (hsub.subset hmem), h.fresh, h.ended⟩
  · rw [if_pos ⟨isSome_iff_ne_none.2 hlock, hbad⟩]
    exact h.detached hm hlock hsub
  · rw [heq, if_neg (fun hcon ↦ hgood hcon.2), append_nil]
    refine ⟨hsound, (hsub.map _).nodup h.unique, fun id' ref hmem ↦ ?_, fun id' hid ↦ ?_,
      fun id' hend ↦ ?_⟩
    · obtain ⟨hof', hitem', hin⟩ := h.worker id' ref (hsub.subset hmem)
      refine ⟨(hsame ref).trans hof', ?_, hin⟩
      change m.items id' = none
      rw [hitems, update_of_ne (h.ne_of_mem_eraseIdx hk hmem)]
      exact hitem'
    · change m.locks id' = none ∧ m.causes id' = []
      rw [hlocks, hcauses]
      exact h.fresh id' hid
    · change m.locks id' = none ∧ _
      rw [hlocks]
      exact h.ended id' hend

end

theorem Tracked.step {e : Event} (h : Tracked t) (hstep : t.step cfg e = some u) : Tracked u := by
  cases e with
  | tick d =>
    cases hstep
    exact { h with }
  | add state =>
    obtain ⟨hnew, hstep⟩ := ite_none_left_eq_some.1 hstep
    cases hstep
    exact h.add hnew
  | due =>
    simp only [Tracker.step] at hstep
    split at hstep
    · cases hstep
    · next time htime =>
      obtain ⟨-, hstep⟩ := ite_none_right_eq_some.1 hstep
      cases hstep
      refine h.due fun hnil ↦ ?_
      rw [Manager.nextTimer, hnil] at htime
      cases htime
  | result k held renewErr =>
    simp only [Tracker.step] at hstep
    split at hstep
    · cases hstep
    · next id item hk =>
      cases hstep
      exact h.result held renewErr hk
  | remove id =>
    obtain ⟨hin, hstep⟩ := ite_none_right_eq_some.1 hstep
    cases hstep
    exact h.detach hin .released
  | orphan id =>
    obtain ⟨hin, hstep⟩ := ite_none_right_eq_some.1 hstep
    cases hstep
    exact h.detach hin .orphaned

theorem tracked_run {now : Time} {es : List Event}
    (h : exec (Tracker.step cfg) { now := now } es = some t) : Tracked t := by
  refine exec_invariant Tracked (fun _ _ _ hs hstep ↦ hs.step hstep) es _ t ?_ h
  refine ⟨⟨⟨nofun, fun id ref ↦ ⟨nofun, nofun⟩⟩, fun id ↦ .gone [] (Nat.zero_le 1)⟩, nodup_nil,
    nofun, fun _ _ ↦ ⟨rfl, rfl⟩, nofun⟩

theorem Tracker.step_ended {e : Event} (ht : Tracked t) (hstep : t.step cfg e = some u) :
    t.ended ⊆ u.ended ∧ ∀ w ∈ u.workers, w ∈ t.workers ∨ t.m.locks w.1 ≠ none := by
  cases e with
  | tick d =>
    cases hstep
    exact ⟨fun _ h ↦ h, fun _ hw ↦ .inl hw⟩
  | add state =>
    obtain ⟨-, hstep⟩ := ite_none_left_eq_some.1 hstep
    cases hstep
    exact ⟨fun _ h ↦ h, fun _ hw ↦ .inl hw⟩
  | due =>
    simp only [Tracker.step] at hstep
    split at hstep
    · cases hstep
    · next time htime =>
      obtain ⟨-, hstep⟩ := ite_none_right_eq_some.1 hstep
      cases hstep
      refine ⟨fun _ h ↦ h, fun w hw ↦ ?_⟩
      have hne : t.m.h.heap ≠ [] := by
        intro hnil
        rw [Manager.nextTimer, hnil] at htime
        cases htime
      obtain ⟨id, ref, m, hitem, heq, -⟩ := ht.sound.handleRenew_cases hne
      rw [heq] at hw
      obtain hw | hw := mem_append.1 hw
      · exact .inl hw
      · right
        obtain ⟨state, hlock, -⟩ := ht.sound.waiting hitem
        rw [mem_singleton.1 hw, hlock]
        exact some_ne_none state
  | result =>
    simp only [Tracker.step] at hstep
    split at hstep
    · cases hstep
    · cases hstep
      exact ⟨subset_append_left _ _, fun w hw ↦ .inl (mem_of_mem_eraseIdx hw)⟩
  | remove | orphan =>
    obtain ⟨-, hstep⟩ := ite_none_right_eq_some.1 hstep
    cases hstep
    exact ⟨subset_append_left _ _, fun _ hw ↦ .inl hw⟩

theorem Tracked.ended_later (h : Tracked t) {es : List Event}
    (hrun : exec (Tracker.step cfg) t es = some u) :
    Tracked u ∧ t.ended ⊆ u.ended ∧ ∀ w ∈ u.workers, w.1 ∈ t.ended → w ∈ t.workers := by
  refine exec_invariant
    (fun v ↦ Tracked v ∧ t.ended ⊆ v.ended ∧ ∀ w ∈ v.workers, w.1 ∈ t.ended → w ∈ t.workers)
    (fun v e v' hv hstep ↦ ?_) es t u ⟨h, fun _ hx ↦ hx, fun _ hw _ ↦ hw⟩ hrun
  obtain ⟨htracked, hsub, hold⟩ := hv
  obtain ⟨hmore, hnew⟩ := Tracker.step_ended htracked hstep
  refine ⟨htracked.step hstep, fun _ hx ↦ hmore (hsub hx), fun w hw hend ↦ ?_⟩
  obtain hw | hlock := hnew w hw
  · exact hold w hw hend
  · exact absurd (htracked.ended w.1 (hsub hend)).1 hlock

theorem indexed_nodup {items : ℕ → Option ℕ} {p : PointerHeap HeapItem} (h : Indexed items p) :
    p.heap.Nodup := by
  refine nodup_iff_getElem?_ne_getElem?.2 fun i j hij hj heq ↦ ?_
  have hi := getElem?_eq_getElem hj
  exact Nat.ne_of_lt hij (h.placed.eq_of_getElem? (heq.trans hi) hi)

/-- Over every sequence of events: the heap and the index are in bijection; a lock with the manager
is either in the heap or in a renewal; one that was removed, orphaned or reported lost is in neither
and is not renewed again; and a lock ends for one cause. -/
theorem renewals_tracked {now : Time} {before later : List Event}
    (hbefore : exec (Tracker.step cfg) { now := now } before = some t)
    (hlater : exec (Tracker.step cfg) t later = some u) :
    (u.m.h.heap.Nodup ∧ (∀ ref ∈ u.m.h.heap, ∃ id, u.m.items id = some ref ∧
        ∀ id', u.m.items id' = some ref → id' = id) ∧
        ∀ id ref, u.m.items id = some ref → ref ∈ u.m.h.heap) ∧
      (∀ id, u.m.locks id ≠ none → (u.m.items id ≠ none ∧ u.m.inflightRenew id = false ∨
          u.m.items id = none ∧ u.m.inflightRenew id = true)) ∧
      (∀ id ∈ t.ended, u.m.locks id = none ∧ u.m.items id = none ∧ u.m.inflightRenew id = false ∧
        (∀ ref ∈ u.m.h.heap, lockOf u.m.h ref ≠ some id) ∧
        ∀ ref, (id, ref) ∈ u.workers → (id, ref) ∈ t.workers) ∧
      ∀ id, (u.m.causes id).length ≤ 1 := by
  obtain ⟨htracked, hsub, hworkers⟩ := (tracked_run hbefore).ended_later hlater
  have hindex := htracked.sound.index
  refine ⟨⟨indexed_nodup hindex, fun ref hmem ↦ ?_, fun id ref hitem ↦ hindex.mem hitem⟩,
    fun id hlock ↦ ?_, fun id hend ↦ ?_, fun id ↦ ?_⟩
  · obtain ⟨item, hcontent⟩ :=
      isSome_iff_exists.1 (PointerHeap.contentOf_isSome hindex.placed hmem)
    have hof : lockOf u.m.h ref = some item.id := by
      rw [lockOf, hcontent]
      rfl
    refine ⟨item.id, (hindex.exact item.id ref).2 ⟨hmem, hof⟩, fun id' hitem ↦ ?_⟩
    exact some.inj (((hindex.exact id' ref).1 hitem).2.symm.trans hof)
  · cases hitem : u.m.items id with
    | none =>
      obtain ⟨state, hstate⟩ := ne_none_iff_exists'.1 hlock
      exact .inr ⟨rfl, (htracked.sound.renewing hstate hitem).1⟩
    | some ref =>
      obtain ⟨-, -, hinflight, -⟩ := htracked.sound.waiting hitem
      exact .inl ⟨some_ne_none ref, hinflight⟩
  · have hnone := (htracked.ended id (hsub hend)).1
    obtain ⟨hitem, hinflight⟩ := htracked.sound.items_eq_none hnone
    refine ⟨hnone, hitem, hinflight, fun ref hmem hof ↦ ?_, fun ref hw ↦ hworkers (id, ref) hw hend⟩
    cases hitem.symm.trans ((hindex.exact id ref).2 ⟨hmem, hof⟩)
  · exact htracked.sound.one_cause id

def sampleConfig : Config := ⟨fun ttl ↦ ttl / 2⟩

def sampleLock (id : ℕ) : LockState := ⟨id, "key", "token", 10⟩

def lateResult : List Event :=
  [.add (sampleLock 1), .add (sampleLock 2), .tick 5, .due, .orphan 1, .result 0 true none]

theorem renewals_tracked_late :
    ∃ t u, exec (Tracker.step sampleConfig) { now := 0 } (lateResult.take 5) = some t ∧
      exec (Tracker.step sampleConfig) t (lateResult.drop 5) = some u ∧ 1 ∈ t.ended ∧
      t.workers.length = 1 ∧ u.m.cause 1 = some .orphaned ∧ u.m.h.heap.length = 1 ∧
      u.m.items 1 = none ∧ u.m.inflightRenew 1 = false := by
  have hrun : ((exec (Tracker.step sampleConfig) { now := 0 } (lateResult.take 5)).bind fun t ↦
      (exec (Tracker.step sampleConfig) t (lateResult.drop 5)).map fun u ↦
        decide (1 ∈ t.ended ∧ t.workers.length = 1 ∧ u.m.cause 1 = some .orphaned ∧
          u.m.h.heap.length = 1)) = some true := by
    decide +kernel
  obtain ⟨t, ht, hrun⟩ := bind_eq_some_iff.1 hrun
  obtain ⟨u, hu, hfacts⟩ := map_eq_some_iff.1 hrun
  obtain ⟨hend, hworkers, hcause, hheap⟩ := of_decide_eq_true hfacts
  obtain ⟨-, hitem, hinflight, -⟩ := (renewals_tracked ht hu).2.2.1 1 hend
  exact ⟨t, u, ht, hu, hend, hworkers, hcause, hheap, hitem, hinflight⟩

end Events

end GoCell.DistLock
