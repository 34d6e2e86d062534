import GoCell.Foundation.PointerHeap
import GoCell.Foundation.Tables
import GoCell.Kernel.Values

namespace GoCell.Reconcile

open Foundation Kernel List Option Function PointerHeap

structure Request where
  entityID : String
  deriving DecidableEq

structure WaitingItem where
  req : Request
  readyAt : Time
  index : ℤ := 0
  deriving DecidableEq

/-- The delaying queue: the items that were allocated, the heap of pointers to them, and the map
from an entity to its item. -/
structure WaitingQueue where
  items : List WaitingItem := []
  heap : List ℕ := []
  pending : String → Option ℕ := fun _ ↦ none

variable {it : WaitingItem}

namespace WaitingQueue

def setIndex (items : List WaitingItem) (ref : ℕ) (index : ℤ) : List WaitingItem :=
  items.modify ref fun it ↦ { it with index := index }

variable (w : WaitingQueue)

def readyAt (i : ℕ) : Time :=
  ((w.heap[i]?).bind fun ref ↦ w.items[ref]?).elim 0 WaitingItem.readyAt

/-- `Swap` keeps the items' own positions. -/
def swap (i j : ℕ) : WaitingQueue :=
  match w.heap[i]?, w.heap[j]? with
  | some a, some b =>
    { w with
      heap := (w.heap.set i b).set j a
      items := setIndex (setIndex w.items b i) a j }
  | _, _ => w

def waitingHeap : HeapInterface WaitingQueue where
  less w i j := w.readyAt i < w.readyAt j
  swap := swap

/-- `heap.Push`, with the pointer to the new item. -/
def push (item : WaitingItem) : WaitingQueue × ℕ :=
  (waitingHeap.up
    { w with
      items := w.items ++ [{ item with index := w.heap.length }]
      heap := w.heap ++ [w.items.length] } w.heap.length, w.items.length)

def removeLast : Option (WaitingItem × WaitingQueue) := do
  let ref ← w.heap.getLast?
  let it ← w.items[ref]?
  return (it, { w with heap := w.heap.dropLast, items := setIndex w.items ref (-1) })

def deletePending (id : String) : WaitingQueue :=
  { w with pending := Function.update w.pending id none }

/-- The body of the loop in `drainReadyItems`; `none` where the loop ends. -/
def popReady (now : Time) : Option (Request × WaitingQueue) :=
  if w.heap = [] ∨ now < w.readyAt 0 then none
  else do
    let (it, w) ← (waitingHeap.lastFromRoot w (w.heap.length - 1)).removeLast
    return (it.req, w.deletePending it.req.entityID)

def addOrMergeWaiting (item : WaitingItem) : WaitingQueue :=
  match (w.pending item.req.entityID).bind fun ref ↦ (w.items[ref]?).map fun it ↦ (ref, it) with
  | some (ref, existing) =>
    if item.readyAt < existing.readyAt then
      waitingHeap.fix
        { w with items := w.items.modify ref fun it ↦ { it with readyAt := item.readyAt } }
        existing.index.toNat w.heap.length
    else w
  | none =>
    let (w, ref) := w.push item
    { w with pending := Function.update w.pending item.req.entityID (some ref) }

def cancelPending (id : String) : WaitingQueue :=
  match (w.pending id).bind fun ref ↦ w.items[ref]? with
  | none => w
  | some existing =>
    match (waitingHeap.lastFrom w existing.index.toNat (w.heap.length - 1)).removeLast with
    | none => w
    | some (_, w) => w.deletePending id

def waitingQueueIdleDelay : Duration := 24 * 3600000000000

def nextWaitingDelay (now : Time) : Duration :=
  if w.heap = [] then waitingQueueIdleDelay else max 0 (w.readyAt 0 - now)

section View

variable {w : WaitingQueue} {k ref : ℕ}

def content (it : WaitingItem) : Request × Time := (it.req, it.readyAt)

def cell (it : WaitingItem) : Cell (Request × Time) := ⟨content it, it.index⟩

/-- The heap with its cells; the map from the entities is left out. -/
def toHeap (w : WaitingQueue) : PointerHeap (Request × Time) := ⟨w.items.map cell, w.heap⟩

def Placed (w : WaitingQueue) : Prop :=
  ∀ k ref : ℕ, w.heap[k]? = some ref → ∃ it, w.items[ref]? = some it ∧ it.index = k

theorem placed_toHeap : w.toHeap.Placed ↔ Placed w := by
  simp [PointerHeap.Placed, Placed, toHeap, cell]

theorem contentOf_toHeap (w : WaitingQueue) (ref : ℕ) :
    w.toHeap.contentOf ref = (w.items[ref]?).map content := by
  rw [contentOf, toHeap, getElem?_map, Option.map_map]
  rfl

theorem map_setIndex (items : List WaitingItem) (ref : ℕ) (index : ℤ) :
    (setIndex items ref index).map cell = PointerHeap.setIndex (items.map cell) ref index := by
  refine ext_getElem? fun r ↦ ?_
  rw [PointerHeap.getElem?_setIndex, getElem?_map, getElem?_map, setIndex, getElem?_modify]
  cases items[r]? with
  | none => rfl
  | some it =>
    simp only [map_some]
    split <;> rfl

theorem moves (w : WaitingQueue) :
    PointerHeap.Moves waitingHeap toHeap fun w' ↦ w'.pending = w.pending where
  swap w i j := by
    change (w.swap i j).toHeap = w.toHeap.swap i j
    unfold swap PointerHeap.swap
    change _ = match w.heap[i]?, w.heap[j]? with
      | some a, some b => _
      | _, _ => _
    split
    · simp only [toHeap, map_setIndex]
    · rfl
  keep w' i j h := by
    rw [← h]
    change (w'.swap i j).pending = _
    unfold swap
    split <;> rfl

theorem readyAt_eq (w : WaitingQueue) (k : ℕ) :
    w.readyAt k = (w.toHeap.contentAt k).elim 0 Prod.snd := by
  rw [readyAt, contentAt, funext w.contentOf_toHeap]
  change _ = ((w.heap[k]?).bind _).elim 0 Prod.snd
  cases w.heap[k]? with
  | none => rfl
  | some ref =>
    rw [bind_some, bind_some]
    cases w.items[ref]? <;> rfl

theorem waitingHeap_keyed : waitingHeap.Keyed (fun w ↦ w.toHeap.heap.length) readyAt where
  less _ _ _ _ _ := decide_eq_true_iff
  len_swap w i j := by rw [(moves w).swap, PointerHeap.length_swap]
  key_swap w i j hi hj := by
    funext k
    rw [comp_apply, readyAt_eq, readyAt_eq, (moves w).swap, contentAt_swap hi hj]

theorem readyAt_of_getElem? (hk : w.heap[k]? = some ref)
    (hit : w.items[ref]? = some it) : w.readyAt k = it.readyAt := by
  rw [readyAt, hk, bind_some, hit]
  rfl

end View

section Specification

def Exact (w : WaitingQueue) : Prop :=
  ∀ id ref, w.pending id = some ref ↔
    ref ∈ w.heap ∧ ∃ it, w.items[ref]? = some it ∧ it.req.entityID = id

structure Sound (w : WaitingQueue) : Prop where
  placed : Placed w
  exact : Exact w
  ordered : HeapOrdered w.heap.length w.readyAt

def due (w : WaitingQueue) (id : String) : Option Time :=
  (w.pending id).bind fun ref ↦ (w.items[ref]?).map WaitingItem.readyAt

def entity (c : Request × Time) : String := c.1.entityID

variable {w v : WaitingQueue} {id : String} {ref n k : ℕ} {now : Time} {item : WaitingItem}

theorem sound_empty : Sound {} where
  placed _ _ h := by cases h
  exact _ _ := by simp
  ordered _ _ h := by cases h

theorem indexed_iff : w.toHeap.Indexed entity w.pending ↔ Placed w ∧ Exact w := by
  have hexact : Exact w ↔ ∀ id ref, w.pending id = some ref ↔
      ref ∈ w.toHeap.heap ∧ (w.toHeap.contentOf ref).map entity = some id := by
    simp only [contentOf_toHeap, Option.map_map, map_eq_some_iff]
    rfl
  rw [hexact, ← placed_toHeap]
  exact ⟨fun h ↦ ⟨h.placed, h.exact⟩, fun h ↦ ⟨h.1, h.2⟩⟩

theorem Sound.indexed (h : Sound w) : w.toHeap.Indexed entity w.pending :=
  indexed_iff.2 ⟨h.placed, h.exact⟩

theorem sound_of_indexed (h : w.toHeap.Indexed entity w.pending)
    (hordered : HeapOrdered w.heap.length w.readyAt) : Sound w :=
  ⟨(indexed_iff.1 h).1, (indexed_iff.1 h).2, hordered⟩

theorem due_eq (w : WaitingQueue) :
    w.due = (fun r ↦ r.bind fun ref ↦ (w.toHeap.contentOf ref).map Prod.snd) ∘ w.pending := by
  funext id
  simp only [due, comp_apply, contentOf_toHeap, Option.map_map]
  rfl

theorem Exact.due_of_mem (h : Exact w) (hmem : ref ∈ w.heap)
    (hit : w.items[ref]? = some it) : w.due it.req.entityID = some it.readyAt := by
  rw [due, (h _ ref).2 ⟨hmem, it, hit, rfl⟩, bind_some, hit, map_some]

theorem Exact.of_due (h : Exact w) {t : Time} (hdue : w.due id = some t) :
    ∃ (k ref : ℕ) (it : WaitingItem), w.heap[k]? = some ref ∧ w.items[ref]? = some it ∧
      it.req.entityID = id ∧ it.readyAt = t := by
  obtain ⟨ref, href, hit⟩ := bind_eq_some_iff.1 hdue
  obtain ⟨it, hit, hready⟩ := map_eq_some_iff.1 hit
  obtain ⟨hmem, it', hit', hid⟩ := (h id ref).1 href
  obtain ⟨k, hk⟩ := mem_iff_getElem?.1 hmem
  cases hit.symm.trans hit'
  exact ⟨k, ref, it, hk, hit, hid, hready⟩

theorem Placed.eq_of_getElem? (h : Placed w) {l : ℕ} (hk : w.heap[k]? = some ref)
    (hl : w.heap[l]? = some ref) : k = l :=
  PointerHeap.Placed.eq_of_getElem? (placed_toHeap.2 h) hk hl

theorem Exact.heap_ne_nil (h : Exact w) {t : Time} (hdue : w.due id = some t) : w.heap ≠ [] := by
  obtain ⟨k, ref, it, hk, -⟩ := h.of_due hdue
  intro hnil
  rw [hnil] at hk
  cases hk

theorem Sound.root_le (h : Sound w) {t : Time} (hdue : w.due id = some t) : w.readyAt 0 ≤ t := by
  obtain ⟨k, ref, it, hk, hit, -, rfl⟩ := h.exact.of_due hdue
  rw [← readyAt_of_getElem? hk hit]
  exact h.ordered.root_le (List.getElem?_eq_some_iff.1 hk).1

theorem Sound.place (h : Sound w) (hpending : w.pending id = some ref) :
    ∃ (k : ℕ) (it : WaitingItem), w.heap[k]? = some ref ∧ w.items[ref]? = some it ∧
      it.req.entityID = id ∧ it.index = k := by
  obtain ⟨hmem, it, hit, hid⟩ := (h.exact id ref).1 hpending
  obtain ⟨k, hk⟩ := mem_iff_getElem?.1 hmem
  obtain ⟨it', hit', hindex⟩ := h.placed k ref hk
  cases hit.symm.trans hit'
  exact ⟨k, it, hk, hit, hid, hindex⟩

theorem removeLast_spec (hr : w.toHeap.Rearranged v.toHeap) (hlen : w.heap.length = n + 1)
    (hlast : v.heap[n]? = some ref) (hordered : HeapOrdered n v.readyAt) :
    ∃ it v', v.removeLast = some (it, v') ∧ w.toHeap.contentOf ref = some (content it) ∧
      v'.pending = v.pending ∧ w.toHeap.Without ref v'.toHeap ∧
      HeapOrdered v'.heap.length v'.readyAt := by
  have hlen' : v.heap.length = n + 1 := hr.length.trans hlen
  obtain ⟨it, hit, -⟩ := placed_toHeap.1 hr.placed n ref hlast
  have hget : v.heap.getLast? = some ref := by
    rw [getLast?_eq_getElem?, hlen']
    exact hlast
  have hdrop : (⟨setIndex v.items ref (-1), v.heap.dropLast, v.pending⟩ : WaitingQueue).toHeap =
      v.toHeap.dropLast ref := by
    simp only [toHeap, map_setIndex, PointerHeap.dropLast]
  refine ⟨it, ⟨setIndex v.items ref (-1), v.heap.dropLast, v.pending⟩, ?_, ?_, rfl, ?_, ?_⟩
  · simp [removeLast, hget, hit]
  · rw [← hr.content, contentOf_toHeap, hit, map_some]
  · rw [hdrop]
    exact hr.dropLast hlen hlast
  · rw [length_dropLast, hlen', Nat.add_sub_cancel]
    refine hordered.congr fun c hc ↦ ?_
    rw [readyAt_eq, readyAt_eq, hdrop, contentAt_dropLast hlen' hc]

theorem Sound.without (h : Sound w) (hv : w.toHeap.Without ref v.toHeap)
    (hpending : w.pending id = some ref) (hsame : v.pending = w.pending)
    (hordered : HeapOrdered v.heap.length v.readyAt) :
    Sound (v.deletePending id) ∧ (v.deletePending id).due = update w.due id none := by
  have hdelete : (v.deletePending id).pending = update w.pending id none := by
    rw [deletePending, hsame]
  constructor
  · refine sound_of_indexed ?_ hordered
    rw [hdelete]
    exact h.indexed.erase hpending hv
  · rw [due_eq, due_eq, hdelete, comp_update]
    change update ((fun r : Option ℕ ↦ r.bind fun ref ↦ (v.toHeap.contentOf ref).map Prod.snd) ∘
      w.pending) id none = _
    rw [funext hv.content]

theorem popReady_some (h : Sound w) {req : Request} (hpop : w.popReady now = some (req, v)) :
    Sound v ∧ (∃ t ≤ now, w.due req.entityID = some t) ∧
      v.due = update w.due req.entityID none ∧ v.heap.length + 1 = w.heap.length := by
  unfold popReady at hpop
  split at hpop
  · cases hpop
  · next hgo =>
    obtain ⟨hne, hready⟩ := not_or.1 hgo
    obtain ⟨n, hlen⟩ := Nat.exists_eq_add_one_of_ne_zero (mt length_eq_zero_iff.1 hne)
    have hordered := h.ordered
    rw [hlen] at hordered
    obtain ⟨ref, href⟩ : ∃ ref, w.heap[0]? = some ref := ⟨_, getElem?_eq_getElem (by omega)⟩
    obtain ⟨it, hit, -⟩ := h.placed 0 ref href
    obtain ⟨⟨hr, hsame⟩, hlast⟩ := (moves w).lastFromRoot (placed_toHeap.2 h.placed) rfl hlen
    obtain ⟨it', v', hv, hcontent, hp, hwithout, hordered⟩ := removeLast_spec hr hlen
      (hlast.trans href) (waitingHeap_keyed.lastFromRoot_ordered hlen hordered)
    rw [hlen, Nat.add_sub_cancel, hv] at hpop
    obtain ⟨rfl, rfl⟩ := Prod.mk.inj (some.inj hpop)
    rw [contentOf_toHeap, hit] at hcontent
    have hreq : it.req = it'.req := congrArg Prod.fst (some.inj hcontent)
    have hmem : ref ∈ w.heap := mem_of_getElem? href
    have hdue := h.exact.due_of_mem hmem hit
    rw [hreq] at hdue
    obtain ⟨hsound, hnone⟩ := h.without hwithout
      ((h.exact it'.req.entityID ref).2 ⟨hmem, it, hit, congrArg Request.entityID hreq⟩)
      (hp.trans hsame) hordered
    refine ⟨hsound, ⟨it.readyAt, ?_, hdue⟩, hnone, hwithout.length⟩
    rw [← readyAt_of_getElem? href hit]
    exact not_lt.1 hready

theorem cancelPending_cases (h : Sound w) (id : String) :
    w.pending id = none ∧ w.cancelPending id = w ∨
      ∃ v : WaitingQueue, w.cancelPending id = v.deletePending id ∧
        v.heap.length + 1 = w.heap.length ∧
        Sound (v.deletePending id) ∧ (v.deletePending id).due = update w.due id none := by
  unfold cancelPending
  cases hpending : w.pending id with
  | none => exact .inl ⟨rfl, rfl⟩
  | some ref =>
    obtain ⟨k, it, hk, hit, -, hindex⟩ := h.place hpending
    have hlt := (List.getElem?_eq_some_iff.1 hk).1
    obtain ⟨n, hlen⟩ := Nat.exists_eq_add_one_of_ne_zero (Nat.ne_zero_of_lt hlt)
    have hle : k ≤ n := by omega
    have hordered := h.ordered
    rw [hlen] at hordered
    obtain ⟨⟨hr, hsame⟩, hlast⟩ := (moves w).lastFrom (placed_toHeap.2 h.placed) rfl hlen hle
    obtain ⟨it', v, hv, -, hp, hwithout, hordered⟩ :=
      removeLast_spec hr hlen (hlast.trans hk)
        (waitingHeap_keyed.lastFrom_ordered hlen hle hordered)
    refine .inr ⟨v, ?_, hwithout.length, h.without hwithout hpending (hp.trans hsame) hordered⟩
    simp only [bind_some, hit, hindex, Int.toNat_natCast, hlen, Nat.add_sub_cancel, hv]

theorem due_eq_none (hpending : w.pending id = none) : w.due id = none := by
  rw [due, hpending, bind_none]

theorem cancelPending_sound (h : Sound w) (id : String) :
    Sound (w.cancelPending id) ∧ (w.cancelPending id).due = update w.due id none := by
  obtain ⟨hnone, hsame⟩ | ⟨v, heq, -, hv⟩ := cancelPending_cases h id
  · rw [hsame, ← due_eq_none hnone, update_eq_self]
    exact ⟨h, rfl⟩
  · rw [heq]
    exact hv

def reschedule (w : WaitingQueue) (ref : ℕ) (t : Time) : WaitingQueue :=
  { w with items := w.items.modify ref fun it ↦ { it with readyAt := t } }

theorem toHeap_reschedule {t : Time} (hit : w.items[ref]? = some it) :
    (w.reschedule ref t).toHeap = w.toHeap.store ref (it.req, t) := by
  refine congrArg (PointerHeap.mk · w.heap) (ext_getElem? fun r ↦ ?_)
  rw [getElem?_map, WaitingQueue.reschedule, getElem?_modify, getElem?_modify, toHeap, getElem?_map]
  by_cases heq : ref = r
  · subst heq
    simp [hit, cell, content]
  · simp [heq]

theorem Sound.reschedule (h : Sound w) {t : Time} (hk : w.heap[k]? = some ref)
    (hit : w.items[ref]? = some it) (hpending : w.pending id = some ref) :
    Sound (waitingHeap.fix (w.reschedule ref t) k w.heap.length) ∧
      (waitingHeap.fix (w.reschedule ref t) k w.heap.length).due = update w.due id (some t) ∧
      (waitingHeap.fix (w.reschedule ref t) k w.heap.length).heap.length = w.heap.length := by
  have hlt := (List.getElem?_eq_some_iff.1 hk).1
  have hheap := toHeap_reschedule (t := t) hit
  have hcontent : w.toHeap.contentOf ref = some (content it) := by
    rw [contentOf_toHeap, hit, map_some]
  have hstore : (w.reschedule ref t).toHeap.Indexed entity w.pending := by
    rw [hheap]
    exact h.indexed.store hcontent rfl
  obtain ⟨hr, hsame⟩ : (w.reschedule ref t).toHeap.Rearranged
      (waitingHeap.fix (w.reschedule ref t) k w.heap.length).toHeap ∧
      (waitingHeap.fix (w.reschedule ref t) k w.heap.length).pending = w.pending :=
    (moves (w.reschedule ref t)).fix hstore.placed rfl hlt
  have hlen : (waitingHeap.fix (w.reschedule ref t) k w.heap.length).heap.length =
      w.heap.length := hr.length
  refine ⟨sound_of_indexed ?_ ?_, ?_, hlen⟩
  · rw [hsame]
    exact hstore.congr hr.placed hr.mem fun r _ ↦ by rw [hr.content]
  · rw [hlen]
    refine waitingHeap_keyed.fix_ordered le_rfl hlt ((h.ordered.around k).congr fun c hc hne ↦ ?_)
    rw [readyAt_eq, readyAt_eq, contentAt, contentAt, hheap]
    change ((w.heap[c]?).bind _).elim 0 Prod.snd = ((w.heap[c]?).bind _).elim 0 Prod.snd
    rw [getElem?_eq_getElem hc, bind_some, bind_some, contentOf_store]
    have hother : ref ≠ w.heap[c] := by
      rintro rfl
      exact hne (h.placed.eq_of_getElem? (getElem?_eq_getElem hc) hk)
    simp [hother]
  · funext id'
    rw [due_eq, due_eq, hsame, comp_apply]
    simp only [hr.content, hheap, contentOf_store]
    by_cases heq : id' = id
    · rw [heq, hpending, update_self]
      simp [hcontent]
    · rw [update_of_ne heq, comp_apply]
      cases hpending' : w.pending id' with
      | none => rfl
      | some r =>
        have hne : ref ≠ r := by
          rintro rfl
          have hkey := ((h.indexed.exact id ref).1 hpending).2
          exact heq (some.inj (((h.indexed.exact id' ref).1 hpending').2.symm.trans hkey))
        simp only [hne, if_false, Option.map_id', bind_some]

def appended (w : WaitingQueue) (item : WaitingItem) : WaitingQueue :=
  { w with
    items := w.items ++ [{ item with index := w.heap.length }]
    heap := w.heap ++ [w.items.length] }

theorem toHeap_appended (w : WaitingQueue) (item : WaitingItem) :
    (w.appended item).toHeap = (w.toHeap.alloc (content item)).1.append w.items.length := by
  refine congrArg (PointerHeap.mk · _) (ext_getElem? fun r ↦ ?_)
  rw [PointerHeap.getElem?_setIndex]
  change ((w.items ++ [{ item with index := (w.heap.length : ℤ) }]).map cell)[r]? =
    ((w.items.map cell ++ [⟨content item, 0⟩])[r]?).map _
  rw [map_append, getElem?_append, getElem?_append, length_map]
  split
  · next hlt =>
    rw [getElem?_map]
    have hne : w.items.length ≠ r := by omega
    simp only [hne, if_false, Option.map_id']
  · next hge =>
    cases hr : r - w.items.length with
    | zero =>
      have heq : w.items.length = r := by omega
      simp [heq, cell, content, toHeap, alloc]
    | succ m => simp

def pushed (w : WaitingQueue) (item : WaitingItem) : WaitingQueue :=
  { waitingHeap.up (w.appended item) w.heap.length with
    pending := update w.pending item.req.entityID (some w.items.length) }

theorem Sound.pushed (h : Sound w) (hpending : w.pending item.req.entityID = none) :
    Sound (w.pushed item) ∧
      (w.pushed item).due = update w.due item.req.entityID (some item.readyAt) ∧
      (w.pushed item).heap.length = w.heap.length + 1 := by
  have halloc := h.indexed.alloc (content item)
  have hlen : w.toHeap.cells.length = w.items.length := length_map ..
  have hof : (w.toHeap.alloc (content item)).1.contentOf w.items.length = some (content item) := by
    rw [contentOf_alloc, hlen, if_pos rfl]
  have hfresh : w.items.length ∉ (w.toHeap.alloc (content item)).1.heap :=
    halloc.not_mem (by rw [hof]; rfl) hpending
  have happend := halloc.placed.append (isSome_of_eq_some hof) hfresh
  rw [← toHeap_appended] at happend
  have hlt : w.heap.length < (w.appended item).toHeap.heap.length := by
    simp [toHeap, appended]
  obtain ⟨hr, -⟩ := (moves (w.appended item)).up happend rfl hlt
  have hwith : (w.toHeap.alloc (content item)).1.With w.items.length (w.pushed item).toHeap := by
    rw [toHeap_appended] at hr
    exact hr.with_append
  refine ⟨sound_of_indexed (halloc.insert (by rw [hof]; rfl) hpending hwith) ?_, ?_, hwith.length⟩
  · have hmany : (w.pushed item).heap.length = w.heap.length + 1 := hwith.length
    rw [hmany]
    refine waitingHeap_keyed.up_ordered (by simp [toHeap, appended]) (h.ordered.congr fun c hc ↦ ?_)
    obtain ⟨it, hit, -⟩ := h.placed c _ (getElem?_eq_getElem hc)
    rw [readyAt_of_getElem? (getElem?_eq_getElem hc) hit]
    refine readyAt_of_getElem? ((getElem?_append_left hc).trans (getElem?_eq_getElem hc)) ?_
    exact (getElem?_append_left (List.getElem?_eq_some_iff.1 hit).1).trans hit
  · rw [due_eq, due_eq]
    change (fun r ↦ r.bind fun ref ↦ ((w.pushed item).toHeap.contentOf ref).map Prod.snd) ∘
      update w.pending item.req.entityID (some w.items.length) = _
    rw [comp_update, bind_some, hwith.content, hof, funext hwith.content]
    refine congrArg (update · _ _) (funext fun id ↦ ?_)
    rw [comp_apply, comp_apply]
    cases hid : w.pending id with
    | none => rfl
    | some r =>
      have hne : r ≠ w.toHeap.cells.length := by
        rintro rfl
        exact length_not_mem h.indexed.placed (h.indexed.mem hid)
      rw [bind_some, bind_some, contentOf_alloc, if_neg hne]

theorem addOrMergeWaiting_spec (h : Sound w) (item : WaitingItem) :
    Sound (w.addOrMergeWaiting item) ∧ (w.addOrMergeWaiting item).due =
        update w.due item.req.entityID
          (some ((w.due item.req.entityID).elim item.readyAt (min item.readyAt))) ∧
      (w.addOrMergeWaiting item).heap.length ≤ w.heap.length + 1 := by
  unfold addOrMergeWaiting
  cases hpending : w.pending item.req.entityID with
  | none =>
    have hkeep : (waitingHeap.up (w.appended item) w.heap.length).pending = w.pending :=
      HeapInterface.siftUp_invariant (n := w.heap.length + 1) (P := fun v ↦ v.pending = w.pending)
        (s := w.appended item) (fun v i j _ _ hv ↦ (moves w).keep v i j hv) (Nat.lt_succ_self _) rfl
    have hpush : { (w.push item).1 with
        pending := update (w.push item).1.pending item.req.entityID (some (w.push item).2) }
          = w.pushed item := by
      rw [WaitingQueue.pushed, ← hkeep]
      rfl
    obtain ⟨hsound, hdue, hlen⟩ := h.pushed hpending
    rw [bind_none, due_eq_none hpending]
    simp only [hpush]
    exact ⟨hsound, hdue, hlen.le⟩
  | some ref =>
    obtain ⟨k, it, hk, hit, hid, hindex⟩ := h.place hpending
    have hdue : w.due item.req.entityID = some it.readyAt := by
      rw [← hid]
      exact h.exact.due_of_mem (mem_of_getElem? hk) hit
    simp only [bind_some, hit, map_some, hindex, Int.toNat_natCast, hdue, elim_some]
    split
    · next hlt =>
      rw [min_eq_left hlt.le]
      obtain ⟨hsound, hdue, hlen⟩ := h.reschedule (t := item.readyAt) hk hit hpending
      exact ⟨hsound, hdue, hlen.le.trans (Nat.le_succ _)⟩
    · next hge =>
      rw [min_eq_right (not_lt.1 hge), ← hdue, update_eq_self]
      exact ⟨h, rfl, Nat.le_succ _⟩

end Specification

end WaitingQueue

end GoCell.Reconcile
