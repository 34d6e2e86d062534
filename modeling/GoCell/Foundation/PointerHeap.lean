import GoCell.Foundation.BinaryHeap
import Mathlib.Data.List.Basic

namespace GoCell.Foundation

open List Option Function

structure Cell (α : Type*) where
  content : α
  index : ℤ

structure PointerHeap (α : Type*) where
  cells : List (Cell α) := []
  heap : List ℕ := []

namespace PointerHeap

variable {α : Type*}

section Operations

variable (p : PointerHeap α)

def contentOf (ref : ℕ) : Option α := (p.cells[ref]?).map Cell.content

def contentAt (k : ℕ) : Option α := (p.heap[k]?).bind p.contentOf

def setIndex (cells : List (Cell α)) (ref : ℕ) (index : ℤ) : List (Cell α) :=
  cells.modify ref fun c ↦ { c with index := index }

def swap (i j : ℕ) : PointerHeap α :=
  match p.heap[i]?, p.heap[j]? with
  | some a, some b =>
    { heap := (p.heap.set i b).set j a
      cells := setIndex (setIndex p.cells b i) a j }
  | _, _ => p

variable (before : α → α → Bool)

def interface : HeapInterface (PointerHeap α) where
  less p i j :=
    match (p.heap[i]?).bind p.contentOf, (p.heap[j]?).bind p.contentOf with
    | some a, some b => before a b
    | _, _ => false
  swap := swap

variable (p : PointerHeap α)

def alloc (a : α) : PointerHeap α × ℕ :=
  ({ p with cells := p.cells ++ [⟨a, 0⟩] }, p.cells.length)

def store (ref : ℕ) (a : α) : PointerHeap α :=
  { p with cells := p.cells.modify ref fun c ↦ { c with content := a } }

def append (ref : ℕ) : PointerHeap α where
  cells := setIndex p.cells ref p.heap.length
  heap := p.heap ++ [ref]

def push (ref : ℕ) : PointerHeap α :=
  (interface before).up (p.append ref) p.heap.length

def dropLast (ref : ℕ) : PointerHeap α where
  cells := setIndex p.cells ref (-1)
  heap := p.heap.dropLast

def removeLast : Option (ℕ × PointerHeap α) :=
  (p.heap.getLast?).map fun ref ↦ (ref, p.dropLast ref)

def pop : Option (ℕ × PointerHeap α) :=
  ((interface before).lastFromRoot p (p.heap.length - 1)).removeLast

def remove (i : ℕ) : Option (ℕ × PointerHeap α) :=
  ((interface before).lastFrom p i (p.heap.length - 1)).removeLast

end Operations

section Places

variable {p q : PointerHeap α} {i j k ref : ℕ}

def Placed (p : PointerHeap α) : Prop :=
  ∀ k ref : ℕ, p.heap[k]? = some ref → ∃ c, p.cells[ref]? = some c ∧ c.index = k

structure Rearranged (p q : PointerHeap α) : Prop where
  mem : ∀ ref, ref ∈ q.heap ↔ ref ∈ p.heap
  length : q.heap.length = p.heap.length
  content : ∀ ref, q.contentOf ref = p.contentOf ref
  placed : Placed q

theorem Rearranged.refl (h : Placed p) : Rearranged p p := ⟨fun _ ↦ .rfl, rfl, fun _ ↦ rfl, h⟩

theorem getElem?_setIndex (cells : List (Cell α)) (ref r : ℕ) (index : ℤ) :
    (setIndex cells ref index)[r]? =
      (cells[r]?).map fun c ↦ if ref = r then { c with index := index } else c := by
  rw [setIndex, List.getElem?_modify]
  rfl

theorem content_setIndex (cells : List (Cell α)) (ref r : ℕ) (index : ℤ) :
    ((setIndex cells ref index)[r]?).map Cell.content = (cells[r]?).map Cell.content := by
  rw [getElem?_setIndex, Option.map_map]
  congr 1
  funext c
  simp only [comp_apply]
  split <;> rfl

theorem heap_swap (hi : i < p.heap.length) (hj : j < p.heap.length) (k : ℕ) :
    (p.swap i j).heap[k]? = p.heap[Equiv.swap i j k]? := by
  rw [swap, getElem?_eq_getElem hi, getElem?_eq_getElem hj]
  simp only
  by_cases hk : k = j
  · rw [hk, Equiv.swap_apply_right, getElem?_set_self (by simpa using hj), getElem?_eq_getElem hi]
  rw [getElem?_set_ne (Ne.symm hk)]
  by_cases hki : k = i
  · rw [hki, Equiv.swap_apply_left, getElem?_set_self hi, getElem?_eq_getElem hj]
  · rw [getElem?_set_ne (Ne.symm hki), Equiv.swap_apply_of_ne_of_ne hki hk]

theorem length_swap (p : PointerHeap α) (i j : ℕ) : (p.swap i j).heap.length = p.heap.length := by
  unfold swap
  split
  · simp
  · rfl

theorem content_swap (p : PointerHeap α) (i j ref : ℕ) :
    (p.swap i j).contentOf ref = p.contentOf ref := by
  unfold swap
  split
  · rw [contentOf, content_setIndex, content_setIndex]
    rfl
  · rfl

theorem contentAt_swap (hi : i < p.heap.length) (hj : j < p.heap.length) (k : ℕ) :
    (p.swap i j).contentAt k = p.contentAt (Equiv.swap i j k) := by
  simp only [contentAt, heap_swap hi hj, funext (content_swap p i j)]

theorem Placed.eq_of_getElem? (h : Placed p) (hi : p.heap[i]? = some ref)
    (hj : p.heap[j]? = some ref) : i = j := by
  obtain ⟨c, hc, hci⟩ := h i ref hi
  obtain ⟨d, hd, hdj⟩ := h j ref hj
  cases hc.symm.trans hd
  exact_mod_cast hci.symm.trans hdj

theorem Placed.swap (h : Placed p) (hi : i < p.heap.length) (hj : j < p.heap.length) :
    Placed (p.swap i j) := by
  intro k ref hk
  rw [heap_swap hi hj] at hk
  obtain ⟨c, hc, hindex⟩ := h _ ref hk
  have hgeti := getElem?_eq_getElem hi
  have hgetj := getElem?_eq_getElem hj
  rw [PointerHeap.swap, hgeti, hgetj]
  simp only [getElem?_setIndex, hc, map_some, some.injEq, exists_eq_left']
  -- Which of the two exchanged pointers it is can be read off its old place.
  have hfrom : p.heap[i] = ref ↔ k = j := by
    constructor
    · intro heq
      rw [heq] at hgeti
      have hplace := h.eq_of_getElem? hk hgeti
      rw [Equiv.swap_apply_eq_iff, Equiv.swap_apply_left] at hplace
      exact hplace
    · rintro rfl
      rw [Equiv.swap_apply_right, hgeti] at hk
      exact some.inj hk
  have hto : p.heap[j] = ref ↔ k = i := by
    constructor
    · intro heq
      rw [heq] at hgetj
      have hplace := h.eq_of_getElem? hk hgetj
      rw [Equiv.swap_apply_eq_iff, Equiv.swap_apply_right] at hplace
      exact hplace
    · rintro rfl
      rw [Equiv.swap_apply_left, hgetj] at hk
      exact some.inj hk
  by_cases hkj : k = j
  · rw [if_pos (hfrom.2 hkj), hkj]
  rw [if_neg (mt hfrom.1 hkj)]
  by_cases hki : k = i
  · rw [if_pos (hto.2 hki), hki]
  · rw [if_neg (mt hto.1 hki), hindex, Equiv.swap_apply_of_ne_of_ne hki hkj]

theorem Rearranged.swap (h : Rearranged p q) (hi : i < p.heap.length) (hj : j < p.heap.length) :
    Rearranged p (q.swap i j) := by
  rw [← h.length] at hi hj
  refine ⟨fun ref ↦ ?_, ?_, fun ref ↦ ?_, h.placed.swap hi hj⟩
  · rw [← h.mem, mem_iff_getElem?, mem_iff_getElem?]
    simp only [heap_swap hi hj]
    exact (Equiv.swap i j).exists_congr_left.trans (by simp)
  · rw [length_swap, h.length]
  · rw [content_swap, h.content]

end Places

section Moves

variable {σ : Type*} {H : HeapInterface σ} {φ : σ → PointerHeap α} {Q : σ → Prop} {s : σ}
  {p : PointerHeap α} {i j n : ℕ}

/-- States that show a heap, whose pointers they exchange, and keep `Q`. -/
structure Moves (H : HeapInterface σ) (φ : σ → PointerHeap α) (Q : σ → Prop) : Prop where
  swap : ∀ s i j, φ (H.swap s i j) = (φ s).swap i j
  keep : ∀ s i j, Q s → Q (H.swap s i j)

section

variable (m : Moves H φ Q)
include m

theorem Moves.step (h : Rearranged p (φ s) ∧ Q s) (hi : i < p.heap.length)
    (hj : j < p.heap.length) : Rearranged p (φ (H.swap s i j)) ∧ Q (H.swap s i j) := by
  refine ⟨?_, m.keep s i j h.2⟩
  rw [m.swap]
  exact h.1.swap hi hj

theorem Moves.fix (h : Placed (φ s)) (hs : Q s) (hi : i < (φ s).heap.length) :
    Rearranged (φ s) (φ (H.fix s i (φ s).heap.length)) ∧ Q (H.fix s i (φ s).heap.length) :=
  HeapInterface.fix_invariant (P := fun s' ↦ Rearranged (φ s) (φ s') ∧ Q s')
    (fun _ _ _ hi hj h ↦ m.step h hi hj) hi ⟨.refl h, hs⟩

theorem Moves.up (h : Placed (φ s)) (hs : Q s) (hi : i < (φ s).heap.length) :
    Rearranged (φ s) (φ (H.up s i)) ∧ Q (H.up s i) :=
  HeapInterface.siftUp_invariant (P := fun s' ↦ Rearranged (φ s) (φ s') ∧ Q s')
    (fun _ _ _ hi hj h ↦ m.step h hi hj) hi ⟨.refl h, hs⟩

theorem Moves.step_below {r : Option ℕ} (hlen : p.heap.length = n + 1)
    (h : (Rearranged p (φ s) ∧ Q s) ∧ (φ s).heap[n]? = r) (hi : i < n) (hj : j < n) :
    (Rearranged p (φ (H.swap s i j)) ∧ Q (H.swap s i j)) ∧ (φ (H.swap s i j)).heap[n]? = r := by
  have hlen' := h.1.1.length
  refine ⟨m.step h.1 (by omega) (by omega), ?_⟩
  rw [m.swap, heap_swap (by omega) (by omega), Equiv.swap_apply_of_ne_of_ne (by omega) (by omega)]
  exact h.2

section

variable (h : Placed (φ s)) (hs : Q s) (hlen : (φ s).heap.length = n + 1)
include h hs hlen

theorem Moves.step_last (hi : i ≤ n) : (Rearranged (φ s) (φ (H.swap s i n)) ∧ Q (H.swap s i n)) ∧
      (φ (H.swap s i n)).heap[n]? = (φ s).heap[i]? := by
  refine ⟨m.step ⟨.refl h, hs⟩ (by omega) (by omega), ?_⟩
  rw [m.swap, heap_swap (by omega) (by omega), Equiv.swap_apply_right]

theorem Moves.lastFromRoot : (Rearranged (φ s) (φ (H.lastFromRoot s n)) ∧ Q (H.lastFromRoot s n)) ∧
      (φ (H.lastFromRoot s n)).heap[n]? = (φ s).heap[0]? :=
  HeapInterface.lastFromRoot_invariant
    (P := fun s' ↦ (Rearranged (φ s) (φ s') ∧ Q s') ∧ (φ s').heap[n]? = (φ s).heap[0]?)
    (fun _ _ _ hi hj h ↦ m.step_below hlen h hi hj) (m.step_last h hs hlen (Nat.zero_le n))

theorem Moves.lastFrom (hi : i ≤ n) :
    (Rearranged (φ s) (φ (H.lastFrom s i n)) ∧ Q (H.lastFrom s i n)) ∧
      (φ (H.lastFrom s i n)).heap[n]? = (φ s).heap[i]? :=
  HeapInterface.lastFrom_invariant
    (P := fun s' ↦ (Rearranged (φ s) (φ s') ∧ Q s') ∧ (φ s').heap[n]? = (φ s).heap[i]?)
    (fun _ _ _ hi hj h ↦ m.step_below hlen h hi hj) hi
    (fun heq ↦ ⟨⟨.refl h, hs⟩, by rw [heq]⟩) (m.step_last h hs hlen hi)

end

end

theorem moves (before : α → α → Bool) : Moves (interface before) (fun p ↦ p) fun _ ↦ True :=
  ⟨fun _ _ _ ↦ rfl, fun _ _ _ _ ↦ trivial⟩

end Moves

section Specifications

variable (before : α → α → Bool) {p q : PointerHeap α} {i n ref : ℕ}

structure Without (p : PointerHeap α) (ref : ℕ) (q : PointerHeap α) : Prop where
  mem : ∀ r, r ∈ q.heap ↔ r ∈ p.heap ∧ r ≠ ref
  length : q.heap.length + 1 = p.heap.length
  content : ∀ r, q.contentOf r = p.contentOf r
  placed : Placed q

theorem heap_dropLast (hlen : p.heap.length = n + 1) (k : ℕ) :
    (p.dropLast ref).heap[k]? = if k < n then p.heap[k]? else none := by
  rw [dropLast, getElem?_dropLast, hlen, Nat.add_sub_cancel]

theorem contentAt_dropLast (hlen : p.heap.length = n + 1) (hi : i < n) :
    (p.dropLast ref).contentAt i = p.contentAt i := by
  rw [contentAt, contentAt, heap_dropLast hlen, if_pos hi]
  exact congrArg _ (funext fun r ↦ content_setIndex ..)

theorem Placed.dropLast (h : Placed p) (hlen : p.heap.length = n + 1)
    (hlast : p.heap[n]? = some ref) : p.Without ref (p.dropLast ref) := by
  refine ⟨fun r ↦ ?_, ?_, fun r ↦ content_setIndex .., fun k r hk ↦ ?_⟩
  · rw [mem_iff_getElem?, mem_iff_getElem?]
    constructor
    · rintro ⟨k, hk⟩
      rw [heap_dropLast hlen] at hk
      split at hk
      · next hlt =>
        refine ⟨⟨k, hk⟩, ?_⟩
        rintro rfl
        exact absurd (h.eq_of_getElem? hk hlast) (by omega)
      · cases hk
    · rintro ⟨⟨k, hk⟩, hne⟩
      have hlt := (List.getElem?_eq_some_iff.1 hk).1
      have hkn : k ≠ n := by
        rintro rfl
        exact hne (some.inj (hk.symm.trans hlast))
      exact ⟨k, by rw [heap_dropLast hlen, if_pos (by omega)]; exact hk⟩
  · simp [PointerHeap.dropLast, hlen]
  · rw [heap_dropLast hlen] at hk
    split at hk
    · next hlt =>
      obtain ⟨c, hc, hindex⟩ := h k r hk
      have hne : ref ≠ r := by
        rintro rfl
        exact absurd (h.eq_of_getElem? hk hlast) (by omega)
      refine ⟨c, ?_, hindex⟩
      rw [PointerHeap.dropLast, getElem?_setIndex, hc, map_some, if_neg hne]
    · cases hk

theorem Rearranged.dropLast (h : Rearranged p q) (hlen : p.heap.length = n + 1)
    (hlast : q.heap[n]? = some ref) : p.Without ref (q.dropLast ref) := by
  have hwithout := h.placed.dropLast (h.length.trans hlen) hlast
  refine ⟨fun r ↦ ?_, hwithout.length.trans h.length,
    fun r ↦ (hwithout.content r).trans (h.content r), hwithout.placed⟩
  rw [hwithout.mem, h.mem]

theorem removeLast_eq (hlen : p.heap.length = n + 1) (hlast : p.heap[n]? = some ref) :
    p.removeLast = some (ref, p.dropLast ref) := by
  rw [removeLast, getLast?_eq_getElem?, hlen, Nat.add_sub_cancel, hlast, map_some]

theorem pop_spec (h : Placed p) (hne : p.heap ≠ []) :
    ∃ ref q, p.pop before = some (ref, q) ∧ p.heap[0]? = some ref ∧ p.Without ref q := by
  obtain ⟨n, hlen⟩ := Nat.exists_eq_add_one_of_ne_zero (mt length_eq_zero_iff.1 hne)
  obtain ⟨⟨hr, -⟩, hlast⟩ := (moves before).lastFromRoot h trivial hlen
  obtain ⟨ref, hroot⟩ : ∃ ref, p.heap[0]? = some ref :=
    ⟨_, getElem?_eq_getElem (by omega)⟩
  rw [hroot] at hlast
  refine ⟨ref, _, ?_, hroot, hr.dropLast hlen hlast⟩
  rw [pop, hlen, Nat.add_sub_cancel]
  exact removeLast_eq (hr.length.trans hlen) hlast

theorem remove_spec (h : Placed p) (hi : p.heap[i]? = some ref) :
    ∃ q, p.remove before i = some (ref, q) ∧ p.Without ref q := by
  have hlt := (List.getElem?_eq_some_iff.1 hi).1
  obtain ⟨n, hlen⟩ := Nat.exists_eq_add_one_of_ne_zero (Nat.ne_zero_of_lt hlt)
  obtain ⟨⟨hr, -⟩, hlast⟩ := (moves before).lastFrom h trivial hlen (show i ≤ n by omega)
  rw [hi] at hlast
  refine ⟨_, ?_, hr.dropLast hlen hlast⟩
  rw [remove, hlen, Nat.add_sub_cancel]
  exact removeLast_eq (hr.length.trans hlen) hlast

structure With (p : PointerHeap α) (ref : ℕ) (q : PointerHeap α) : Prop where
  mem : ∀ r, r ∈ q.heap ↔ r ∈ p.heap ∨ r = ref
  length : q.heap.length = p.heap.length + 1
  content : ∀ r, q.contentOf r = p.contentOf r
  placed : Placed q

theorem Placed.append (h : Placed p) (hcell : (p.contentOf ref).isSome) (hnew : ref ∉ p.heap) :
    Placed (p.append ref) := by
  intro k r hk
  have hget := (getElem?_setIndex p.cells ref r p.heap.length)
  by_cases hlt : k < p.heap.length
  · have hk : p.heap[k]? = some r := by rwa [PointerHeap.append, getElem?_append_left hlt] at hk
    obtain ⟨c, hc, hindex⟩ := h k r hk
    have hne : ref ≠ r := by
      rintro rfl
      exact hnew (mem_of_getElem? hk)
    refine ⟨c, hget.trans ?_, hindex⟩
    rw [hc, map_some, if_neg hne]
  · rw [PointerHeap.append, List.getElem?_append_right (by omega)] at hk
    obtain ⟨hk0, hr⟩ : k - p.heap.length = 0 ∧ ref = r := by
      have hlt' := (List.getElem?_eq_some_iff.1 hk).1
      rw [length_singleton] at hlt'
      have hk0 : k - p.heap.length = 0 := by omega
      rw [hk0] at hk
      exact ⟨hk0, some.inj hk⟩
    subst hr
    rw [contentOf, isSome_map] at hcell
    obtain ⟨c, hc⟩ := isSome_iff_exists.1 hcell
    refine ⟨_, hget.trans (by rw [hc, map_some, if_pos rfl]), ?_⟩
    change (p.heap.length : ℤ) = k
    omega

theorem Rearranged.with_append (h : Rearranged (p.append ref) q) : p.With ref q := by
  refine ⟨fun r ↦ ?_, ?_, fun r ↦ (h.content r).trans (content_setIndex ..), h.placed⟩
  · rw [h.mem, PointerHeap.append, mem_append, mem_singleton]
  · rw [h.length, PointerHeap.append, length_append, length_singleton]

theorem length_append_heap : p.heap.length < (p.append ref).heap.length := by
  rw [PointerHeap.append, length_append, length_singleton]
  omega

theorem push_spec (h : Placed p) (hcell : (p.contentOf ref).isSome) (hnew : ref ∉ p.heap) :
    p.With ref (p.push before ref) :=
  ((moves before).up (h.append hcell hnew) trivial length_append_heap).1.with_append

theorem Placed.alloc (h : Placed p) (a : α) : Placed (p.alloc a).1 := by
  intro k ref hk
  obtain ⟨c, hc, hindex⟩ := h k ref hk
  exact ⟨c, (List.getElem?_append_left (List.getElem?_eq_some_iff.1 hc).1).trans hc, hindex⟩

theorem contentOf_alloc (p : PointerHeap α) (a : α) (ref : ℕ) : (p.alloc a).1.contentOf ref =
      if ref = p.cells.length then some a else p.contentOf ref := by
  rw [contentOf, contentOf, PointerHeap.alloc]
  obtain hlt | rfl | hgt := Nat.lt_trichotomy ref p.cells.length
  · rw [getElem?_append_left hlt, if_neg (by omega)]
  · rw [if_pos rfl, getElem?_concat_length]
    rfl
  · have hnone : (p.cells ++ [⟨a, 0⟩])[ref]? = none := by
      rw [getElem?_eq_none_iff, length_append, length_singleton]
      omega
    rw [if_neg (by omega), hnone, List.getElem?_eq_none_iff.2 (by omega)]

theorem contentOf_store (p : PointerHeap α) (ref r : ℕ) (a : α) :
    (p.store ref a).contentOf r = (p.contentOf r).map fun b ↦ if ref = r then a else b := by
  rw [contentOf, contentOf, PointerHeap.store, List.getElem?_modify, Option.map_map]
  cases p.cells[r]? with
  | none => rfl
  | some c =>
    simp only [map_some, comp_apply]
    split <;> rfl

theorem Placed.store (h : Placed p) (ref : ℕ) (a : α) : Placed (p.store ref a) := by
  intro k r hk
  obtain ⟨c, hc, hindex⟩ := h k r hk
  refine ⟨_, by rw [PointerHeap.store, getElem?_modify, hc]; rfl, ?_⟩
  dsimp only
  split
  · exact hindex
  · exact hindex

theorem contentOf_isSome (h : Placed p) (hmem : ref ∈ p.heap) : (p.contentOf ref).isSome := by
  obtain ⟨k, hk⟩ := mem_iff_getElem?.1 hmem
  obtain ⟨c, hc, -⟩ := h k ref hk
  rw [contentOf, hc]
  rfl

end Specifications

section Index

variable {κ : Type*} {key : α → κ} {index : κ → Option ℕ} {p q : PointerHeap α}
  {k : κ} {ref : ℕ}

/-- The map leads from a key to the pointer in the heap whose cell holds it. -/
structure Indexed (key : α → κ) (index : κ → Option ℕ) (p : PointerHeap α) : Prop where
  placed : p.Placed
  exact : ∀ k ref, index k = some ref ↔ ref ∈ p.heap ∧ (p.contentOf ref).map key = some k

theorem Indexed.mem (h : Indexed key index p) (hk : index k = some ref) : ref ∈ p.heap :=
  ((h.exact k ref).1 hk).1

theorem Indexed.not_mem (h : Indexed key index p) (hkey : (p.contentOf ref).map key = some k)
    (hnone : index k = none) : ref ∉ p.heap := by
  intro hmem
  cases hnone.symm.trans ((h.exact k ref).2 ⟨hmem, hkey⟩)

theorem Indexed.insert [DecidableEq κ] (h : Indexed key index p)
    (hkey : (p.contentOf ref).map key = some k) (hnone : index k = none) (hq : p.With ref q) :
    Indexed key (update index k (some ref)) q := by
  refine ⟨hq.placed, fun k' ref' ↦ ?_⟩
  rw [hq.mem, hq.content]
  by_cases heq : k' = k
  · subst heq
    rw [update_self, some.injEq]
    constructor
    · rintro rfl
      exact ⟨.inr rfl, hkey⟩
    · rintro ⟨hin | rfl, hkey'⟩
      · exact absurd hin (h.not_mem hkey' hnone)
      · rfl
  · rw [update_of_ne heq, h.exact]
    constructor
    · rintro ⟨hin, hkey'⟩
      exact ⟨.inl hin, hkey'⟩
    · rintro ⟨hin | rfl, hkey'⟩
      · exact ⟨hin, hkey'⟩
      · exact absurd (some.inj (hkey'.symm.trans hkey)) heq

theorem Indexed.erase [DecidableEq κ] (h : Indexed key index p) (hk : index k = some ref)
    (hq : p.Without ref q) : Indexed key (update index k none) q := by
  refine ⟨hq.placed, fun k' ref' ↦ ?_⟩
  rw [hq.mem, hq.content]
  have hkey := ((h.exact k ref).1 hk).2
  by_cases heq : k' = k
  · subst heq
    rw [update_self]
    constructor
    · exact nofun
    · rintro ⟨⟨hin, hne⟩, hkey'⟩
      have hsame := (h.exact k' ref').2 ⟨hin, hkey'⟩
      exact absurd (some.inj (hsame.symm.trans hk)) hne
  · rw [update_of_ne heq, h.exact]
    constructor
    · rintro ⟨hin, hkey'⟩
      refine ⟨⟨hin, ?_⟩, hkey'⟩
      rintro rfl
      exact heq (some.inj (hkey'.symm.trans hkey))
    · rintro ⟨⟨hin, -⟩, hkey'⟩
      exact ⟨hin, hkey'⟩

theorem Indexed.congr (h : Indexed key index p) (hplaced : q.Placed)
    (hmem : ∀ ref, ref ∈ q.heap ↔ ref ∈ p.heap)
    (hkey : ∀ ref ∈ p.heap, (q.contentOf ref).map key = (p.contentOf ref).map key) :
    Indexed key index q := by
  refine ⟨hplaced, fun k ref ↦ ?_⟩
  rw [h.exact, hmem]
  refine and_congr_right fun hin ↦ ?_
  rw [hkey ref hin]

theorem contentOf_length : p.contentOf p.cells.length = none := by
  rw [contentOf, List.getElem?_eq_none_iff.2 le_rfl, map_none]

theorem length_not_mem (h : Placed p) : p.cells.length ∉ p.heap := by
  intro hmem
  have hcell := contentOf_isSome h hmem
  rw [contentOf_length] at hcell
  cases hcell

theorem Indexed.alloc (h : Indexed key index p) (a : α) : Indexed key index (p.alloc a).1 := by
  refine h.congr (h.placed.alloc a) (fun _ ↦ .rfl) fun ref hin ↦ ?_
  rw [contentOf_alloc, if_neg]
  rintro rfl
  exact length_not_mem h.placed hin

theorem Indexed.store (h : Indexed key index p) {a b : α} (hb : p.contentOf ref = some b)
    (hkey : key a = key b) : Indexed key index (p.store ref a) := by
  refine h.congr (h.placed.store ref a) (fun _ ↦ .rfl) fun r _ ↦ ?_
  rw [contentOf_store]
  by_cases heq : ref = r
  · subst heq
    simp [hb, hkey]
  · simp [heq]

end Index

end PointerHeap

end GoCell.Foundation
