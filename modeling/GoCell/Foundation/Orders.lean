import Mathlib.Data.List.Sort

namespace GoCell.Foundation

variable {T : Type}

structure WeakOrderOn (cmp : T → T → Ordering) (l : List T) : Prop where
  swap : ∀ a ∈ l, ∀ b ∈ l, cmp b a = (cmp a b).swap
  trans : ∀ a ∈ l, ∀ b ∈ l, ∀ c ∈ l, (cmp a b).isLE = true → (cmp b c).isLE = true →
    (cmp a c).isLE = true

theorem weakOrderOn_of_transCmp {cmp cmp' : T → T → Ordering} [Std.TransCmp cmp'] {l : List T}
    (h : ∀ a ∈ l, ∀ b ∈ l, cmp a b = cmp' a b) : WeakOrderOn cmp l where
  swap a ha b hb := by
    rw [h b hb a ha, h a ha b hb]
    exact Std.OrientedCmp.eq_swap
  trans a ha b hb c hc hab hbc := by
    rw [h a ha b hb] at hab
    rw [h b hb c hc] at hbc
    rw [h a ha c hc]
    exact Std.TransCmp.isLE_trans hab hbc

variable {cmp : T → T → Ordering}

theorem WeakOrderOn.refl {l : List T} (h : WeakOrderOn cmp l) {a : T}
    (ha : a ∈ l) : cmp a a = .eq := by
  have hswap := h.swap a ha a ha
  cases hcmp : cmp a a with
  | eq => rfl
  | lt | gt => simp [hcmp] at hswap

/-- A sorting function that need not be stable: it permutes the items, and it sorts them by a
comparison that is a weak order on them. -/
structure SortFunc where
  sort : {T : Type} → (T → T → Ordering) → List T → List T
  perm : ∀ {T : Type} (cmp : T → T → Ordering) (l : List T), (sort cmp l).Perm l
  sorted : ∀ {T : Type} {cmp : T → T → Ordering} {l : List T}, WeakOrderOn cmp l →
    (sort cmp l).Pairwise fun a b ↦ (cmp a b).isLE = true

theorem pairwise_insertionSort_of_weakOrderOn {l : List T} (h : WeakOrderOn cmp l) :
    (l.insertionSort fun a b ↦ (cmp a b).isLE = true).Pairwise fun a b ↦ (cmp a b).isLE = true := by
  let le : {a // a ∈ l} → {a // a ∈ l} → Prop := fun a b ↦ (cmp a.1 b.1).isLE = true
  have htotal : Std.Total le := by
    refine ⟨fun a b ↦ ?_⟩
    simp only [le, h.swap a.1 a.2 b.1 b.2]
    cases cmp a.1 b.1 <;> simp
  have htrans : IsTrans _ le :=
    ⟨fun a b c hab hbc ↦ h.trans a.1 a.2 b.1 b.2 c.1 c.2 hab hbc⟩
  have hattach := List.pairwise_insertionSort le l.attach
  have hmap := List.map_insertionSort le (fun a b ↦ (cmp a b).isLE = true) Subtype.val l.attach
    fun _ _ _ _ ↦ Iff.rfl
  rw [List.attach_map_subtype_val] at hmap
  rw [← hmap, List.pairwise_map]
  exact hattach

def insertionSorting : SortFunc where
  sort cmp l := l.insertionSort fun a b ↦ (cmp a b).isLE = true
  perm _ l := List.perm_insertionSort _ l
  sorted h := pairwise_insertionSort_of_weakOrderOn h

theorem SortFunc.sorted_lt (sf : SortFunc) {l : List T}
    (h : WeakOrderOn cmp l) (hne : l.Pairwise fun a b ↦ cmp a b ≠ .eq) :
    (sf.sort cmp l).Pairwise fun a b ↦ cmp a b = .lt := by
  let apart : T → T → Prop := fun a b ↦ a ∈ l → b ∈ l → cmp a b ≠ .eq ∧ cmp b a ≠ .eq
  have hsymm : ∀ {a b : T}, apart a b → apart b a := fun hab hb ha ↦ (hab ha hb).symm
  have hapart : l.Pairwise apart := by
    refine hne.imp fun {a b} hab ha hb ↦ ⟨hab, fun heq ↦ hab ?_⟩
    rw [h.swap b hb a ha, heq]
    rfl
  have hperm := sf.perm cmp l
  have hsorted := (sf.sorted h).and ((hperm.pairwise_iff hsymm).2 hapart)
  refine hsorted.imp_of_mem fun {a b} ha hb hab ↦ ?_
  have hcmp := (hab.2 (hperm.mem_iff.1 ha) (hperm.mem_iff.1 hb)).1
  have hle := hab.1
  cases hlt : cmp a b with
  | lt => rfl
  | eq => exact absurd hlt hcmp
  | gt => simp [hlt] at hle

structure Arrangement {κ : Type} [LinearOrder κ] (key : T → κ) where
  arrange : List T → List T
  perm : ∀ l, (arrange l).Perm l
  sorted : ∀ l, (arrange l).Pairwise fun a b ↦ key a ≤ key b

section Arrangement

variable {κ : Type} [LinearOrder κ] {key : T → κ}

def insertionArrangement (key : T → κ) : Arrangement key where
  arrange l := l.insertionSort fun a b ↦ key a ≤ key b
  perm l := List.perm_insertionSort _ l
  sorted l := by
    have htotal : Std.Total fun a b : T ↦ key a ≤ key b := ⟨fun a b ↦ le_total (key a) (key b)⟩
    have htrans : IsTrans T fun a b ↦ key a ≤ key b := ⟨fun _ _ _ ↦ le_trans⟩
    exact List.pairwise_insertionSort _ l

end Arrangement

end GoCell.Foundation
