import Mathlib.Algebra.Order.BigOperators.Group.List
import Mathlib.Algebra.Order.Group.Nat
import Mathlib.Data.List.Nodup

namespace GoCell.Foundation

open List

section EarlyExit

variable {ε : Type*} {α β : Type*}

theorem foldlM_early {f : β → α → Except ε β} {bad : α → Option ε} {g : β → α → β}
    (hf : ∀ b a, f b a = (bad a).elim (.ok (g b a)) .error) (l : List α) (b : β) :
    l.foldlM f b = (l.findSome? bad).elim (.ok (l.foldl g b)) .error := by
  induction l generalizing b with
  | nil => rfl
  | cons a l ih =>
    rw [foldlM_cons, hf, findSome?_cons]
    cases bad a with
    | some e => rfl
    | none => exact ih (g b a)

theorem foldlM_flatMap {γ : Type*} (f : β → α → Except ε β) (h : γ → List α) (l : List γ) (b : β) :
    (l.flatMap h).foldlM f b = l.foldlM (fun b c ↦ (h c).foldlM f b) b := by
  induction l generalizing b with
  | nil => rfl
  | cons c l ih =>
    rw [flatMap_cons, foldlM_append, foldlM_cons]
    exact bind_congr fun b' ↦ ih b'

end EarlyExit

section AddNew

variable {α : Type*} [DecidableEq α]

def addNew (l : List α) (a : α) : List α := if a ∈ l then l else l ++ [a]

theorem mem_addNew {l : List α} {a b : α} : b ∈ addNew l a ↔ b ∈ l ∨ b = a := by
  unfold addNew
  split
  · next ha =>
    constructor
    · exact .inl
    · rintro (hb | rfl)
      · exact hb
      · exact ha
  · rw [mem_append, mem_singleton]

theorem nodup_addNew {l : List α} (h : l.Nodup) (a : α) : (addNew l a).Nodup := by
  unfold addNew
  split
  · exact h
  · next ha =>
    rw [nodup_append]
    refine ⟨h, nodup_singleton a, fun b hb c hc heq ↦ ?_⟩
    obtain rfl := mem_singleton.1 hc
    exact ha (heq ▸ hb)

theorem mem_foldl_addNew {l items : List α} {b : α} :
    b ∈ items.foldl addNew l ↔ b ∈ l ∨ b ∈ items := by
  induction items generalizing l with
  | nil => simp
  | cons a items ih => rw [foldl_cons, ih, mem_addNew, mem_cons, or_assoc]

theorem nodup_foldl_addNew {l : List α} (h : l.Nodup) (items : List α) :
    (items.foldl addNew l).Nodup := by
  induction items generalizing l with
  | nil => exact h
  | cons a items ih => exact ih (nodup_addNew h a)

end AddNew

theorem append_flatMap_eq_flatMap_iff {α β : Type*} {f g : α → List β} {l : List α} (x : List β)
    (hle : ∀ a ∈ l, (f a).length ≤ (g a).length) :
    x ++ l.flatMap g = l.flatMap f ↔ x = [] ∧ ∀ a ∈ l, g a = f a := by
  induction l generalizing x with
  | nil => simp
  | cons a l ih =>
    rw [forall_mem_cons] at hle ⊢
    have hrest : (l.flatMap f).length ≤ (l.flatMap g).length := by
      simpa only [length_flatMap] using sum_le_sum hle.2
    rw [flatMap_cons, flatMap_cons]
    constructor
    · intro h
      have hlength := congrArg length h
      simp only [length_append] at hlength
      have hx : x = [] := length_eq_zero_iff.1 (by omega)
      rw [hx, nil_append] at h
      obtain ⟨ha, hl⟩ := append_inj h (by omega)
      exact ⟨hx, ha, ((ih [] hle.2).1 hl).2⟩
    · rintro ⟨rfl, ha, hl⟩
      rw [ha, nil_append, flatMap_congr hl]

end GoCell.Foundation
