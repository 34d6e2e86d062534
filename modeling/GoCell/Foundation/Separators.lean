import Mathlib.Data.List.Basic

namespace GoCell.Foundation

open List

variable {α : Type*} {c : α} {as bs as' bs' : List α}

theorem split_first (has : c ∉ as) (has' : c ∉ as')
    (h : as ++ c :: bs = as' ++ c :: bs') : as = as' ∧ bs = bs' := by
  induction as generalizing as' with
  | nil =>
    cases as' with
    | nil => exact ⟨rfl, (cons.inj h).2⟩
    | cons a as' => exact absurd ((cons.inj h).1 ▸ mem_cons_self) has'
  | cons b as ih =>
    cases as' with
    | nil => exact absurd ((cons.inj h).1 ▸ mem_cons_self) has
    | cons a as' =>
      obtain ⟨rfl, hrest⟩ := cons.inj h
      obtain ⟨rfl, rfl⟩ := ih (fun hmem ↦ has (mem_cons_of_mem _ hmem))
        (fun hmem ↦ has' (mem_cons_of_mem _ hmem)) hrest
      exact ⟨rfl, rfl⟩

theorem split_cases (h : as ++ c :: bs = as' ++ c :: bs') :
    (as = as' ∧ bs = bs') ∨ (∃ rs, as' = as ++ c :: rs ∧ bs = rs ++ c :: bs') ∨
      ∃ rs, as = as' ++ c :: rs ∧ bs' = rs ++ c :: bs := by
  rcases append_eq_append_iff.1 h with ⟨mid, hleft, hright⟩ | ⟨mid, hleft, hright⟩
  · cases mid with
    | nil => exact .inl ⟨by simpa using hleft.symm, (cons.inj hright).2⟩
    | cons d rs =>
      obtain ⟨rfl, hbs⟩ := cons.inj hright
      exact .inr (.inl ⟨rs, hleft, hbs⟩)
  · cases mid with
    | nil => exact .inl ⟨by simpa using hleft, (cons.inj hright).2.symm⟩
    | cons d rs =>
      obtain ⟨rfl, hbs⟩ := cons.inj hright
      exact .inr (.inr ⟨rs, hleft, hbs⟩)

theorem split_last (hbs : c ∉ bs) (hbs' : c ∉ bs')
    (h : as ++ c :: bs = as' ++ c :: bs') : as = as' ∧ bs = bs' := by
  obtain heq | ⟨rs, -, rfl⟩ | ⟨rs, -, rfl⟩ := split_cases h
  · exact heq
  · exact absurd (mem_append_right rs mem_cons_self) hbs
  · exact absurd (mem_append_right rs mem_cons_self) hbs'

def joinWith (c : α) : List (List α) → List α
  | [] => []
  | [w] => w
  | w :: ws => w ++ c :: joinWith c ws

theorem joinWith_cons {w : List α} {ws : List (List α)} (h : ws ≠ []) :
    joinWith c (w :: ws) = w ++ c :: joinWith c ws := by
  cases ws with
  | nil => exact absurd rfl h
  | cons v ws => rfl

theorem length_le_of_joinWith_eq {ws vs : List (List α)} (hws : ∀ w ∈ ws, c ∉ w)
    (hne : ws ≠ []) (h : joinWith c ws = joinWith c vs) : vs.length ≤ ws.length := by
  induction ws generalizing vs with
  | nil => exact absurd rfl hne
  | cons w ws ih =>
    obtain ⟨hw, hws⟩ := forall_mem_cons.1 hws
    match vs with
    | [] => exact Nat.zero_le _
    | [v] => exact Nat.succ_le_succ (Nat.zero_le _)
    | v :: u :: vs =>
      rw [joinWith_cons (cons_ne_nil u vs)] at h
      by_cases hnil : ws = []
      · subst hnil
        change w = _ at h
        exact absurd (h ▸ mem_append_right v mem_cons_self) hw
      · rw [joinWith_cons hnil] at h
        apply Nat.succ_le_succ
        obtain ⟨-, hrest⟩ | ⟨rs, -, hrest⟩ | ⟨rs, rfl, -⟩ := split_cases h
        · exact ih hws hnil hrest
        · rw [← joinWith_cons (cons_ne_nil u vs)] at hrest
          exact Nat.le_of_succ_le (ih hws hnil hrest)
        · exact absurd (mem_append_right v mem_cons_self) hw

theorem joinWith_inj {ws vs : List (List α)} (hws : ∀ w ∈ ws, c ∉ w)
    (hlength : ws.length = vs.length) (h : joinWith c ws = joinWith c vs) : ws = vs := by
  induction ws generalizing vs with
  | nil => exact (eq_nil_of_length_eq_zero hlength.symm).symm
  | cons w ws ih =>
    obtain ⟨hw, hrest⟩ := forall_mem_cons.1 hws
    cases vs with
    | nil => cases hlength
    | cons v vs =>
      have htail : ws.length = vs.length := Nat.succ.inj hlength
      by_cases hnil : ws = []
      · subst hnil
        obtain rfl := eq_nil_of_length_eq_zero htail.symm
        exact congrArg (· :: []) h
      · have hnil' : vs ≠ [] := fun hvs ↦ hnil (eq_nil_of_length_eq_zero (by rw [htail, hvs]; rfl))
        rw [joinWith_cons hnil, joinWith_cons hnil'] at h
        obtain ⟨rfl, hjoin⟩ | ⟨rs, -, hjoin⟩ | ⟨rs, rfl, -⟩ := split_cases h
        · rw [ih hrest htail hjoin]
        · rw [← joinWith_cons hnil'] at hjoin
          have hlonger := length_le_of_joinWith_eq hrest hnil hjoin
          rw [length_cons, htail] at hlonger
          exact absurd hlonger (Nat.not_succ_le_self _)
        · exact absurd (mem_append_right v mem_cons_self) hw

end GoCell.Foundation
