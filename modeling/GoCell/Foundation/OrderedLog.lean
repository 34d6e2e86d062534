import Mathlib.Data.List.Basic
import Mathlib.Data.List.Induction

namespace GoCell.Foundation

open List

variable {α : Type*} {pos : α → ℕ} {log rest : List α} {e : α} {n : ℕ}

def Ascending (pos : α → ℕ) (log : List α) : Prop := log.Pairwise fun a b ↦ pos a < pos b

def upTo (pos : α → ℕ) (log : List α) (n : ℕ) : List α := log.filter fun e ↦ pos e ≤ n

def since (pos : α → ℕ) (log : List α) (n : ℕ) : List α := log.filter fun e ↦ n < pos e

def lastPos (pos : α → ℕ) (log : List α) : ℕ := (log.getLast?.map pos).getD 0

theorem mem_upTo : e ∈ upTo pos log n ↔ e ∈ log ∧ pos e ≤ n := by simp [upTo]

theorem mem_since : e ∈ since pos log n ↔ e ∈ log ∧ n < pos e := by simp [since]

theorem ascending_concat :
    Ascending pos (log ++ [e]) ↔ Ascending pos log ∧ ∀ a ∈ log, pos a < pos e := by
  simp [Ascending, pairwise_append]

@[simp] theorem lastPos_concat : lastPos pos (log ++ [e]) = pos e := by simp [lastPos]

theorem le_lastPos (h : Ascending pos log) (he : e ∈ log) : pos e ≤ lastPos pos log := by
  induction log using reverseRecOn with
  | nil => cases he
  | append_singleton =>
    rw [lastPos_concat]
    rcases mem_append.1 he with he | he
    · exact Nat.le_of_lt ((ascending_concat.1 h).2 e he)
    · exact Nat.le_of_eq (congrArg pos (mem_singleton.1 he))

theorem upTo_concat (h : n < pos e) : upTo pos (log ++ [e]) n = upTo pos log n := by
  have hn : ¬pos e ≤ n := by omega
  simp [upTo, hn]

theorem since_concat (h : n < pos e) : since pos (log ++ [e]) n = since pos log n ++ [e] := by
  simp [since, h]

section

variable (h : Ascending pos log)
include h

theorem upTo_append_since (n : ℕ) :
    upTo pos log n ++ since pos log n = log := by
  induction log with
  | nil => rfl
  | cons a log ih =>
    obtain ⟨ha, hlog⟩ := pairwise_cons.1 h
    by_cases hn : pos a ≤ n
    · have hlt : ¬n < pos a := by omega
      have h₁ : upTo pos (a :: log) n = a :: upTo pos log n := by simp [upTo, hn]
      have h₂ : since pos (a :: log) n = since pos log n := by simp [since, hlt]
      rw [h₁, h₂, cons_append, ih hlog]
    · have hlt : n < pos a := by omega
      have h₁ : upTo pos (a :: log) n = [] := by
        rw [upTo, filter_eq_nil_iff]
        intro b hb
        rcases mem_cons.1 hb with rfl | hb
        · simpa using hlt
        · have hab := ha b hb
          simp only [decide_eq_true_eq]
          omega
      have h₂ : since pos (a :: log) n = a :: log := by
        rw [since, filter_eq_self]
        intro b hb
        rcases mem_cons.1 hb with rfl | hb
        · simpa using hlt
        · have hab := ha b hb
          simp only [decide_eq_true_eq]
          omega
      rw [h₁, h₂, nil_append]

theorem since_ascending (n : ℕ) : Ascending pos (since pos log n) :=
  h.sublist filter_sublist

theorem upTo_next (hs : since pos log n = e :: rest) :
    upTo pos log (pos e) = upTo pos log n ++ [e] ∧ since pos log (pos e) = rest := by
  have hsplit := upTo_append_since h n
  rw [hs] at hsplit
  have hbefore : ∀ a ∈ upTo pos log n, pos a ≤ n := fun a ha ↦ (mem_upTo.1 ha).2
  have he : n < pos e := by
    have hmem : e ∈ since pos log n := by
      rw [hs]
      exact mem_cons_self
    exact (mem_since.1 hmem).2
  have hafter : ∀ a ∈ rest, pos e < pos a := by
    have hasc := since_ascending h n
    rw [hs] at hasc
    exact (pairwise_cons.1 hasc).1
  have hall : ∀ m, n ≤ m → (upTo pos log n).filter (fun a ↦ pos a ≤ m) = upTo pos log n := by
    intro m hm
    rw [filter_eq_self]
    intro a ha
    have hle := hbefore a ha
    simp only [decide_eq_true_eq]
    omega
  have hnone : rest.filter (fun a ↦ pos a ≤ pos e) = [] := by
    rw [filter_eq_nil_iff]
    intro a ha
    have hlt := hafter a ha
    simp only [decide_eq_true_eq]
    omega
  have hskip : (upTo pos log n).filter (fun a ↦ pos e < pos a) = [] := by
    rw [filter_eq_nil_iff]
    intro a ha
    have hle := hbefore a ha
    simp only [decide_eq_true_eq]
    omega
  have hrest : rest.filter (fun a ↦ pos e < pos a) = rest := by
    rw [filter_eq_self]
    intro a ha
    simpa using hafter a ha
  constructor
  · conv_lhs => rw [upTo, ← hsplit]
    rw [filter_append, filter_cons, hall _ (Nat.le_of_lt he), hnone]
    simp
  · conv_lhs => rw [since, ← hsplit]
    rw [filter_append, filter_cons, hskip, hrest]
    simp

theorem head_since_le (hs : (since pos log n).head? = some e) {a : α}
    (ha : a ∈ log) (hn : n < pos a) : a = e ∨ pos e < pos a := by
  cases hsince : since pos log n with
  | nil =>
    rw [hsince] at hs
    cases hs
  | cons =>
    rw [hsince] at hs
    cases hs
    have hmem : a ∈ since pos log n := mem_since.2 ⟨ha, hn⟩
    have hasc := since_ascending h n
    rw [hsince] at hmem hasc
    rcases mem_cons.1 hmem with rfl | hmem
    · exact .inl rfl
    · exact .inr ((pairwise_cons.1 hasc).1 a hmem)

theorem upTo_extend (he : e ∈ log) (hn : n < pos e) (hgap : ∀ a ∈ log, n < pos a → pos e ≤ pos a) :
    upTo pos log (pos e) = upTo pos log n ++ [e] := by
  have hmem : e ∈ since pos log n := mem_since.2 ⟨he, hn⟩
  have hasc := since_ascending h n
  cases hsince : since pos log n with
  | nil =>
    rw [hsince] at hmem
    cases hmem
  | cons a rest =>
    have ha : a ∈ log ∧ n < pos a := mem_since.1 (by rw [hsince]; exact mem_cons_self)
    rw [hsince] at hmem hasc
    rcases mem_cons.1 hmem with rfl | hrest
    · exact (upTo_next h hsince).1
    · have hlt := (pairwise_cons.1 hasc).1 e hrest
      have hle := hgap a ha.1 ha.2
      omega

end

theorem upTo_same {m : ℕ} (hnm : n ≤ m) (hgap : ∀ a ∈ log, n < pos a → m < pos a) :
    upTo pos log m = upTo pos log n := by
  refine filter_congr fun a ha ↦ ?_
  have hle := hgap a ha
  rw [decide_eq_decide]
  constructor
  · intro ham
    by_contra hna
    have hlt := hle (by omega)
    omega
  · intro han
    omega

end GoCell.Foundation
