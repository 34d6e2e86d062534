import Mathlib.Data.List.Infix

namespace GoCell.Foundation

open List

variable {α β : Type}

def takeThrough (fails : α → Bool) : List α → List α
  | [] => []
  | a :: l => if fails a then [a] else a :: takeThrough fails l

theorem isPrefix_takeThrough (fails : α → Bool) (l : List α) : takeThrough fails l <+: l := by
  induction l with
  | nil => exact prefix_refl _
  | cons a l ih =>
    rw [takeThrough]
    split
    · exact (prefix_cons_inj a).2 nil_prefix
    · exact (prefix_cons_inj a).2 ih

theorem flatMap_takeThrough_eq_iff (fails : α → Bool) (f : α → List β) (l : List α) :
    (takeThrough fails l).flatMap f = l.flatMap f ↔
      l.Pairwise fun a b ↦ fails a = true → f b = [] := by
  induction l with
  | nil => simp [takeThrough]
  | cons a l ih =>
    rw [pairwise_cons, takeThrough]
    split
    next hfails =>
      rw [flatMap_cons, flatMap_cons, append_right_inj, flatMap_nil, eq_comm, flatMap_eq_nil_iff]
      refine ⟨fun h ↦ ⟨fun b hb _ ↦ h b hb, ?_⟩, fun h b hb ↦ h.1 b hb hfails⟩
      exact pairwise_of_forall_mem_list fun _ _ b hb _ ↦ h b hb
    next hfails =>
      rw [flatMap_cons, flatMap_cons, append_right_inj, ih]
      exact ⟨fun h ↦ ⟨fun _ _ hfail ↦ absurd hfail hfails, h⟩, fun h ↦ h.2⟩

section Calls

variable {ε : Type} (fn : List α → α → Option ε)

/-- Calls `fn` on one element after the other until it answers with an error; `calls` are the calls
made so far, on which the answer may depend. -/
def callEach : List α → List α → List α × Option ε
  | calls, [] => (calls, none)
  | calls, a :: l =>
    match fn calls a with
    | some err => (calls ++ [a], some err)
    | none => callEach (calls ++ [a]) l

theorem callEach_append (calls l rest : List α) :
    callEach fn calls (l ++ rest) =
      match callEach fn calls l with
      | (calls, some err) => (calls, some err)
      | (calls, none) => callEach fn calls rest := by
  induction l generalizing calls with
  | nil => rfl
  | cons a l ih =>
    rw [cons_append, callEach, callEach]
    cases fn calls a with
    | some err => rfl
    | none => exact ih (calls ++ [a])

/-- The calls are a prefix of the list. All but the last were answered without an error, and what
the last one answered is returned; without an error the whole list was called. -/
def CalledUntil (l calls : List α) (err : Option ε) : Prop :=
  calls <+: l ∧ (err = none → calls = l) ∧ (err ≠ none → calls ≠ []) ∧
    ∀ k a, calls[k]? = some a → fn (calls.take k) a = if k + 1 = calls.length then err else none

theorem callEach_calledUntil_of {done : List α}
    (hdone : ∀ k a, done[k]? = some a → fn (done.take k) a = none) (l : List α) :
    CalledUntil fn (done ++ l) (callEach fn done l).1 (callEach fn done l).2 := by
  induction l generalizing done with
  | nil =>
    rw [append_nil, callEach]
    refine ⟨prefix_refl _, fun _ ↦ rfl, fun h ↦ absurd rfl h, fun k a ha ↦ ?_⟩
    rw [hdone k a ha]
    exact (ite_self _).symm
  | cons a l ih =>
    have hsplit : done ++ a :: l = done ++ [a] ++ l := by simp
    have hcalls : ∀ k b, (done ++ [a])[k]? = some b →
        (k < done.length ∧ fn ((done ++ [a]).take k) b = none) ∨
          (k = done.length ∧ b = a ∧ (done ++ [a]).take k = done) := by
      intro k b hb
      rcases Nat.lt_or_ge k done.length with hk | hk
      · rw [getElem?_append_left hk] at hb
        exact .inl ⟨hk, by rw [List.take_append_of_le_length hk.le]; exact hdone k b hb⟩
      · obtain ⟨hlt, -⟩ := List.getElem?_eq_some_iff.1 hb
        rw [length_append, length_singleton] at hlt
        obtain rfl : k = done.length := by omega
        rw [getElem?_concat_length] at hb
        exact .inr ⟨rfl, (Option.some.inj hb).symm, take_left⟩
    rw [callEach, hsplit]
    cases hfn : fn done a with
    | some err =>
      refine ⟨prefix_append _ _, fun h ↦ (Option.some_ne_none _ h).elim, fun _ ↦ by simp, ?_⟩
      intro k b hb
      rw [length_append, length_singleton]
      rcases hcalls k b hb with ⟨hk, hnone⟩ | ⟨rfl, rfl, htake⟩
      · rw [if_neg (by omega), hnone]
      · rw [if_pos rfl, htake, hfn]
    | none =>
      refine ih fun k b hb ↦ ?_
      rcases hcalls k b hb with ⟨-, hnone⟩ | ⟨rfl, rfl, htake⟩
      · exact hnone
      · rw [htake, hfn]

theorem callEach_calledUntil (l : List α) :
    CalledUntil fn l (callEach fn [] l).1 (callEach fn [] l).2 :=
  callEach_calledUntil_of fn (fun _ _ h ↦ by cases h) l

end Calls

end GoCell.Foundation
