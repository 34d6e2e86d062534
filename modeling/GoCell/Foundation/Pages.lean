import Mathlib.Tactic.Common

namespace GoCell.Foundation

open List

variable {K P T ε : Type}

inductive Follows (get : K → Except ε P) (link : P → Option K) : K → List P → Prop
  | last {k : K} {p : P} : get k = .ok p → link p = none → Follows get link k [p]
  | more {k k' : K} {p : P} {ps : List P} :
      get k = .ok p → link p = some k' → Follows get link k' ps → Follows get link k (p :: ps)

variable {get : K → Except ε P} {link : P → Option K}

theorem follows_pages {items : P → List T} {n : ℕ} (hn : 0 < n) {At : K → List T → Prop}
    (hpage : ∀ k rest, At k rest → ∃ p, get k = .ok p ∧ items p = rest.take n ∧
      (n < rest.length → ∃ k', link p = some k' ∧ At k' (rest.drop n)) ∧
      (rest.length ≤ n → link p = none))
    {k : K} {rest : List T} (h : At k rest) :
    ∃ ps last, Follows get link k (ps ++ [last]) ∧ (ps ++ [last]).flatMap items = rest ∧
      (∀ p ∈ ps, (link p).isSome = true ∧ (items p).length = n) ∧ link last = none ∧
      (ps ≠ [] → items last ≠ []) := by
  generalize hlen : rest.length = len
  induction len using Nat.strongRecOn generalizing k rest with
  | ind len ih =>
    subst hlen
    obtain ⟨p, hget, hitems, hmore, hlast⟩ := hpage k rest h
    by_cases hrest : n < rest.length
    · obtain ⟨k', hlink, hat⟩ := hmore hrest
      have hdrop : (rest.drop n).length < rest.length := by
        rw [length_drop]
        omega
      obtain ⟨ps, last, hfollows, hconcat, hps, hend, hne⟩ := ih _ hdrop hat rfl
      refine ⟨p :: ps, last, .more hget hlink hfollows, ?_, ?_, hend, fun _ hnil ↦ ?_⟩
      · rw [cons_append, flatMap_cons, hconcat, hitems, take_append_drop]
      · refine forall_mem_cons.2 ⟨⟨by rw [hlink]; rfl, ?_⟩, hps⟩
        rw [hitems, length_take]
        omega
      · cases ps with
        | nil =>
          rw [nil_append, flatMap_singleton, hnil] at hconcat
          have hlength := congrArg length hconcat
          rw [length_nil, length_drop] at hlength
          omega
        | cons q qs => exact hne (cons_ne_nil q qs) hnil
    · have hlink := hlast (by omega)
      refine ⟨[], p, .last hget hlink, ?_, fun q hq ↦ absurd hq not_mem_nil, hlink,
        fun hnil ↦ absurd rfl hnil⟩
      rw [nil_append, flatMap_singleton, hitems, take_of_length_le (by omega)]

end GoCell.Foundation
