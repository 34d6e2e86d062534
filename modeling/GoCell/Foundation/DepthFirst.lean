import Mathlib.Data.Finset.Card

namespace GoCell.Foundation

variable {V : Type*} [DecidableEq V]

/-- How many of the nodes a search has still to see, which bounds the depth of its recursion. -/
def remaining (nodes : List V) (seen : V → Prop) [DecidablePred seen] : ℕ :=
  (nodes.toFinset.filter fun v ↦ ¬seen v).card

variable {nodes : List V} {seen seen' : V → Prop} [DecidablePred seen] [DecidablePred seen']

theorem remaining_le (h : ∀ v, seen v → seen' v) : remaining nodes seen' ≤ remaining nodes seen :=
  Finset.card_le_card (Finset.monotone_filter_right _ fun v _ hv hseen ↦ hv (h v hseen))

theorem remaining_lt (h : ∀ v, seen v → seen' v) {v : V} (hv : v ∈ nodes) (hnew : ¬seen v)
    (hseen : seen' v) : remaining nodes seen' < remaining nodes seen := by
  refine Finset.card_lt_card ((Finset.ssubset_iff_of_subset
    (Finset.monotone_filter_right _ fun v _ hv hseen ↦ hv (h v hseen))).2 ⟨v, ?_, ?_⟩)
  · exact Finset.mem_filter.2 ⟨List.mem_toFinset.2 hv, hnew⟩
  · exact fun hmem ↦ (Finset.mem_filter.1 hmem).2 hseen

theorem remaining_le_length (nodes : List V) (seen : V → Prop) [DecidablePred seen] :
    remaining nodes seen ≤ nodes.length :=
  (Finset.card_filter_le _ _).trans nodes.toFinset_card_le

end GoCell.Foundation
