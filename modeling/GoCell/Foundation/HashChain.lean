import GoCell.Foundation.Tables

namespace GoCell.Foundation

open List Option

variable {R H T : Type*}

/-- What the record at a position has to name as its predecessor: the hash of the record before it,
`origin` at the front. -/
def linkBefore (hash : R → H) (origin : H) (rs : List R) : ℕ → H
  | 0 => origin
  | k + 1 => (rs[k]?.map hash).getD origin

def Linked (prev hash : R → H) (origin : H) (rs : List R) : Prop :=
  ∀ k r, rs[k]? = some r → prev r = linkBefore hash origin rs k

section Links

variable {prev hash : R → H} {origin : H} {rs : List R} {r : R} {k : ℕ}

theorem linkBefore_succ (h : rs[k]? = some r) : linkBefore hash origin rs (k + 1) = hash r := by
  simp only [linkBefore, h, map_some, getD_some]

theorem linkBefore_length :
    linkBefore hash origin rs rs.length = (rs.getLast?.map hash).getD origin := by
  cases rs with
  | nil => rfl
  | cons r rs => simp only [length_cons, linkBefore, getLast?_eq_getElem?, Nat.add_sub_cancel]

theorem linkBefore_congr {ss : List R} (h : ∀ i < k, rs[i]?.map hash = ss[i]?.map hash) :
    linkBefore hash origin rs k = linkBefore hash origin ss k := by
  cases k with
  | zero => rfl
  | succ k => rw [linkBefore, linkBefore, h k (Nat.lt_succ_self k)]

theorem linkBefore_append {ss : List R} (hk : k ≤ rs.length) :
    linkBefore hash origin (rs ++ ss) k = linkBefore hash origin rs k := by
  refine linkBefore_congr fun i hi ↦ ?_
  rw [getElem?_append_left (by omega)]

theorem Linked.concat (h : Linked prev hash origin rs)
    (hr : prev r = (rs.getLast?.map hash).getD origin) :
    Linked prev hash origin (rs ++ [r]) := by
  intro k r' hk
  obtain hold | ⟨rfl, rfl⟩ := getElem?_concat_cases hk
  · rw [linkBefore_append (List.getElem?_eq_some_iff.1 hold).1.le]
    exact h k r' hold
  · rw [linkBefore_append le_rfl, linkBefore_length]
    exact hr

end Links

/-- Chains of records, one for each owner, in which a hash never stands for two different
predecessors or owners. -/
structure HashChains (prev hash : R → H) (owner : R → T) (origin : H) (chains : T → List R) :
    Prop where
  linked : ∀ t, Linked prev hash origin (chains t)
  owned : ∀ t, ∀ r ∈ chains t, owner r = t
  hash_ne : ∀ t, ∀ r ∈ chains t, hash r ≠ origin
  collisionFree : ∀ t u, ∀ r ∈ chains t, ∀ s ∈ chains u, hash r = hash s →
    prev r = prev s ∧ owner r = owner s

namespace HashChains

variable {prev hash : R → H} {owner : R → T} {origin : H} {chains : T → List R}

section

variable (h : HashChains prev hash owner origin chains)
include h

theorem prev_zero {t : T} {r : R} (hr : (chains t)[0]? = some r) : prev r = origin :=
  h.linked t 0 r hr

theorem prev_succ {t : T} {i : ℕ} {r : R} (hr : (chains t)[i + 1]? = some r) :
    ∃ p, (chains t)[i]? = some p ∧ prev r = hash p := by
  have hlt := (List.getElem?_eq_some_iff.1 hr).1
  obtain ⟨p, hp⟩ : ∃ p, (chains t)[i]? = some p :=
    ⟨_, getElem?_eq_getElem (Nat.lt_of_succ_lt hlt)⟩
  exact ⟨p, hp, (h.linked t _ r hr).trans (linkBefore_succ hp)⟩

theorem prev_succ_ne {t : T} {i : ℕ} {r : R}
    (hr : (chains t)[i + 1]? = some r) : prev r ≠ origin := by
  obtain ⟨p, hp, hprev⟩ := h.prev_succ hr
  rw [hprev]
  exact h.hash_ne t p (mem_of_getElem? hp)

theorem place_unique {t u : T} {i j : ℕ} {r s : R}
    (hr : (chains t)[i]? = some r) (hs : (chains u)[j]? = some s) (heq : hash r = hash s) :
    t = u ∧ i = j := by
  have hrmem := mem_of_getElem? hr
  have hsmem := mem_of_getElem? hs
  obtain ⟨hprev, howner⟩ := h.collisionFree t u r hrmem s hsmem heq
  have htu : t = u := (h.owned t r hrmem).symm.trans (howner.trans (h.owned u s hsmem))
  refine ⟨htu, ?_⟩
  induction i generalizing j r s with
  | zero =>
    cases j with
    | zero => rfl
    | succ j => exact absurd (hprev.symm.trans (h.prev_zero hr)) (h.prev_succ_ne hs)
  | succ i ih =>
    cases j with
    | zero => exact absurd (hprev.trans (h.prev_zero hs)) (h.prev_succ_ne hr)
    | succ j =>
      obtain ⟨p, hp, hrp⟩ := h.prev_succ hr
      obtain ⟨q, hq, hsq⟩ := h.prev_succ hs
      have hpq : hash p = hash q := hrp.symm.trans (hprev.trans hsq)
      have hpmem := mem_of_getElem? hp
      have hqmem := mem_of_getElem? hq
      obtain ⟨hprev', howner'⟩ := h.collisionFree t u p hpmem q hqmem hpq
      rw [ih hp hq hpq hpmem hqmem hprev' howner']

theorem successor_unique {t u : T} {k j : ℕ} {r : R}
    (hk : k ≤ (chains t).length) (hr : (chains u)[j]? = some r) (howner : k = 0 → owner r = t)
    (hprev : prev r = linkBefore hash origin (chains t) k) : u = t ∧ j = k := by
  cases k with
  | zero =>
    cases j with
    | zero => exact ⟨(h.owned u r (mem_of_getElem? hr)).symm.trans (howner rfl), rfl⟩
    | succ j => exact absurd hprev (h.prev_succ_ne hr)
  | succ k =>
    have hp := getElem?_eq_getElem (Nat.lt_of_succ_le hk)
    rw [linkBefore_succ hp] at hprev
    cases j with
    | zero =>
      exact absurd (hprev.symm.trans (h.prev_zero hr)) (h.hash_ne t _ (mem_of_getElem? hp))
    | succ j =>
      obtain ⟨q, hq, hrq⟩ := h.prev_succ hr
      obtain ⟨hut, hjk⟩ := h.place_unique hq hp (hrq.symm.trans hprev)
      exact ⟨hut, congrArg (· + 1) hjk⟩

end

end HashChains

def PassesAt (prev hash : R → H) (origin : H) (isSealed : ℕ → R → Prop) (rows : List R) (k : ℕ) :
    Prop :=
  ∃ r, rows[k]? = some r ∧ prev r = linkBefore hash origin rows k ∧ isSealed k r

def AgreesAt (Agree : ℕ → R → R → Prop) (chain rows : List R) (k : ℕ) : Prop :=
  ∃ r x, rows[k]? = some r ∧ chain[k]? = some x ∧ Agree k r x

structure Unforged (prev hash : R → H) (owner : R → T) (chains : T → List R)
    (isSealed : ℕ → R → Prop) (Agree : ℕ → R → R → Prop) (rows : List R) : Prop where
  prev_eq : ∀ {k r x}, Agree k r x → prev r = prev x
  hash_eq : ∀ {k r x}, Agree k r x → hash r = hash x
  owner_eq : ∀ {k r x}, Agree k r x → owner r = owner x
  copy_sealed : ∀ {t k r x}, x ∈ chains t → Agree k r x → isSealed k r
  sealed_copy : ∀ {k r}, rows[k]? = some r → isSealed k r → ∃ t, ∃ x ∈ chains t, Agree k r x

section Rows

variable {prev hash : R → H} {owner : R → T} {origin : H} {chains : T → List R}
  {isSealed : ℕ → R → Prop} {Agree : ℕ → R → R → Prop} {rows : List R} {t : T}

section

variable (h : Unforged prev hash owner chains isSealed Agree rows)
  (hchains : HashChains prev hash owner origin chains)
  (hfirst : ∀ r, rows[0]? = some r → owner r = t)
include h hchains hfirst

theorem Unforged.passesAt_iff {k : ℕ} (hbefore : ∀ i < k, AgreesAt Agree (chains t) rows i) :
    PassesAt prev hash origin isSealed rows k ↔ AgreesAt Agree (chains t) rows k := by
  have hlink : linkBefore hash origin rows k = linkBefore hash origin (chains t) k := by
    refine linkBefore_congr fun i hi ↦ ?_
    obtain ⟨r, x, hr, hx, hagree⟩ := hbefore i hi
    rw [hr, hx, map_some, map_some, h.hash_eq hagree]
  have hlength : k ≤ (chains t).length := by
    cases k with
    | zero => exact Nat.zero_le _
    | succ k =>
      obtain ⟨-, x, -, hx, -⟩ := hbefore k (Nat.lt_succ_self k)
      exact (List.getElem?_eq_some_iff.1 hx).1
  constructor
  · rintro ⟨r, hr, hprev, hsealed⟩
    obtain ⟨u, x, hx, hagree⟩ := h.sealed_copy hr hsealed
    obtain ⟨j, hj⟩ := getElem?_of_mem hx
    have howner : k = 0 → owner x = t := by
      rintro rfl
      exact (h.owner_eq hagree).symm.trans (hfirst r hr)
    have hxprev : prev x = linkBefore hash origin (chains t) k := by
      rw [← h.prev_eq hagree, hprev, hlink]
    obtain ⟨rfl, rfl⟩ := hchains.successor_unique hlength hj howner hxprev
    exact ⟨r, x, hr, hj, hagree⟩
  · rintro ⟨r, x, hr, hx, hagree⟩
    refine ⟨r, hr, ?_, h.copy_sealed (mem_of_getElem? hx) hagree⟩
    rw [h.prev_eq hagree, hlink]
    exact hchains.linked t k x hx

theorem Unforged.agreesAt_of_passesAt {n : ℕ}
    (hpass : ∀ k < n, PassesAt prev hash origin isSealed rows k) :
    ∀ k < n, AgreesAt Agree (chains t) rows k := by
  induction n with
  | zero => exact fun k hk ↦ absurd hk (Nat.not_lt_zero k)
  | succ n ih =>
    have hbefore := ih fun k hk ↦ hpass k (Nat.lt_succ_of_lt hk)
    intro k hk
    obtain hlt | rfl := Nat.lt_succ_iff_lt_or_eq.1 hk
    · exact hbefore k hlt
    · exact (h.passesAt_iff hchains hfirst hbefore).1 (hpass k (Nat.lt_succ_self k))

end

end Rows

end GoCell.Foundation
