import Mathlib.Data.List.AList
import Mathlib.Data.List.Sort

namespace GoCell.Foundation

open List Option

variable {κ ν : Type*} {rows : List ν}

theorem getElem?_set_cases {i j : ℕ} {row row' : ν} (h : (rows.set i row)[j]? = some row') :
    (i = j ∧ row' = row) ∨ (i ≠ j ∧ rows[j]? = some row') := by
  rw [getElem?_set] at h
  split at h
  · next hij =>
    split at h
    · exact .inl ⟨hij, (some.inj h).symm⟩
    · cases h
  · next hij => exact .inr ⟨hij, h⟩

theorem mem_set_of_ne {i : ℕ} {row row' x : ν} (h : rows[i]? = some row)
    (hx : x ∈ rows) (hne : x ≠ row) : x ∈ rows.set i row' := by
  obtain ⟨j, hj⟩ := mem_iff_getElem?.1 hx
  refine mem_iff_getElem?.2 ⟨j, ?_⟩
  rw [getElem?_set_ne]
  · exact hj
  · rintro rfl
    exact hne (some.inj (hj.symm.trans h))

theorem getElem?_concat_cases {j : ℕ} {row row' : ν} (h : (rows ++ [row])[j]? = some row') :
    rows[j]? = some row' ∨ (j = rows.length ∧ row' = row) := by
  rw [getElem?_append, getElem?_singleton] at h
  split at h
  · exact .inl h
  · split at h
    · exact .inr ⟨by omega, (some.inj h).symm⟩
    · cases h

theorem getElem?_pair_cases {ι : Type*} {others : List ι}
    (h : rows.length = others.length) (j : ℕ) : rows[j]? = none ∧ others[j]? = none ∨
      ∃ row other, rows[j]? = some row ∧ others[j]? = some other := by
  by_cases hlt : j < rows.length
  · exact .inr ⟨_, _, getElem?_eq_getElem hlt, getElem?_eq_getElem (h ▸ hlt)⟩
  · exact .inl ⟨getElem?_eq_none (not_lt.1 hlt), getElem?_eq_none (h ▸ not_lt.1 hlt)⟩

theorem countP_set_add {i : ℕ} {row : ν} (p : ν → Bool) (row' : ν) (h : rows[i]? = some row) :
    (rows.set i row').countP p + (if p row then 1 else 0) =
      rows.countP p + if p row' then 1 else 0 := by
  obtain ⟨hi, rfl⟩ := List.getElem?_eq_some_iff.1 h
  have hpos : p rows[i] = true → 0 < rows.countP p :=
    fun hp ↦ List.countP_pos_iff.2 ⟨_, List.getElem_mem hi, hp⟩
  rw [countP_set hi]
  split <;> split <;> grind

section Keyed

variable [DecidableEq κ] {key : ν → κ} {rows : List ν}

theorem filter_key_eq (h : (rows.map key).Nodup) {row : ν} (hrow : row ∈ rows) :
    rows.filter (fun x ↦ key x = key row) = [row] := by
  induction rows with
  | nil => cases hrow
  | cons x rows ih =>
    obtain ⟨hx, hrest⟩ := nodup_cons.1 h
    obtain rfl | hrow := mem_cons.1 hrow
    · rw [filter_cons, if_pos (decide_eq_true rfl), filter_eq_nil_iff.2]
      intro y hy heq
      exact hx (of_decide_eq_true heq ▸ mem_map_of_mem hy)
    · rw [filter_cons_of_neg, ih hrest hrow]
      intro heq
      exact hx (of_decide_eq_true heq ▸ mem_map_of_mem hrow)

theorem map_key_eq_set (h : (rows.map key).Nodup) {i : ℕ} {row : ν} (hrow : rows[i]? = some row)
    (f : ν → ν) : rows.map (fun x ↦ if key x = key row then f x else x) = rows.set i (f row) := by
  refine ext_getElem? fun j ↦ ?_
  rw [getElem?_map, getElem?_set]
  split
  · next hij =>
    subst hij
    rw [hrow, Option.map_some, if_pos rfl, if_pos (List.getElem?_eq_some_iff.1 hrow).1]
  · next hij =>
    cases hj : rows[j]? with
    | none => rfl
    | some x =>
      have hne : key x ≠ key row := by
        intro heq
        have hkeys : (rows.map key)[i]? = (rows.map key)[j]? := by
          rw [getElem?_map, getElem?_map, hrow, hj, map_some, map_some, heq]
        have hi : i < (rows.map key).length := by
          rw [length_map]
          exact (List.getElem?_eq_some_iff.1 hrow).1
        exact hij ((getElem?_inj hi h).1 hkeys)
      rw [map_some, if_neg hne]

def removeFirst (p : ν → Bool) : ℕ → List ν → List ν
  | 0, rows => rows
  | _, [] => []
  | n + 1, x :: rows => if p x then removeFirst p n rows else x :: removeFirst p (n + 1) rows

@[simp] theorem removeFirst_nil (p : ν → Bool) (n : ℕ) : removeFirst p n [] = [] := by
  cases n <;> rfl

theorem filter_notMem_keys (h : (rows.map key).Nodup) (p : ν → Bool) (n : ℕ) :
    rows.filter (fun x ↦ key x ∉ ((rows.filter p).take n).map key) = removeFirst p n rows := by
  induction rows generalizing n with
  | nil => simp
  | cons x rows ih =>
    obtain ⟨hx, hrest⟩ := nodup_cons.1 h
    have hkeys : ∀ m, key x ∉ ((rows.filter p).take m).map key := by
      intro m hmem
      obtain ⟨y, hy, heq⟩ := mem_map.1 hmem
      exact hx (heq ▸ mem_map_of_mem (mem_filter.1 (mem_of_mem_take hy)).1)
    cases n with
    | zero => simp [removeFirst]
    | succ n =>
      cases hp : p x with
      | false =>
        have hfilter : (x :: rows).filter p = rows.filter p := by simp [hp]
        rw [hfilter, filter_cons, if_pos (decide_eq_true (hkeys _)), ih hrest, removeFirst, hp]
        rfl
      | true =>
        rw [filter_cons_of_pos hp, take_succ_cons, map_cons, filter_cons,
          if_neg (by simp), removeFirst, if_pos hp, ← ih hrest]
        refine filter_congr fun y hy ↦ ?_
        have hne : key y ≠ key x := fun heq ↦ hx (heq ▸ mem_map_of_mem hy)
        simp [hne]

variable (p : ν → Bool) (n : ℕ) (rows : List ν)

theorem removeFirst_sublist : (removeFirst p n rows).Sublist rows := by
  induction rows generalizing n with
  | nil => simp
  | cons x rows ih =>
    cases n with
    | zero => exact List.Sublist.refl _
    | succ n =>
      rw [removeFirst]
      split
      · exact (ih n).cons x
      · exact (ih (n + 1)).cons_cons x

theorem filter_not_removeFirst :
    (removeFirst p n rows).filter (fun x ↦ !p x) = rows.filter fun x ↦ !p x := by
  induction rows generalizing n with
  | nil => simp
  | cons x rows ih =>
    cases n with
    | zero => rfl
    | succ n =>
      cases hp : p x with
      | false | true => simp [removeFirst, hp, ih]

theorem countP_removeFirst : (removeFirst p n rows).countP p = rows.countP p - n := by
  induction rows generalizing n with
  | nil => simp
  | cons x rows ih =>
    cases n with
    | zero => rfl
    | succ n =>
      cases hp : p x with
      | false => simp [removeFirst, hp, ih]
      | true =>
        rw [removeFirst, if_pos hp, countP_cons_of_pos hp, ih]
        omega

theorem length_removeFirst :
    (removeFirst p n rows).length = rows.length - min n (rows.countP p) := by
  rw [length_eq_length_filter_add p, filter_not_removeFirst, rows.length_eq_length_filter_add p]
  simp only [← countP_eq_length_filter, countP_removeFirst]
  omega

end Keyed

abbrev Table (κ ν : Type*) := AList fun _ : κ ↦ ν

variable (t : Table κ ν) (p : κ → ν → Bool)

def select : List (κ × ν) :=
  (t.entries.map fun e ↦ (e.1, e.2)).filter fun e ↦ p e.1 e.2

theorem select_keys_nodup : ((select t p).map Prod.fst).Nodup := by
  have h : (t.entries.map fun e ↦ (e.1, e.2)).map Prod.fst = t.keys := by
    simp [AList.keys, keys]
  have hsub : ((select t p).map Prod.fst).Sublist t.keys := by
    rw [← h]
    exact filter_sublist.map Prod.fst
  exact hsub.nodup t.keys_nodup

def selectFirst (le : κ × ν → κ × ν → Prop) [DecidableRel le] (n : ℕ) : List (κ × ν) :=
  ((select t p).insertionSort le).take n

theorem selectFirst_keys_nodup (le : κ × ν → κ × ν → Prop)
    [DecidableRel le] (n : ℕ) : ((selectFirst t p le n).map Prod.fst).Nodup := by
  rw [selectFirst, map_take]
  have hperm := (perm_insertionSort le (select t p)).map Prod.fst
  exact (hperm.nodup_iff.2 (select_keys_nodup t p)).sublist (take_sublist _ _)

def restrict (p : κ → Bool) : Table κ ν where
  entries := t.entries.filter fun e ↦ p e.1
  nodupKeys := t.nodupKeys.sublist List.filter_sublist

variable [DecidableEq κ]

theorem lookup_insert_if (k j : κ) (v : ν) :
    (t.insert k v).lookup j = if j = k then some v else t.lookup j := by
  by_cases h : j = k
  · subst h
    rw [AList.lookup_insert, if_pos rfl]
  · rw [AList.lookup_insert_ne h, if_neg h]

theorem lookup_foldl_insert {α : Type*} (key : α → κ) (value : α → ν) (l : List α)
    (t : Table κ ν) {k : κ} {v : ν}
    (h : (l.foldl (fun t a ↦ t.insert (key a) (value a)) t).lookup k = some v) :
    t.lookup k = some v ∨ ∃ a ∈ l, key a = k ∧ value a = v := by
  induction l generalizing t with
  | nil => exact .inl h
  | cons a l ih =>
    rcases ih _ h with hins | ⟨b, hb, hk⟩
    · rw [lookup_insert_if] at hins
      split_ifs at hins with hka
      · exact .inr ⟨a, mem_cons_self, hka.symm, some.inj hins⟩
      · exact .inl hins
    · exact .inr ⟨b, mem_cons_of_mem a hb, hk⟩

theorem mem_select {t : Table κ ν} {p : κ → ν → Bool} {k : κ} {v : ν} :
    (k, v) ∈ select t p ↔ t.lookup k = some v ∧ p k v = true := by
  have hmem : (k, v) ∈ t.entries.map (fun e ↦ (e.1, e.2)) ↔ t.lookup k = some v := by
    rw [← mem_def, AList.mem_lookup_iff]
    constructor
    · intro h
      obtain ⟨⟨k', v'⟩, he, heq⟩ := mem_map.1 h
      obtain ⟨rfl, rfl⟩ := Prod.mk.inj heq
      exact he
    · intro h
      exact mem_map.2 ⟨⟨k, v⟩, h, rfl⟩
  simp only [select, mem_filter, hmem]

def modify (k : κ) (f : ν → ν) : Table κ ν :=
  match t.lookup k with
  | none => t
  | some v => t.insert k (f v)

theorem lookup_modify (k j : κ) (f : ν → ν) :
    (modify t k f).lookup j = if j = k then (t.lookup j).map f else t.lookup j := by
  unfold modify
  cases h : t.lookup k with
  | none =>
    split_ifs with hj
    · rw [hj, h, map_none]
    · rfl
  | some v =>
    rw [lookup_insert_if]
    split_ifs with hj
    · rw [hj, h, map_some]
    · rfl

def modifyAll (ks : List κ) (f : ν → ν) : Table κ ν :=
  ks.foldl (fun t k ↦ modify t k f) t

theorem lookup_modifyAll {ks : List κ} (hks : ks.Nodup) (j : κ) (f : ν → ν) :
    (modifyAll t ks f).lookup j = if j ∈ ks then (t.lookup j).map f else t.lookup j := by
  induction ks generalizing t with
  | nil => simp [modifyAll]
  | cons k ks ih =>
    obtain ⟨hk, hks⟩ := nodup_cons.1 hks
    have h := ih (modify t k f) hks
    rw [lookup_modify] at h
    change (modifyAll (modify t k f) ks f).lookup j = _
    rw [h]
    by_cases hj : j = k
    · subst hj
      simp [hk]
    · simp [hj]

def scan (iteration : List κ) : List (κ × ν) :=
  iteration.filterMap fun k ↦ (t.lookup k).map fun v ↦ (k, v)

theorem mem_scan {t : Table κ ν} {iteration : List κ} {k : κ} {v : ν} :
    (k, v) ∈ scan t iteration ↔ k ∈ iteration ∧ t.lookup k = some v := by
  simp only [scan, mem_filterMap, map_eq_some_iff, Prod.mk.injEq]
  constructor
  · rintro ⟨j, hj, w, hw, rfl, rfl⟩
    exact ⟨hj, hw⟩
  · rintro ⟨hk, hv⟩
    exact ⟨k, hk, v, hv, rfl, rfl⟩

theorem scan_keys_nodup {iteration : List κ} (h : iteration.Nodup) :
    ((scan t iteration).map Prod.fst).Nodup := by
  have hkeys : (scan t iteration).map Prod.fst = iteration.filter fun k ↦ (t.lookup k).isSome := by
    rw [scan, map_filterMap, ← filterMap_eq_filter]
    refine List.filterMap_congr fun k _ ↦ ?_
    cases hk : t.lookup k with
    | none | some => simp [Option.guard, hk]
  rw [hkeys]
  exact h.filter _

def eraseAll (ks : List κ) : Table κ ν :=
  ks.foldl (fun t k ↦ t.erase k) t

theorem lookup_eraseAll (ks : List κ) (j : κ) :
    (eraseAll t ks).lookup j = if j ∈ ks then none else t.lookup j := by
  induction ks generalizing t with
  | nil => simp [eraseAll]
  | cons k ks ih =>
    change (eraseAll (t.erase k) ks).lookup j = _
    rw [ih]
    by_cases hj : j = k
    · subst hj
      simp [AList.lookup_erase]
    · simp [hj, AList.lookup_erase_ne hj]

theorem mem_selectFirst {t : Table κ ν} {p : κ → ν → Bool} {le : κ × ν → κ × ν → Prop}
    [DecidableRel le] {n : ℕ} {k : κ} {v : ν} (h : (k, v) ∈ selectFirst t p le n) :
    t.lookup k = some v ∧ p k v = true :=
  mem_select.1 ((mem_insertionSort le).1 (mem_of_mem_take h))

section Map

variable {μ : Type*} {t} {u : Table κ μ} {f : κ → ν → μ} {p : κ → ν → Bool}
  {q : κ → μ → Bool}

theorem select_perm_map (hu : ∀ k, u.lookup k = (t.lookup k).map (f k))
    (hq : ∀ k v, t.lookup k = some v → q k (f k v) = p k v) :
    (select u q).Perm ((select t p).map fun e ↦ (e.1, f e.1 e.2)) := by
  have hnodup : ((select t p).map fun e ↦ (e.1, f e.1 e.2)).Nodup := by
    refine List.Nodup.of_map Prod.fst ?_
    rw [List.map_map]
    exact select_keys_nodup t p
  rw [perm_ext_iff_of_nodup (List.Nodup.of_map _ (select_keys_nodup u q)) hnodup]
  rintro ⟨k, w⟩
  rw [mem_select, hu, Option.map_eq_some_iff, List.mem_map]
  constructor
  · rintro ⟨⟨v, hv, rfl⟩, hqw⟩
    exact ⟨(k, v), mem_select.2 ⟨hv, (hq k v hv).symm.trans hqw⟩, rfl⟩
  · rintro ⟨⟨k', v⟩, hmem, heq⟩
    obtain ⟨rfl, rfl⟩ := Prod.mk.inj heq
    obtain ⟨hv, hpv⟩ := mem_select.1 hmem
    exact ⟨⟨v, hv, rfl⟩, (hq k' v hv).trans hpv⟩

theorem selectFirst_map {le : κ × ν → κ × ν → Prop} {le' : κ × μ → κ × μ → Prop}
    [DecidableRel le] [DecidableRel le'] [IsTrans (κ × μ) le'] [Std.Total le']
    (hu : ∀ k, u.lookup k = (t.lookup k).map (f k))
    (hq : ∀ k v, t.lookup k = some v → q k (f k v) = p k v)
    (hanti : ∀ a b, le' a b → le' b a → a.1 = b.1)
    (hle : ∀ a b, le a b ↔ le' (a.1, f a.1 a.2) (b.1, f b.1 b.2)) (n : ℕ) :
    selectFirst u q le' n = (selectFirst t p le n).map fun e ↦ (e.1, f e.1 e.2) := by
  have hperm := select_perm_map hu hq
  have hsort : (select u q).insertionSort le' =
      ((select t p).map fun e ↦ (e.1, f e.1 e.2)).insertionSort le' := by
    refine List.Perm.eq_of_pairwise ?_ (pairwise_insertionSort le' _)
      (pairwise_insertionSort le' _)
      ((perm_insertionSort le' _).trans (hperm.trans (perm_insertionSort le' _).symm))
    rintro ⟨k, w⟩ ⟨k', w'⟩ ha hb hab hba
    obtain rfl : k = k' := hanti _ _ hab hba
    have hw := (mem_select.1 ((mem_insertionSort le').1 ha)).1
    have hw' := (mem_select.1 (hperm.mem_iff.2 ((mem_insertionSort le').1 hb))).1
    rw [some.inj (hw.symm.trans hw')]
  rw [selectFirst, hsort, selectFirst, map_take, map_insertionSort le le' _ _ fun a _ b _ ↦ hle a b]

end Map

end GoCell.Foundation
