import GoCell.Foundation.Tables

namespace GoCell.Foundation

open List

variable {κ ν : Type*}

/-- A collection of rows that are told apart by their key: a map whose values carry their own key,
or a table with a primary key. -/
structure Keyed (key : ν → κ) where
  rows : List ν
  nodup : (rows.map key).Nodup

theorem nodup_no_keys (key : ν → κ) : (([] : List ν).map key).Nodup := .nil

theorem nodup_keys_concat {key : ν → κ} {rows : List ν} {v : ν} (h : (rows.map key).Nodup)
    (hv : ∀ x ∈ rows, key x ≠ key v) : ((rows ++ [v]).map key).Nodup := by
  rw [map_append, map_singleton]
  refine h.append (nodup_singleton _) ?_
  intro k hk hkv
  obtain ⟨x, hx, rfl⟩ := mem_map.1 hk
  exact hv x hx (mem_singleton.1 hkv)

namespace Keyed

variable {key : ν → κ} {t : Keyed key} {k : κ} {v w : ν}

/-- Changes the rows in a way that leaves their keys as they are. -/
def update (t : Keyed key) (f : ν → ν) (h : ∀ x, key (f x) = key x) : Keyed key where
  rows := t.rows.map f
  nodup := by
    rw [map_map, show key ∘ f = key from funext h]
    exact t.nodup

theorem update_eq_self {f : ν → ν} {h : ∀ x, key (f x) = key x} (hf : ∀ x ∈ t.rows, f x = x) :
    t.update f h = t := by
  cases t
  rw [update, mk.injEq, map_congr_left hf, map_id']

variable [DecidableEq κ]

def empty : Keyed key := ⟨[], nodup_no_keys key⟩

def get? (t : Keyed key) (k : κ) : Option ν := t.rows.find? fun x ↦ key x = k

theorem get?_eq_some_iff : t.get? k = some v ↔ v ∈ t.rows ∧ key v = k := by
  rw [get?]
  constructor
  · intro h
    exact ⟨mem_of_find?_eq_some h, by simpa using find?_some h⟩
  · rintro ⟨hv, rfl⟩
    rw [← head?_filter, filter_key_eq t.nodup hv]
    rfl

theorem get?_eq_none_iff : t.get? k = none ↔ ∀ v ∈ t.rows, key v ≠ k := by
  simp [get?]

theorem eq_of_key_eq (hv : v ∈ t.rows) (hw : w ∈ t.rows) (h : key v = key w) : v = w :=
  Option.some.inj ((get?_eq_some_iff.2 ⟨hv, h⟩).symm.trans (get?_eq_some_iff.2 ⟨hw, rfl⟩))

theorem get?_of_map {t' : Keyed key} {f : ν → ν} (hrows : t'.rows = t.rows.map f)
    (h : ∀ x ∈ t.rows, key (f x) = key x) (k : κ) : t'.get? k = (t.get? k).map f := by
  cases hget : t.get? k with
  | none =>
    refine get?_eq_none_iff.2 fun y hy ↦ ?_
    rw [hrows] at hy
    obtain ⟨x, hx, rfl⟩ := mem_map.1 hy
    rw [h x hx]
    exact get?_eq_none_iff.1 hget x hx
  | some x =>
    obtain ⟨hx, rfl⟩ := get?_eq_some_iff.1 hget
    exact get?_eq_some_iff.2 ⟨hrows ▸ mem_map_of_mem hx, h x hx⟩

theorem map_key_put (key : ν → κ) (v : ν) (rows : List ν) :
    (rows.map fun x ↦ if key x = key v then v else x).map key = rows.map key := by
  rw [map_map]
  refine map_congr_left fun x _ ↦ ?_
  simp only [Function.comp_apply]
  split
  · next h => exact h.symm
  · rfl

def put (t : Keyed key) (v : ν) : Keyed key where
  rows := t.rows.map fun x ↦ if key x = key v then v else x
  nodup := (map_key_put key v t.rows).symm ▸ t.nodup

def add (t : Keyed key) (v : ν) : Keyed key :=
  if h : ∀ x ∈ t.rows, key x ≠ key v then ⟨t.rows ++ [v], nodup_keys_concat t.nodup h⟩ else t

theorem add_rows (h : t.get? (key v) = none) : (t.add v).rows = t.rows ++ [v] := by
  rw [add, dif_pos (get?_eq_none_iff.1 h)]

end Keyed

end GoCell.Foundation
