import GoCell.Foundation.Separators
import GoCell.Kernel.Values
import Mathlib.Data.List.TakeDrop
import Mathlib.Data.List.TakeWhile

namespace GoCell.Kernel

open Foundation

def cut (sep : UInt8) (s : Bytes) : Option (Bytes × Bytes) :=
  match s.span (· ≠ sep) with
  | (before, _ :: after) => some (before, after)
  | (_, []) => none

variable {sep : UInt8}

theorem cut_append {before : Bytes} (h : sep ∉ before) (after : Bytes) :
    cut sep (before ++ sep :: after) = some (before, after) := by
  have hspan : (before ++ sep :: after).span (· ≠ sep) = (before, sep :: after) := by
    rw [List.span_eq_takeWhile_dropWhile, List.takeWhile_append_of_pos,
      List.dropWhile_append_of_pos]
    · simp
    · intro c hc
      exact decide_eq_true fun heq ↦ h (heq ▸ hc)
    · intro c hc
      exact decide_eq_true fun heq ↦ h (heq ▸ hc)
  rw [cut, hspan]

theorem cut_some {s before after : Bytes} (h : cut sep s = some (before, after)) :
    s = before ++ sep :: after ∧ sep ∉ before := by
  unfold cut at h
  rw [List.span_eq_takeWhile_dropWhile] at h
  split at h
  · next head c tail heq =>
    obtain ⟨rfl, rfl⟩ := Prod.mk.inj (Option.some.inj h)
    obtain ⟨hhead, htail⟩ := Prod.mk.inj heq
    have hsep : c = sep := by
      have hhd := List.head?_dropWhile_not (fun b ↦ decide (b ≠ sep)) s
      rw [htail] at hhd
      simpa using hhd
    subst hsep
    refine ⟨?_, ?_⟩
    · rw [← hhead, ← htail, List.takeWhile_append_dropWhile]
    · rw [← hhead]
      intro hmem
      simpa using List.mem_takeWhile_imp hmem
  · cases h

/-- The text around the last separator, as `strings.LastIndex` finds it. -/
def cutLast (sep : UInt8) (s : Bytes) : Option (Bytes × Bytes) :=
  (cut sep s.reverse).map fun r ↦ (r.2.reverse, r.1.reverse)

theorem cutLast_append {after : Bytes} (h : sep ∉ after) (before : Bytes) :
    cutLast sep (before ++ sep :: after) = some (before, after) := by
  have hreverse : (before ++ sep :: after).reverse = after.reverse ++ sep :: before.reverse := by
    simp
  rw [cutLast, hreverse, cut_append (by rwa [List.mem_reverse]), Option.map_some,
    List.reverse_reverse, List.reverse_reverse]

theorem cutLast_some {s before after : Bytes}
    (h : cutLast sep s = some (before, after)) : s = before ++ sep :: after ∧ sep ∉ after := by
  obtain ⟨⟨rest, head⟩, hcut, hpair⟩ := Option.map_eq_some_iff.1 h
  obtain ⟨rfl, rfl⟩ := Prod.mk.inj hpair
  obtain ⟨hreverse, hsep⟩ := cut_some hcut
  refine ⟨?_, by rwa [List.mem_reverse]⟩
  rw [← List.reverse_reverse s, hreverse]
  simp

/-- The runes of `unicode.IsSpace` in UTF-8. No other rune, and no invalid sequence, has one of
their first bytes inside. -/
def spaces : List Bytes :=
  [[0x09], [0x0a], [0x0b], [0x0c], [0x0d], [0x20], [0xc2, 0x85], [0xc2, 0xa0], [0xe1, 0x9a, 0x80],
    [0xe2, 0x80, 0x80], [0xe2, 0x80, 0x81], [0xe2, 0x80, 0x82], [0xe2, 0x80, 0x83],
    [0xe2, 0x80, 0x84], [0xe2, 0x80, 0x85], [0xe2, 0x80, 0x86], [0xe2, 0x80, 0x87],
    [0xe2, 0x80, 0x88], [0xe2, 0x80, 0x89], [0xe2, 0x80, 0x8a], [0xe2, 0x80, 0xa8],
    [0xe2, 0x80, 0xa9], [0xe2, 0x80, 0xaf], [0xe2, 0x81, 0x9f], [0xe3, 0x80, 0x80]]

def spaceLen (s : Bytes) : ℕ := ((spaces.find? (·.isPrefixOf s)).map List.length).getD 0

/-- `strings.Fields` inside a text, with the bytes of a space that are left to skip and the field
so far. -/
def fieldsFrom (skip : ℕ) (field : Bytes) : Bytes → List Bytes
  | [] => if field = [] then [] else [field]
  | c :: rest =>
    match skip, spaceLen (c :: rest) with
    | k + 1, _ => fieldsFrom k field rest
    | 0, 0 => fieldsFrom 0 (field ++ [c]) rest
    | 0, k + 1 => (if field = [] then [] else [field]) ++ fieldsFrom k [] rest

def fields (s : Bytes) : List Bytes := fieldsFrom 0 [] s

def isGraphic (c : UInt8) : Bool := 0x21 ≤ c && c ≤ 0x7e

theorem spaceLen_of_isGraphic {c : UInt8} (h : isGraphic c = true) (rest : Bytes) :
    spaceLen (c :: rest) = 0 := by
  have hnone : spaces.find? (·.isPrefixOf (c :: rest)) = none := by
    rw [List.find?_eq_none]
    intro space hspace hfirst
    have hheads : ∀ space ∈ spaces, ∃ b ∈ space.head?, isGraphic b = false := by decide
    obtain ⟨b, hb, hgraphic⟩ := hheads space hspace
    cases space with
    | nil => cases hb
    | cons =>
      cases hb
      rw [List.isPrefixOf_cons_cons, Bool.and_eq_true, beq_iff_eq] at hfirst
      rw [hfirst.1, h] at hgraphic
      cases hgraphic
  rw [spaceLen, hnone]
  rfl

theorem fieldsFrom_of_isGraphic {s : Bytes} (h : ∀ c ∈ s, isGraphic c = true) (field : Bytes) :
    fieldsFrom 0 field s = if field ++ s = [] then [] else [field ++ s] := by
  induction s generalizing field with
  | nil => rw [fieldsFrom, List.append_nil]
  | cons c rest ih =>
    obtain ⟨hc, hrest⟩ := List.forall_mem_cons.1 h
    simp only [fieldsFrom, spaceLen_of_isGraphic hc, ih hrest, List.append_assoc,
      List.singleton_append]

theorem fields_of_isGraphic {s : Bytes} (hne : s ≠ []) (h : ∀ c ∈ s, isGraphic c = true) :
    fields s = [s] := by
  rw [fields, fieldsFrom_of_isGraphic h, List.nil_append, if_neg hne]

end GoCell.Kernel
