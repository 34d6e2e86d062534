import GoCell.Foundation.Separators
import GoCell.Query.PagedQuery

namespace GoCell.Query

open Foundation Kernel List

/-- What `QueryContext` writes into the hash, and `SortScope` for the parts of its columns. -/
def hashedText (parts : List Bytes) : Bytes := parts.flatMap (· ++ [0])

/-- The names and the directions of the columns. -/
def sortParts (sort : List SortColumn) : List Bytes :=
  sort.flatMap fun col ↦ [utf8Bytes col.name, utf8Bytes col.direction.text]

def NulFree (parts : List Bytes) : Prop := ∀ part ∈ parts, 0 ∉ part

instance (parts : List Bytes) : Decidable (NulFree parts) :=
  inferInstanceAs (Decidable (∀ part ∈ parts, 0 ∉ part))

theorem hashedText_cons (part : Bytes) (parts : List Bytes) :
    hashedText (part :: parts) = part ++ 0 :: hashedText parts := by
  simp [hashedText]

theorem hashedText_inj {parts parts' : List Bytes} (h : NulFree parts) (h' : NulFree parts')
    (heq : hashedText parts = hashedText parts') : parts = parts' := by
  induction parts generalizing parts' with
  | nil =>
    cases parts' with
    | nil => rfl
    | cons => simp [hashedText] at heq
  | cons part parts ih =>
    cases parts' with
    | nil => simp [hashedText] at heq
    | cons part' parts' =>
      obtain ⟨hpart, hparts⟩ := forall_mem_cons.1 h
      obtain ⟨hpart', hparts'⟩ := forall_mem_cons.1 h'
      rw [hashedText_cons, hashedText_cons] at heq
      obtain ⟨heq, hrest⟩ := split_first hpart hpart' heq
      rw [heq, ih hparts hparts' hrest]

theorem SortDir.text_inj {d d' : SortDir} (h : d.text = d'.text) : d = d' := by
  cases d <;> cases d' <;> grind [SortDir.text]

theorem sortParts_inj {sort sort' : List SortColumn} (h : sortParts sort = sortParts sort') :
    sort = sort' := by
  induction sort generalizing sort' with
  | nil =>
    cases sort' with
    | nil => rfl
    | cons => cases h
  | cons col sort ih =>
    cases sort' with
    | nil => cases h
    | cons col' sort' =>
      simp only [sortParts, flatMap_cons, cons_append, nil_append, cons.injEq] at h
      obtain ⟨hname, hdir, hrest⟩ := h
      have hcol : col = col' := by
        cases col
        cases col'
        simp only [SortColumn.mk.injEq]
        exact ⟨utf8Bytes_inj hname, SortDir.text_inj (utf8Bytes_inj hdir)⟩
      rw [hcol, ih hrest]

end GoCell.Query
