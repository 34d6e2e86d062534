import GoCell.Projection.Coordinator

namespace GoCell.Projection

open Foundation Kernel List

variable {Ev Model : Type} {p : Spec Ev Model} {journal : List Ev} {r r' : ReadSide Ev Model}
  {e : Ev} {cursor : ℕ}

def Spec.ownUpTo (p : Spec Ev Model) (journal : List Ev) (n : ℕ) : List Ev :=
  upTo p.position (journal.filter p.own) n

/-- The read model is the fold of `Apply` over exactly the own events up to the checkpoint. -/
structure Exact (p : Spec Ev Model) (journal : List Ev) (r : ReadSide Ev Model) : Prop where
  applied : r.applied = p.ownUpTo journal r.checkpoint
  model : r.model = (p.ownUpTo journal r.checkpoint).foldl p.apply p.empty

def Missing (p : Spec Ev Model) (journal : List Ev) (r : ReadSide Ev Model) : Prop :=
  ∃ a ∈ journal, p.own a = true ∧ p.position a ≤ r.checkpoint ∧ a ∉ r.applied

def Skips (p : Spec Ev Model) (journal : List Ev) (r : ReadSide Ev Model) (e : Ev) : Prop :=
  ∃ a ∈ journal, p.own a = true ∧ r.checkpoint < p.position a ∧ p.position a < p.position e

structure Bounded (p : Spec Ev Model) (journal : List Ev) (r : ReadSide Ev Model) : Prop where
  reached : r.checkpoint ≤ lastPos p.position journal
  applied : ∀ a ∈ r.applied, p.position a ≤ r.checkpoint

theorem mem_ownUpTo {n : ℕ} :
    e ∈ p.ownUpTo journal n ↔ e ∈ journal ∧ p.own e = true ∧ p.position e ≤ n := by
  rw [Spec.ownUpTo, mem_upTo, mem_filter, and_assoc]

theorem Missing.not_exact (h : Missing p journal r) : ¬Exact p journal r := by
  rintro ⟨happlied, -⟩
  obtain ⟨a, ha, hown, hle, hnot⟩ := h
  rw [happlied] at hnot
  exact hnot (mem_ownUpTo.2 ⟨ha, hown, hle⟩)

theorem resolvePosition_ok {f : ℕ → ReadSide Ev Model} (h : (do
      let (pos, proceed) ← resolvePosition p r e
      if proceed then return f pos else return r) = .ok r') :
    (p.position e ≤ r.checkpoint ∧ r' = r) ∨
      (r.checkpoint < p.position e ∧ r' = f (p.position e)) := by
  obtain ⟨x, hx, h⟩ := bind_ok.1 h
  obtain ⟨_, -, hx⟩ := bind_ok.1 hx
  rw [← Except.ok.inj hx] at h
  by_cases hle : p.position e ≤ r.checkpoint
  · simp only [hle, decide_true, Bool.not_true, Bool.false_eq_true, if_false] at h
    exact .inl ⟨hle, (Except.ok.inj h).symm⟩
  · simp only [hle, decide_false, Bool.not_false, if_true] at h
    exact .inr ⟨not_le.1 hle, (Except.ok.inj h).symm⟩

theorem applyOne_ok (h : applyOne p r e = .ok r') :
    (p.position e ≤ r.checkpoint ∧ r' = r) ∨
      (r.checkpoint < p.position e ∧ r' = ⟨p.apply r.model e, p.position e, r.applied ++ [e]⟩) :=
  resolvePosition_ok (f := fun pos ↦ ⟨p.apply r.model e, pos, r.applied ++ [e]⟩) h

theorem advanceOffsetPastForeign_ok (h : advanceOffsetPastForeign p r e = .ok r') :
    (p.position e ≤ r.checkpoint ∧ r' = r) ∨
      (r.checkpoint < p.position e ∧ r' = { r with checkpoint := p.position e }) :=
  resolvePosition_ok (f := fun pos ↦ { r with checkpoint := pos }) h

theorem drainEntry_ok (h : drainEntry p r e = .ok r') :
    (p.position e ≤ r.checkpoint ∧ r' = r) ∨ (r.checkpoint < p.position e ∧
        ((p.own e = true ∧ r' = ⟨p.apply r.model e, p.position e, r.applied ++ [e]⟩) ∨
          (p.own e = false ∧ r' = { r with checkpoint := p.position e }))) := by
  unfold drainEntry at h
  split_ifs at h with hown
  · rcases applyOne_ok h with hskip | ⟨hlt, rfl⟩
    · exact .inl hskip
    · exact .inr ⟨hlt, .inl ⟨hown, rfl⟩⟩
  · rcases advanceOffsetPastForeign_ok h with hskip | ⟨hlt, rfl⟩
    · exact .inl hskip
    · exact .inr ⟨hlt, .inr ⟨Bool.eq_false_iff.2 hown, rfl⟩⟩

theorem filter_ascending (hj : Ascending p.position journal) :
    Ascending p.position (journal.filter p.own) :=
  hj.sublist filter_sublist

theorem Exact.extend (h : Exact p journal r) (hj : Ascending p.position journal)
    (he : e ∈ journal) (hown : p.own e = true) (hlt : r.checkpoint < p.position e)
    (hnext : ¬Skips p journal r e) :
    Exact p journal ⟨p.apply r.model e, p.position e, r.applied ++ [e]⟩ := by
  have hextend : p.ownUpTo journal (p.position e) = p.ownUpTo journal r.checkpoint ++ [e] := by
    refine upTo_extend (filter_ascending hj) (mem_filter.2 ⟨he, hown⟩) hlt fun a ha hlt' ↦ ?_
    obtain ⟨haj, haown⟩ := mem_filter.1 ha
    by_contra hgap
    exact hnext ⟨a, haj, haown, hlt', not_le.1 hgap⟩
  constructor
  · change r.applied ++ [e] = p.ownUpTo journal (p.position e)
    rw [hextend, h.applied]
  · change p.apply r.model e = (p.ownUpTo journal (p.position e)).foldl p.apply p.empty
    rw [hextend, foldl_append, ← h.model]
    rfl

theorem Exact.advance {n : ℕ} (h : Exact p journal r) (hle : r.checkpoint ≤ n)
    (hgap : ∀ a ∈ journal, p.own a = true → r.checkpoint < p.position a → n < p.position a) :
    Exact p journal { r with checkpoint := n } := by
  have hsame : p.ownUpTo journal n = p.ownUpTo journal r.checkpoint := by
    refine upTo_same hle fun a ha hlt ↦ ?_
    obtain ⟨haj, haown⟩ := mem_filter.1 ha
    exact hgap a haj haown hlt
  constructor
  · change r.applied = p.ownUpTo journal n
    rw [hsame, h.applied]
  · change r.model = (p.ownUpTo journal n).foldl p.apply p.empty
    rw [hsame, h.model]

theorem Exact.drainEntry (h : Exact p journal r) (hj : Ascending p.position journal)
    (hcursor : cursor ≤ r.checkpoint) (he : (since p.position journal cursor).head? = some e)
    (hok : Projection.drainEntry p r e = .ok r') : Exact p journal r' := by
  have hmem : e ∈ journal := (mem_since.1 (mem_of_mem_head? he)).1
  have hnext : ∀ a ∈ journal, r.checkpoint < p.position a → a = e ∨ p.position e < p.position a :=
    fun a ha hlt ↦ head_since_le hj he ha (hcursor.trans_lt hlt)
  rcases drainEntry_ok hok with ⟨-, rfl⟩ | ⟨hlt, ⟨hown, rfl⟩ | ⟨hforeign, rfl⟩⟩
  · exact h
  · refine h.extend hj hmem hown hlt ?_
    rintro ⟨a, ha, -, hgt, hlt'⟩
    rcases hnext a ha hgt with rfl | hlt''
    · omega
    · omega
  · refine h.advance hlt.le fun a ha hown hgt ↦ ?_
    rcases hnext a ha hgt with rfl | hlt'
    · rw [hforeign] at hown
      cases hown
    · exact hlt'

theorem Exact.append (h : Exact p journal r) (hb : Bounded p journal r)
    (he : lastPos p.position journal < p.position e) : Exact p (journal ++ [e]) r := by
  have hsame : p.ownUpTo (journal ++ [e]) r.checkpoint = p.ownUpTo journal r.checkpoint := by
    unfold Spec.ownUpTo
    rw [filter_append]
    by_cases hown : p.own e = true
    · rw [filter_cons_of_pos hown, filter_nil, upTo_concat (hb.reached.trans_lt he)]
    · rw [filter_cons_of_neg hown, filter_nil, append_nil]
  exact ⟨by rw [hsame, h.applied], by rw [hsame, h.model]⟩

theorem exact_reset (hpos : ∀ a ∈ journal, 1 ≤ p.position a) : Exact p journal (resetPhase p) := by
  have hnil : p.ownUpTo journal 0 = [] := by
    rw [eq_nil_iff_forall_not_mem]
    intro a ha
    obtain ⟨haj, -, hle⟩ := mem_ownUpTo.1 ha
    have hone := hpos a haj
    omega
  exact ⟨hnil.symm, congrArg (foldl p.apply p.empty) hnil.symm⟩

structure Advances (p : Spec Ev Model) (e : Ev) (r r' : ReadSide Ev Model) : Prop where
  checkpoint : r'.checkpoint = max r.checkpoint (p.position e)
  applied : ∀ a ∈ r'.applied, a ∈ r.applied ∨ (a = e ∧ r.checkpoint < p.position e)

theorem Advances.le (h : Advances p e r r') : r.checkpoint ≤ r'.checkpoint := by
  rw [h.checkpoint]
  exact le_max_left _ _

theorem Advances.reaches (h : Advances p e r r') : p.position e ≤ r'.checkpoint := by
  rw [h.checkpoint]
  exact le_max_right _ _

theorem advances_skip (h : p.position e ≤ r.checkpoint) : Advances p e r r :=
  ⟨(max_eq_left h).symm, fun _ ha ↦ .inl ha⟩

theorem advances_applyOne (h : applyOne p r e = .ok r') : Advances p e r r' := by
  rcases applyOne_ok h with ⟨hle, rfl⟩ | ⟨hlt, rfl⟩
  · exact advances_skip hle
  · refine ⟨(max_eq_right hlt.le).symm, fun a ha ↦ ?_⟩
    rcases mem_append.1 ha with ha | ha
    · exact .inl ha
    · exact .inr ⟨mem_singleton.1 ha, hlt⟩

theorem advances_drainEntry (h : drainEntry p r e = .ok r') : Advances p e r r' := by
  unfold drainEntry at h
  split_ifs at h with hown
  · exact advances_applyOne h
  · rcases advanceOffsetPastForeign_ok h with ⟨hle, rfl⟩ | ⟨hlt, rfl⟩
    · exact advances_skip hle
    · exact ⟨(max_eq_right hlt.le).symm, fun a ha ↦ .inl ha⟩

theorem Bounded.advances (h : Bounded p journal r) (ha : Advances p e r r')
    (hj : Ascending p.position journal) (he : e ∈ journal) : Bounded p journal r' := by
  constructor
  · rw [ha.checkpoint]
    exact max_le h.reached (le_lastPos hj he)
  · intro a hmem
    rcases ha.applied a hmem with hold | ⟨rfl, -⟩
    · exact (h.applied a hold).trans ha.le
    · exact ha.reaches

theorem Bounded.append (h : Bounded p journal r) (he : lastPos p.position journal < p.position e) :
    Bounded p (journal ++ [e]) r := by
  refine ⟨?_, h.applied⟩
  have hle := h.reached
  rw [lastPos_concat]
  omega

theorem bounded_reset : Bounded p journal (resetPhase p) :=
  ⟨Nat.zero_le _, fun _ h ↦ absurd h not_mem_nil⟩

theorem Missing.advances (h : Missing p journal r) (ha : Advances p e r r') :
    Missing p journal r' := by
  obtain ⟨a, haj, hown, hle, hnot⟩ := h
  refine ⟨a, haj, hown, hle.trans ha.le, fun happlied ↦ ?_⟩
  rcases ha.applied a happlied with hold | ⟨rfl, hlt⟩
  · exact hnot hold
  · omega

theorem Missing.append (h : Missing p journal r) : Missing p (journal ++ [e]) r := by
  obtain ⟨a, haj, hrest⟩ := h
  exact ⟨a, mem_append_left _ haj, hrest⟩

theorem Skips.missing (h : Skips p journal r e) (hb : Bounded p journal r)
    (hok : applyOne p r e = .ok r') : Missing p journal r' := by
  obtain ⟨a, haj, hown, hgt, hlt⟩ := h
  rcases applyOne_ok hok with ⟨hle, -⟩ | ⟨-, rfl⟩
  · omega
  · refine ⟨a, haj, hown, hlt.le, fun happlied ↦ ?_⟩
    rcases mem_append.1 happlied with hold | hnew
    · have hle := hb.applied a hold
      omega
    · rw [mem_singleton.1 hnew] at hlt
      omega

end GoCell.Projection
