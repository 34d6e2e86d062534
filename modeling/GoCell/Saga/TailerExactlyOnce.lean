import GoCell.Saga.Tailer

namespace GoCell.Saga

open Foundation Kernel Projection List Option

section Drains

variable {entry : OwnerEntry} {journal batch : List GlobalEvent} {ownerToken : SafeID}
  {cursor : ℕ} {e : GlobalEvent}

/-- A drain at `cursor` with the events `batch` to deliver next: it never ran ahead of the
checkpoint, and while it owns the checkpoint nobody else has moved it. -/
structure AtCursor (entry : OwnerEntry) (journal : List GlobalEvent) (ownerToken : SafeID)
    (cursor : ℕ) (batch : List GlobalEvent) : Prop where
  le : cursor ≤ entry.offset
  owned : entry.owner = ownerToken → cursor = entry.offset
  pending : batch <+: since GlobalEvent.globalSeq journal cursor

def DrainInv (entry : OwnerEntry) (journal : List GlobalEvent) (ownerToken : SafeID) :
    DrainPc → Prop
  | .head | .load _ => entry.owner ≠ ownerToken
  | .page _ cursor => AtCursor entry journal ownerToken cursor []
  | .deliver _ cursor batch _ => AtCursor entry journal ownerToken cursor batch
  | .poison _ cursor e batch _ => AtCursor entry journal ownerToken cursor (e :: batch)

structure Committed (entry : OwnerEntry) (journal : List GlobalEvent) (effects : List Effect) :
    Prop where
  ascending : Ascending GlobalEvent.globalSeq journal
  reached : entry.offset = 0 ∨ ∃ e ∈ journal, e.globalSeq = entry.offset
  effects : effects.map Effect.event = upTo GlobalEvent.globalSeq journal entry.offset

variable {effects : List Effect}

theorem Committed.offset_le_head (h : Committed entry journal effects) :
    entry.offset ≤ headSeq journal := by
  rcases h.reached with hzero | ⟨e, he, heq⟩
  · rw [hzero]
    exact Nat.zero_le _
  · rw [← heq]
    exact le_lastPos h.ascending he

section

variable (h : AtCursor entry journal ownerToken cursor (e :: batch))
  (hc : Committed entry journal effects)
  (hfence : ownerToken = entry.owner ∨ entry.offset < e.globalSeq)
include h hc hfence

theorem AtCursor.eq_offset : cursor = entry.offset := by
  rcases hfence with howner | hahead
  · exact h.owned howner.symm
  · by_contra hne
    have hlt : cursor < entry.offset := lt_of_le_of_ne h.le hne
    rcases hc.reached with hzero | ⟨e', he', heq⟩
    · omega
    · have hmem : e' ∈ since GlobalEvent.globalSeq journal cursor :=
        mem_since.2 ⟨he', by omega⟩
      have hasc := since_ascending hc.ascending cursor
      obtain ⟨tail, htail⟩ := h.pending
      rw [← htail, cons_append] at hmem hasc
      rcases mem_cons.1 hmem with rfl | hmem
      · omega
      · have hlt' := (pairwise_cons.1 hasc).1 e' hmem
        omega

theorem AtCursor.commit (disposition : Disposition) :
    entry.offset < e.globalSeq ∧
      Committed ⟨ownerToken, e.globalSeq⟩ journal (effects ++ [⟨e, disposition⟩]) ∧
      AtCursor ⟨ownerToken, e.globalSeq⟩ journal ownerToken e.globalSeq batch := by
  obtain rfl := h.eq_offset hc hfence
  obtain ⟨tail, htail⟩ := h.pending
  rw [cons_append] at htail
  obtain ⟨hupTo, hsince⟩ := upTo_next hc.ascending htail.symm
  have hmem : e ∈ since GlobalEvent.globalSeq journal entry.offset := by
    rw [← htail]
    exact mem_cons_self
  obtain ⟨hjournal, hlt⟩ := mem_since.1 hmem
  refine ⟨hlt, ⟨hc.ascending, .inr ⟨e, hjournal, rfl⟩, ?_⟩, ⟨le_rfl, fun _ ↦ rfl, ?_⟩⟩
  · rw [map_append, hc.effects, hupTo]
    rfl
  · rw [hsince]
    exact prefix_append _ _

end

theorem DrainInv.overtaken {pc : DrainPc} {other : SafeID} {offset : ℕ}
    (h : DrainInv entry journal ownerToken pc) (hne : other ≠ ownerToken)
    (hle : entry.offset ≤ offset) : DrainInv ⟨other, offset⟩ journal ownerToken pc := by
  have hat : ∀ {cursor batch}, AtCursor entry journal ownerToken cursor batch →
      AtCursor ⟨other, offset⟩ journal ownerToken cursor batch := fun h ↦
    ⟨h.le.trans hle, fun howner ↦ absurd howner hne, h.pending⟩
  cases pc with
  | head | load => exact hne
  | page | deliver | poison => exact hat h

theorem DrainInv.record {pc : DrainPc} (h : DrainInv entry journal ownerToken pc)
    (he : entry.offset < e.globalSeq) : DrainInv entry (journal ++ [e]) ownerToken pc := by
  have hat : ∀ {cursor batch}, AtCursor entry journal ownerToken cursor batch →
      AtCursor entry (journal ++ [e]) ownerToken cursor batch := by
    intro cursor batch h
    refine ⟨h.le, h.owned, ?_⟩
    rw [since_concat (h.le.trans_lt he)]
    exact h.pending.trans (prefix_append _ _)
  cases pc with
  | head | load => exact h
  | page | deliver | poison => exact hat h

theorem Committed.record (h : Committed entry journal effects)
    (he : headSeq journal < e.globalSeq) : Committed entry (journal ++ [e]) effects where
  ascending := by
    refine ascending_concat.2 ⟨h.ascending, fun a ha ↦ ?_⟩
    exact (le_lastPos h.ascending ha).trans_lt he
  reached := by
    rcases h.reached with hzero | ⟨e', he', heq⟩
    · exact .inl hzero
    · exact .inr ⟨e', mem_append_left _ he', heq⟩
  effects := by rw [h.effects, upTo_concat (h.offset_le_head.trans_lt he)]

end Drains

namespace Tailers

variable {cellID projectionID : String} {s s' : Tailers} {ownerToken : SafeID}

def entry (cellID projectionID : String) (s : Tailers) : OwnerEntry :=
  s.store.entry cellID projectionID

structure Inv (cellID projectionID : String) (s : Tailers) : Prop where
  committed : Committed (s.entry cellID projectionID) s.journal s.effects
  owner : (s.entry cellID projectionID).owner = "" ∨ (s.entry cellID projectionID).owner ∈ s.tokens
  drains : ∀ ownerToken pc, s.drains.lookup ownerToken = some pc → ownerToken ∈ s.tokens ∧
    DrainInv (s.entry cellID projectionID) s.journal ownerToken pc

theorem Inv.resume (hs : s.Inv cellID projectionID) {pc : DrainPc} (hmem : ownerToken ∈ s.tokens)
    (hpc : DrainInv (s.entry cellID projectionID) s.journal ownerToken pc) :
    (s.resume ownerToken pc).Inv cellID projectionID where
  committed := hs.committed
  owner := hs.owner
  drains token pc' hpc' := by
    rw [Tailers.resume, lookup_insert_if] at hpc'
    split_ifs at hpc' with htoken
    · cases hpc'
      obtain rfl := htoken
      exact ⟨hmem, hpc⟩
    · exact hs.drains token pc' hpc'

theorem Inv.finish (hs : s.Inv cellID projectionID) (ownerToken : SafeID) :
    (s.finish ownerToken).Inv cellID projectionID where
  committed := hs.committed
  owner := hs.owner
  drains token pc hpc := by
    have hold : s.drains.lookup token = some pc := by
      by_cases htoken : token = ownerToken
      · subst htoken
        simp [Tailers.finish] at hpc
      · rwa [Tailers.finish, AList.lookup_erase_ne htoken] at hpc
    exact hs.drains token pc hold

/-- Nothing that was committed is undone: the checkpoint does not go back and effects are only
added. -/
def Extends (cellID projectionID : String) (s s' : Tailers) : Prop :=
  (s.entry cellID projectionID).offset ≤ (s'.entry cellID projectionID).offset ∧
    s.effects <+: s'.effects

theorem Extends.refl (s : Tailers) : Extends cellID projectionID s s :=
  ⟨le_rfl, prefix_rfl⟩

theorem Extends.trans {s'' : Tailers} (h : Extends cellID projectionID s s')
    (h' : Extends cellID projectionID s' s'') : Extends cellID projectionID s s'' :=
  ⟨h.1.trans h'.1, h.2.trans h'.2⟩

section

variable (hs : s.Inv cellID projectionID)
include hs

theorem Inv.commitTx {cursor : ℕ} {e : GlobalEvent}
    {rest : List GlobalEvent} (hmem : ownerToken ∈ s.tokens)
    (h : AtCursor (s.entry cellID projectionID) s.journal ownerToken cursor (e :: rest))
    (disposition : Disposition) (txOk : Bool) (head : ℕ) (short : Bool)
    (heq : s' = s.commitTx cellID projectionID ownerToken e disposition txOk
      (.deliver head e.globalSeq rest short)) :
    s'.Inv cellID projectionID ∧ Extends cellID projectionID s s' := by
  rcases commitTx_cases cellID projectionID s ownerToken e disposition txOk
    (.deliver head e.globalSeq rest short) with hdone | ⟨store, hadvance, hcommit⟩
  · rw [heq, hdone]
    exact ⟨hs.finish ownerToken, Extends.refl s⟩
  · obtain ⟨hfence, hentry⟩ := MemOwnerCheckpointStore.advanceIfOwner_ok hadvance
    obtain ⟨hlt, hcommitted, hat⟩ := h.commit hs.committed hfence disposition
    let t : Tailers := { s with store := store, effects := s.effects ++ [⟨e, disposition⟩] }
    have ht : t.entry cellID projectionID = ⟨ownerToken, e.globalSeq⟩ := hentry
    rw [heq, hcommit]
    refine ⟨⟨?_, ?_, ?_⟩, ?_, prefix_append _ _⟩
    · change Committed (t.entry cellID projectionID) s.journal _
      rwa [ht]
    · change (t.entry cellID projectionID).owner = "" ∨
        (t.entry cellID projectionID).owner ∈ s.tokens
      rw [ht]
      exact .inr hmem
    · intro token pc hpc
      change token ∈ s.tokens ∧ DrainInv (t.entry cellID projectionID) s.journal token pc
      rw [Tailers.resume, lookup_insert_if] at hpc
      rw [ht]
      split_ifs at hpc with htoken
      · cases hpc
        obtain rfl := htoken
        exact ⟨hmem, hat⟩
      · obtain ⟨hmem', hinv⟩ := hs.drains token pc hpc
        exact ⟨hmem', hinv.overtaken (Ne.symm htoken) hlt.le⟩
    · change _ ≤ (t.entry cellID projectionID).offset
      rw [ht]
      exact hlt.le

theorem Inv.deliver {head cursor : ℕ} {batch : List GlobalEvent}
    {short : Bool} (hmem : ownerToken ∈ s.tokens)
    (h : AtCursor (s.entry cellID projectionID) s.journal ownerToken cursor batch)
    (apply : ApplyResult) (txOk : Bool)
    (heq : s' = s.deliver cellID projectionID ownerToken head cursor batch short apply txOk) :
    s'.Inv cellID projectionID ∧ Extends cellID projectionID s s' := by
  cases batch with
  | nil =>
    unfold Tailers.deliver at heq
    cases short with
    | true =>
      rw [heq]
      exact ⟨hs.finish ownerToken, Extends.refl s⟩
    | false =>
      rw [heq]
      exact ⟨hs.resume hmem h, Extends.refl s⟩
  | cons =>
    unfold Tailers.deliver at heq
    dsimp only at heq
    split_ifs at heq with hpos hhead
    · rw [heq]
      exact ⟨hs.finish ownerToken, Extends.refl s⟩
    · rw [heq]
      exact ⟨hs.finish ownerToken, Extends.refl s⟩
    · cases apply with
      | ok => exact hs.commitTx hmem h .applied txOk head short heq
      | transient =>
        rw [heq]
        exact ⟨hs.finish ownerToken, Extends.refl s⟩
      | permanent =>
        rw [heq]
        exact ⟨hs.resume hmem h, Extends.refl s⟩

theorem Inv.drainStep {pc : DrainPc} {a : DrainAction} (hpc : s.drains.lookup ownerToken = some pc)
    (h : s.drainStep cellID projectionID ownerToken pc a = some s') :
    s'.Inv cellID projectionID ∧ Extends cellID projectionID s s' := by
  obtain ⟨hmem, hinv⟩ := hs.drains ownerToken pc hpc
  cases a with
  | crash =>
    have heq : s' = s.finish ownerToken := by
      cases pc <;> exact (some.inj h).symm
    rw [heq]
    exact ⟨hs.finish ownerToken, Extends.refl s⟩
  | readHead =>
    cases pc <;> cases h
    exact ⟨hs.resume hmem hinv, Extends.refl s⟩
  | loadOffset =>
    cases pc <;> cases h
    exact ⟨hs.resume hmem ⟨le_rfl, fun _ ↦ rfl, nil_prefix⟩, Extends.refl s⟩
  | loadPage =>
    cases pc <;> cases h
    refine ⟨hs.resume hmem ⟨hinv.le, hinv.owned, ?_⟩, Extends.refl s⟩
    exact take_prefix _ _
  | deliver apply txOk =>
    cases pc <;> simp only [Tailers.drainStep, reduceCtorEq, some.injEq] at h
    exact hs.deliver hmem hinv apply txOk h.symm
  | skip txOk =>
    cases pc <;> simp only [Tailers.drainStep, reduceCtorEq, some.injEq] at h
    exact hs.commitTx hmem hinv .deadLettered txOk _ _ h.symm

theorem Inv.poll (hempty : ownerToken ≠ "") (hfresh : ownerToken ∉ s.tokens) :
    (({ s with tokens := ownerToken :: s.tokens } : Tailers).resume ownerToken .head).Inv
      cellID projectionID where
  committed := hs.committed
  owner := hs.owner.imp_right (mem_cons_of_mem ownerToken)
  drains token pc hpc := by
    rw [Tailers.resume, lookup_insert_if] at hpc
    split_ifs at hpc with htoken
    · cases hpc
      obtain rfl := htoken
      refine ⟨mem_cons_self, fun howner ↦ ?_⟩
      change (s.entry cellID projectionID).owner = token at howner
      rcases hs.owner with h | h
      · exact hempty (howner.symm.trans h)
      · exact hfresh (howner ▸ h)
    · obtain ⟨hmem, hinv⟩ := hs.drains token pc hpc
      exact ⟨mem_cons_of_mem ownerToken hmem, hinv⟩

theorem Inv.step {a : TailerAction} (h : s.step cellID projectionID a = some s') :
    s'.Inv cellID projectionID ∧ Extends cellID projectionID s s' := by
  cases a with
  | record e =>
    simp only [Tailers.step] at h
    split_ifs at h with he
    cases h
    have hoffset := hs.committed.offset_le_head.trans_lt he.2
    refine ⟨⟨hs.committed.record he.2, hs.owner, fun token pc hpc ↦ ?_⟩, Extends.refl s⟩
    obtain ⟨hmem, hinv⟩ := hs.drains token pc hpc
    exact ⟨hmem, hinv.record hoffset⟩
  | poll token =>
    simp only [Tailers.step] at h
    split_ifs at h with htoken
    cases h
    rw [not_or] at htoken
    exact ⟨hs.poll htoken.1 htoken.2, Extends.refl s⟩
  | drain =>
    obtain ⟨pc, hpc, h⟩ := bind_eq_some_iff.1 h
    exact hs.drainStep hpc h

end

theorem inv_initial (cellID projectionID : String) : ({} : Tailers).Inv cellID projectionID where
  committed := ⟨List.Pairwise.nil, .inl rfl, rfl⟩
  owner := .inl rfl
  drains token pc hpc := by cases hpc

theorem Inv.exec (hs : s.Inv cellID projectionID) {actions : List TailerAction}
    (h : Foundation.exec (Tailers.step cellID projectionID) s actions = some s') :
    s'.Inv cellID projectionID ∧ Extends cellID projectionID s s' := by
  refine exec_invariant (fun t ↦ t.Inv cellID projectionID ∧ Extends cellID projectionID s t) ?_
    actions s s' ⟨hs, Extends.refl s⟩ h
  intro t a u ht hstep
  obtain ⟨hu, hext⟩ := ht.1.step hstep
  exact ⟨hu, ht.2.trans hext⟩

end Tailers

/-- However the tailers of a projection interleave, the committed effects are one for each journal
event up to the checkpoint, in the order of the journal, and the checkpoint never goes back. -/
theorem tailers_commit_each_once (cellID projectionID : String) (actions : List TailerAction)
    (s : Tailers) (h : exec (Tailers.step cellID projectionID) {} actions = some s) :
    s.effects.map Effect.event =
        upTo GlobalEvent.globalSeq s.journal (s.store.loadOffset cellID projectionID) ∧
      (s.effects.map fun effect ↦ effect.event.globalSeq).Pairwise (· < ·) ∧
      ∀ later s', exec (Tailers.step cellID projectionID) s later = some s' →
        s.store.loadOffset cellID projectionID ≤ s'.store.loadOffset cellID projectionID ∧
          s.effects <+: s'.effects := by
  obtain ⟨hs, -⟩ := (Tailers.inv_initial cellID projectionID).exec h
  refine ⟨hs.committed.effects, ?_, fun later s' hlater ↦ (hs.exec hlater).2⟩
  have hasc : Ascending GlobalEvent.globalSeq (s.effects.map Effect.event) := by
    rw [hs.committed.effects]
    exact hs.committed.ascending.sublist filter_sublist
  rw [Ascending, pairwise_map] at hasc
  rw [pairwise_map]
  exact hasc

/-- The first tailer commits one event and stalls with the second in hand; a new tailer skips the
second as poison and commits the third, after which the first is fenced. -/
def deposedTailer : List TailerAction :=
  let event (n : ℕ) : GlobalEvent := ⟨n, "i", { kind := .stepCompleted }⟩
  [TailerAction.record (event 1), .record (event 2), .record (event 4), .poll "a"] ++
    [DrainAction.readHead, .loadOffset, .loadPage, .deliver .ok true].map
    (TailerAction.drain "a") ++
    [TailerAction.poll "b"] ++
    [DrainAction.readHead, .loadOffset, .loadPage, .deliver .permanent true, .skip true,
      .deliver .ok true].map (TailerAction.drain "b") ++
    [TailerAction.drain "a" (.deliver .ok true)]

theorem tailers_commit_each_once_deposed :
    ∃ s, exec (Tailers.step "cell" "orders") {} deposedTailer = some s ∧
      s.effects.map (fun effect ↦ (effect.event.globalSeq, effect.disposition)) =
        [(1, .applied), (2, .deadLettered), (4, .applied)] ∧
      s.effects.map Effect.event =
        upTo GlobalEvent.globalSeq s.journal (s.store.loadOffset "cell" "orders") := by
  have hrun : (exec (Tailers.step "cell" "orders") {} deposedTailer).map (fun s ↦
      s.effects.map fun effect ↦ (effect.event.globalSeq, effect.disposition)) =
      some [(1, .applied), (2, .deadLettered), (4, .applied)] := by decide
  obtain ⟨s, hs, heffects⟩ := map_eq_some_iff.1 hrun
  exact ⟨s, hs, heffects, (tailers_commit_each_once "cell" "orders" deposedTailer s hs).1⟩

end GoCell.Saga
