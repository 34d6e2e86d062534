import GoCell.Websocket.Hub

namespace GoCell.Websocket.Hub

open Foundation List Option Function

variable {h h' : Hub} {e : ℕ} {entry : ConnEntry}

/-- The connection with the number `e` was accepted with this subject. -/
@[grind] def HasSubject (h : Hub) (e : ℕ) (subject : String) : Prop :=
  ∃ entry, h.entries[e]? = some entry ∧ entry.subject = subject

structure Consistent (h : Hub) : Prop where
  registered : ∀ id e, h.conns.lookup id = some e →
    ∃ entry, h.entries[e]? = some entry ∧ entry.connID = id
  index : ∀ subject id e, (h.subjectIdx subject).lookup id = some e ↔
    subject ≠ "" ∧ h.conns.lookup id = some e ∧ h.HasSubject e subject
  bounded : 0 < h.maxConnections → (h.conns.entries.length : ℤ) ≤ h.maxConnections
  closes : ∀ (e : ℕ) entry, h.entries[e]? = some entry →
    h.conns.lookup entry.connID = some e ∨ e ∈ h.closing ∨ e ∈ h.closed
  emptied : h.drained = true → h.conns = ∅ ∧ (h.state = .stopping ∨ h.state = .stopped)
  selected : ∀ f ∈ h.fanouts, ∀ e ∈ f.2, h.HasSubject e f.1
  enqueued : ∀ q ∈ h.enqueued, h.HasSubject q.2 q.1

attribute [grind =] lookup_insert_if

variable (t : Table String ℕ)

@[grind =] theorem lookup_erase_if (k j : String) :
    (t.erase k).lookup j = if j = k then none else t.lookup j := by
  split
  · next hjk => rw [hjk, AList.lookup_erase]
  · next hjk => exact AList.lookup_erase_ne hjk

theorem length_erase_le (k : String) : (t.erase k).entries.length ≤ t.entries.length :=
  (kerase_sublist k t.entries).length_le

theorem length_insert_le (k : String) (v : ℕ) :
    (t.insert k v).entries.length ≤ t.entries.length + 1 :=
  Nat.succ_le_succ (kerase_sublist k t.entries).length_le

@[grind =] theorem lookup_removeFromSubjectIdxLocked (idx : String → Table String ℕ)
    (entry : ConnEntry) (subject id : String) :
    (removeFromSubjectIdxLocked idx entry subject).lookup id =
      if subject = entry.subject ∧ id = entry.connID ∧ subject ≠ "" then none
      else (idx subject).lookup id := by
  unfold removeFromSubjectIdxLocked
  by_cases hs : subject = entry.subject
  · subst hs
    grind -ring -linarith [update_self]
  · grind -ring -linarith [update_of_ne]

@[grind =] theorem lookup_addToSubjectIdxLocked (idx : String → Table String ℕ) (entry : ConnEntry)
    (e : ℕ) (subject id : String) :
    (addToSubjectIdxLocked idx entry e subject).lookup id =
      if subject = entry.subject ∧ id = entry.connID ∧ subject ≠ "" then some e
      else (idx subject).lookup id := by
  unfold addToSubjectIdxLocked
  by_cases hs : subject = entry.subject
  · subst hs
    grind -ring -linarith [update_self]
  · grind -ring -linarith [update_of_ne]

theorem Consistent.removeConnLocked (hc : h.Consistent) (hentry : h.entries[e]? = some entry)
    (hreg : h.conns.lookup entry.connID = some e) : (h.removeConnLocked e).Consistent := by
  obtain ⟨registered, index, bounded, closes, emptied, selected, enqueued⟩ := hc
  rw [Hub.removeConnLocked, hentry]
  have hlength := length_erase_le h.conns entry.connID
  refine ⟨?_, ?_, fun hmax ↦ ?_, ?_, ?_, selected, enqueued⟩
  · grind -ring -linarith
  · -- the bucket of the subject loses the id that leaves
    grind -ring -linarith
  · exact le_trans (Int.ofNat_le.2 hlength) (bounded hmax)
  · grind -ring -linarith
  · grind -ring -linarith [AList.lookup_empty]

theorem hasSubject_addConnLocked {subject : String} : (h.addConnLocked entry).HasSubject e subject ↔
      h.HasSubject e subject ∨ e = h.entries.length ∧ entry.subject = subject := by
  have hentries : (h.addConnLocked entry).entries = h.entries ++ [entry] := rfl
  grind -ring -linarith

section

variable (hc : h.Consistent)
include hc

theorem Consistent.addConnLocked (hfresh : h.conns.lookup entry.connID = none)
    (hlive : h.drained = false)
    (hroom : 0 < h.maxConnections → (h.conns.entries.length : ℤ) < h.maxConnections) :
    (h.addConnLocked entry).Consistent := by
  obtain ⟨registered, index, bounded, closes, emptied, selected, enqueued⟩ := hc
  have hlength := length_insert_le h.conns entry.connID h.entries.length
  refine ⟨?_, fun subject id e ↦ ?_, fun hmax ↦ ?_, ?_, ?_,
    fun f hf e he ↦ hasSubject_addConnLocked.2 (.inl (selected f hf e he)),
    fun q hq ↦ hasSubject_addConnLocked.2 (.inl (enqueued q hq))⟩
  · grind -ring -linarith [Hub.addConnLocked]
  · rw [hasSubject_addConnLocked]
    simp only [Hub.addConnLocked, lookup_addToSubjectIdxLocked, lookup_insert_if]
    grind -ring -linarith
  · have hlt := hroom hmax
    change ((h.conns.insert entry.connID h.entries.length).entries.length : ℤ) ≤ h.maxConnections
    omega
  · grind -ring -linarith [Hub.addConnLocked]
  · grind -ring -linarith [Hub.addConnLocked]

theorem Consistent.register (entry : ConnEntry) : (h.register entry).Consistent := by
  have hlive : h.state = .running → h.drained = false := by
    have hemptied := hc.emptied
    grind -ring -linarith
  unfold Hub.register
  split
  · exact hc
  · next hrunning =>
    split
    · exact hc
    · next hroom =>
      rw [not_and, not_le] at hroom
      cases hold : h.conns.lookup entry.connID with
      | none => exact hc.addConnLocked hold (hlive (not_not.1 hrunning)) hroom
      | some old =>
        -- the connection with the same id makes room first
        obtain ⟨oldEntry, hentry, hid⟩ := hc.registered _ _ hold
        have hlength := length_erase_le h.conns oldEntry.connID
        have hremoved := hc.removeConnLocked hentry (hid ▸ hold)
        dsimp only
        rw [Hub.removeConnLocked, hentry] at hremoved ⊢
        refine hremoved.addConnLocked ?_ (hlive (not_not.1 hrunning)) fun hmax ↦ ?_
        · grind -ring -linarith
        · exact lt_of_le_of_lt (Int.ofNat_le.2 hlength) (hroom hmax)

theorem Consistent.evict (e : ℕ) : (h.evict e).Consistent := by
  unfold Hub.evict
  split
  · exact hc
  · next entry hentry =>
    split
    · next hreg => exact hc.removeConnLocked hentry hreg
    · exact hc

theorem Consistent.unregister (id : String) : (h.unregister id).Consistent := by
  unfold Hub.unregister
  split
  · next e hreg =>
    obtain ⟨entry, hentry, rfl⟩ := hc.registered id e hreg
    exact hc.removeConnLocked hentry hreg
  · exact hc

theorem Consistent.drain (hstate : h.state = .stopping) : h.drain.Consistent := by
  obtain ⟨registered, index, bounded, closes, emptied, selected, enqueued⟩ := hc
  refine ⟨?_, ?_, fun hmax ↦ hmax.le, fun e entry he ↦ ?_, ?_, selected, enqueued⟩
  · grind -ring -linarith [Hub.drain, AList.lookup_empty]
  · grind -ring -linarith [Hub.drain, AList.lookup_empty]
  · rcases closes e entry he with hreg | hclosing | hclosed
    · refine .inr (.inl (mem_append_right _ (mem_map.2 ⟨⟨entry.connID, e⟩, ?_, rfl⟩)))
      exact AList.mem_lookup_iff.1 hreg
    · exact .inr (.inl (mem_append_left _ hclosing))
    · exact .inr (.inr hclosed)
  · grind -ring -linarith [Hub.drain]

theorem Consistent.close (e : ℕ) :
    ({ h with closing := h.closing.erase e, closed := h.closed ++ [e] } : Hub).Consistent := by
  refine { hc with closes := fun e' entry he' ↦ ?_ }
  have hcloses := hc.closes
  by_cases heq : e' = e
  · simp [heq]
  · have hmem : e' ∈ h.closing.erase e ↔ e' ∈ h.closing := mem_erase_of_ne heq
    grind -ring -linarith

theorem Consistent.mem_bucket {subject : String}
    (he : e ∈ (h.subjectIdx subject).entries.map fun x ↦ x.2) : h.HasSubject e subject := by
  obtain ⟨⟨id, e⟩, hmem, rfl⟩ := mem_map.1 he
  exact ((hc.index subject id e).1 (AList.mem_lookup_iff.2 hmem)).2.2

end

theorem handlePingResult_frame (h : Hub) (connID : String) (e : ℕ) (ok : Bool) :
    ∃ misses evictions, h.handlePingResult connID e ok = { h with
          pings := h.pings ++ [(e, ok)]
          pingMisses := misses
          pingEvictions := evictions } ∧
      (∀ e', misses e' = if h.conns.lookup connID = some e' then
        if ok then 0 else h.pingMisses e' + 1 else h.pingMisses e') ∧
      ∀ x ∈ evictions, x ∈ h.pingEvictions ∨ h.conns.lookup connID = some x.1 ∧ ok = false ∧
        x.2 = h.pings.length + 1 ∧ h.pingMissMax ≤ h.pingMisses x.1 + 1 := by
  unfold handlePingResult
  dsimp only
  cases hreg : h.conns.lookup connID with
  | none => exact ⟨_, _, rfl, by simp, fun x hx ↦ .inl hx⟩
  | some current =>
    cases ok with
    | true => exact ⟨_, _, rfl, by simp [update_apply, eq_comm], fun x hx ↦ .inl hx⟩
    | false =>
      refine ⟨_, _, rfl, fun e' ↦ ?_, fun x hx ↦ ?_⟩
      · by_cases he : e' = current
        · simp [he]
        · simp [he, Ne.symm he]
      · split_ifs at hx with hmax
        · rcases mem_append.1 hx with hx | hx
          · exact .inl hx
          · obtain rfl := mem_singleton.1 hx
            exact .inr ⟨rfl, rfl, rfl, hmax⟩
        · exact .inl hx

theorem Consistent.step {a : Action} (hc : h.Consistent) (hs : h.step a = some h') :
    h'.Consistent := by
  cases a with
  | register entry => exact some.inj hs ▸ hc.register entry
  | unregister id => exact some.inj hs ▸ hc.unregister id
  | evict e => exact some.inj hs ▸ hc.evict e
  | close e =>
    obtain ⟨-, ⟨⟩⟩ := ite_none_right_eq_some.1 hs
    exact hc.close e
  | drain =>
    obtain ⟨hstate, ⟨⟩⟩ := ite_none_right_eq_some.1 hs
    exact hc.drain hstate.1
  | broadcastToSubject =>
    obtain ⟨-, ⟨⟩⟩ := ite_none_left_eq_some.1 hs
    refine { hc with selected := fun f hf e he ↦ ?_ }
    rcases mem_append.1 hf with hf | hf
    · exact hc.selected f hf e he
    · obtain rfl := mem_singleton.1 hf
      exact hc.mem_bucket he
  | fanout =>
    simp only [Hub.step] at hs
    split at hs
    · next subject e selected hf =>
      cases hs
      have hold := hc.selected _ (mem_of_getElem? hf)
      refine { hc with selected := fun f hf e he ↦ ?_, enqueued := fun q hq ↦ ?_ }
      · obtain hf | rfl := mem_or_eq_of_mem_set hf
        · exact hc.selected f hf e he
        · exact hold e (mem_cons_of_mem _ he)
      · have henqueued := hc.enqueued
        grind -ring -linarith
    · cases hs
  | pingResult ok =>
    simp only [Hub.step] at hs
    split at hs
    · cases hs
    · next connID e rest hsweep =>
      obtain ⟨misses, evictions, hframe, -⟩ := h.handlePingResult_frame connID e ok
      rw [hframe] at hs
      cases hs
      exact { hc with }
  | _ =>
    simp only [Hub.step] at hs
    split at hs <;> cases hs
    exact { hc with emptied := by have hemptied := hc.emptied; grind }

theorem step_config {a : Action} (hs : h.step a = some h') :
    h'.maxConnections = h.maxConnections ∧ h'.pingMissMax = h.pingMissMax := by
  cases a <;> grind -ring -linarith [Hub.step, Hub.register, Hub.unregister, Hub.evict, Hub.drain,
    handlePingResult, Hub.removeConnLocked, Hub.addConnLocked]

theorem consistent_newHub (maxConnections pingMissMax : ℤ) :
    (newHub maxConnections pingMissMax).Consistent := by
  refine ⟨?_, ?_, fun hmax ↦ hmax.le, ?_, ?_, ?_, ?_⟩ <;> simp [newHub]

/-- In every reachable state the subject index groups the registered connections by their non-empty
subjects, there are at most `maxConnections`, one that has left was closed or can be closed by its
remover, nothing is registered after the drain, and broadcasts stay within their subject. -/
theorem hub_consistent (maxConnections pingMissMax : ℤ) (as : List Action) (h : Hub)
    (hrun : exec Hub.step (newHub maxConnections pingMissMax) as = some h) :
    (∀ subject id e, (h.subjectIdx subject).lookup id = some e ↔
      subject ≠ "" ∧ h.conns.lookup id = some e ∧ h.HasSubject e subject) ∧
    (0 < maxConnections → (h.conns.entries.length : ℤ) ≤ maxConnections) ∧
    (∀ (e : ℕ) entry, h.entries[e]? = some entry → h.conns.lookup entry.connID ≠ some e →
      e ∈ h.closed ∨ ∃ h', h.step (.close e) = some h' ∧ e ∈ h'.closed) ∧
    (h.drained = true → h.conns = ∅) ∧
    ∀ q ∈ h.enqueued, h.HasSubject q.2 q.1 := by
  obtain ⟨hc, hmax⟩ := exec_invariant
    (fun h ↦ h.Consistent ∧ h.maxConnections = maxConnections)
    (fun h a h' hh hs ↦ ⟨hh.1.step hs, (step_config hs).1.trans hh.2⟩) as _ h
    ⟨consistent_newHub maxConnections pingMissMax, rfl⟩ hrun
  refine ⟨hc.index, hmax ▸ hc.bounded, fun e entry hentry hleft ↦ ?_,
    fun hd ↦ (hc.emptied hd).1, hc.enqueued⟩
  rcases hc.closes e entry hentry with hreg | hclosing | hclosed
  · exact absurd hreg hleft
  · exact .inr ⟨_, if_pos hclosing, mem_append_right _ mem_cons_self⟩
  · exact .inl hclosed

/-- A connection leaves while a broadcast to its subject has selected it, and its id is taken
over. -/
def replacedRun : List Action :=
  [.start, .register ⟨"c", "s"⟩, .broadcastToSubject "s", .register ⟨"c", "t"⟩, .close 0,
    .fanout 0 true]

theorem hub_consistent_replaced : ∃ h, exec Hub.step (newHub 2 1) replacedRun = some h ∧
    h.enqueued = [("s", 0)] ∧ h.HasSubject 0 "s" := by
  have hrun : (exec Hub.step (newHub 2 1) replacedRun).map Hub.enqueued = some [("s", 0)] := rfl
  obtain ⟨h, hrun, henqueued⟩ := map_eq_some_iff.1 hrun
  refine ⟨h, hrun, henqueued, (hub_consistent 2 1 replacedRun h hrun).2.2.2.2 ("s", 0) ?_⟩
  rw [henqueued]
  exact mem_cons_self

end GoCell.Websocket.Hub
