import GoCell.Outbox.Relay

namespace GoCell.Outbox

open Foundation Kernel List Option

variable {r : Relay} {s t : Relays} {a : Action} {id : String}

inductive Settlement (r : Relay) (now : Time) (rand : ℕ) (res : PublishResult) :
    (FakeRow → FakeRow) → Prop
  | published (hres : res.err = none) : Settlement r now rand res (FakeRow.publish now)
  | buried {err : PublishError} (hres : res.err = some err)
      (hdead : err.permanent = true ∨ r.maxAttempts ≤ res.entry.attempts + 1) :
      Settlement r now rand res
        (FakeRow.bury now (res.entry.attempts + 1) (r.sanitizeError err.message))
  | retried {err : PublishError} (hres : res.err = some err) :
      Settlement r now rand res
        (FakeRow.retry (res.entry.attempts + 1)
          (now + r.retryDelay (res.entry.attempts + 1) rand) (r.sanitizeError err.message))

theorem handleFailedEntry_ok {now : Time} {rand : ℕ} {store : FakeStore} {res : PublishResult}
    {err : PublishError} {stats : PollStats} {x : FakeStore × PollStats} (hres : res.err = some err)
    (h : r.handleFailedEntry now rand store res err stats = .ok x) :
    ∃ f, Settlement r now rand res f ∧
      x.1 = (store.settle res.entry.entry.id res.entry.leaseID f).1 := by
  dsimp only [Relay.handleFailedEntry] at h
  split_ifs at h with hdead
  · obtain ⟨_, -, h⟩ := bind_ok.1 h
    cases h
    exact ⟨_, .buried hres hdead, rfl⟩
  · obtain ⟨_, -, h⟩ := bind_ok.1 h
    cases h
    exact ⟨_, .retried hres, rfl⟩

theorem writeBackOne_ok {now : Time} {rand : ℕ} {commit : Except Err Unit} {store : FakeStore}
    {res : PublishResult} {stats : PollStats} {x : FakeStore × PollStats}
    (h : r.writeBackOne now rand commit store res stats = .ok x) :
    ∃ f, Settlement r now rand res f ∧
      x.1 = (store.settle res.entry.entry.id res.entry.leaseID f).1 := by
  cases hres : res.err with
  | some err =>
    simp only [Relay.writeBackOne, hres] at h
    exact handleFailedEntry_ok hres h
  | none =>
    simp only [Relay.writeBackOne, hres] at h
    obtain ⟨_, -, h⟩ := bind_ok.1 h
    obtain ⟨_, -, h⟩ := bind_ok.1 h
    cases h
    exact ⟨_, .published hres, rfl⟩

def WorkerPc.entries : WorkerPc → List ClaimedEntry
  | .idle => []
  | .publishing todo results => todo ++ results.map PublishResult.entry
  | .writingBack results _ => results.map PublishResult.entry

def WorkerPc.results : WorkerPc → List PublishResult
  | .idle => []
  | .publishing _ results => results
  | .writingBack results _ => results

theorem WorkerPc.entries_afterPublish (todo : List ClaimedEntry) (results : List PublishResult) :
    (afterPublish todo results).entries = todo ++ results.map PublishResult.entry := by
  cases todo <;> rfl

theorem WorkerPc.results_afterPublish (todo : List ClaimedEntry) (results : List PublishResult) :
    (afterPublish todo results).results = results := by
  cases todo <;> rfl

inductive Moves (r : Relay) (s : Relays) : Action → Relays → Prop
  | tick {elapsed : ℕ} : Moves r s (.tick elapsed) { s with now := s.now + elapsed }
  | write {entry : Entry} (hnew : s.store.row entry.id = none) :
      Moves r s (.write entry) { s with store := s.store.write entry }
  | claim {w : ℕ} {iteration : List String} {uuid : String} {store : FakeStore}
      {entries : List ClaimedEntry} (hiteration : iteration.Nodup) (huuid : uuid ∉ s.leases)
      (hclaim : s.store.claimPending s.now iteration uuid r.batchSize = (store, entries)) :
      Moves r s (.claim w iteration uuid)
        ({ s with store := store, leases := uuid :: s.leases }.claimed w entries)
  | publish {w : ℕ} {err : Option PublishError} {receipt isCommand : Bool} {entry : ClaimedEntry}
      {todo : List ClaimedEntry} {results : List PublishResult}
      (hw : s.workers w = .publishing (entry :: todo) results) :
      Moves r s (.publish w err receipt isCommand)
        (s.publish w todo results ⟨entry, err, receipt, isCommand⟩)
  | writeBack {w rand : ℕ} {commit : Except Err Unit} {res : PublishResult}
      {rest : List PublishResult} {stats stats' : PollStats} {f : FakeRow → FakeRow}
      (hw : s.workers w = .writingBack (res :: rest) stats) (hf : Settlement r s.now rand res f) :
      Moves r s (.writeBack w rand commit)
        ({ s with store := (s.store.settle res.entry.entry.id res.entry.leaseID f).1 }.setWorker w
          (if rest.isEmpty then .idle else .writingBack rest stats'))
  | writeBackFailed {w rand : ℕ} {commit : Except Err Unit} :
      Moves r s (.writeBack w rand commit) (s.setWorker w .idle)
  | abandon {w : ℕ} : Moves r s (.abandon w) (s.setWorker w .idle)
  | reclaimStale : Moves r s .reclaimStale
      { s with
        store := (s.store.reclaimStale s.now r.claimTTL r.maxAttempts r.baseRetryDelay
          r.maxRetryDelay r.reclaimBatchSize).1 }
  | cleanup {b : Action} {status : State} {tsOf : FakeRow → Option Time} {cutoff : Time}
      (hterminal : status.isTerminal = true)
      (hb : b = .cleanupPublished cutoff ∨ b = .cleanupDead cutoff) :
      Moves r s b
        { s with store := (s.store.cleanup status tsOf cutoff cleanupBatchLimit).1 }

theorem moves_step (h : s.step r a = some t) : Moves r s a t := by
  cases a with
  | tick =>
    cases h
    exact .tick
  | write entry =>
    simp only [Relays.step] at h
    split_ifs at h with hnew
    cases h
    exact .write (isNone_iff_eq_none.1 hnew)
  | claim =>
    simp only [Relays.step] at h
    split at h
    · split_ifs at h with hguard
      cases h
      have hnodup := (isPerm_iff.1 hguard.1).nodup_iff.2 s.store.rows.keys_nodup
      exact .claim hnodup hguard.2 rfl
    · cases h
  | publish w err receipt isCommand =>
    simp only [Relays.step] at h
    split at h
    · rename_i hw
      cases h
      exact .publish hw
    · cases h
  | writeBack w rand commit =>
    simp only [Relays.step] at h
    split at h
    · rename_i res rest stats hw
      cases h
      unfold Relays.writeBack
      cases hone : r.writeBackOne s.now rand commit s.store res stats with
      | error e => exact .writeBackFailed
      | ok x =>
        obtain ⟨f, hf, hstore⟩ := writeBackOne_ok hone
        obtain ⟨store, stats'⟩ := x
        obtain rfl := hstore
        exact .writeBack hw hf
    · cases h
  | abandon w =>
    cases h
    exact .abandon
  | reclaimStale =>
    cases h
    exact .reclaimStale
  | cleanupPublished =>
    cases h
    exact .cleanup rfl (.inl rfl)
  | cleanupDead =>
    cases h
    exact .cleanup rfl (.inr rfl)

inductive RowChange (r : Relay) (s : Relays) (a : Action) (id : String) :
    Option FakeRow → Option FakeRow → Prop
  | kept {row : Option FakeRow} : RowChange r s a id row row
  | created {entry : Entry} (hid : entry.id = id) :
      RowChange r s a id none (some { entry := entry, status := .pending, attempts := 0 })
  | claimed {row : FakeRow} {uuid : String} (hpending : row.status = .pending)
      (huuid : uuid ∉ s.leases) : RowChange r s a id (some row) (some (row.claim s.now uuid))
  | settled {row : FakeRow} {w rand : ℕ} {commit : Except Err Unit} {res : PublishResult}
      {rest : List PublishResult} {stats : PollStats} {f : FakeRow → FakeRow}
      (ha : a = .writeBack w rand commit) (hw : s.workers w = .writingBack (res :: rest) stats)
      (hid : res.entry.entry.id = id) (hclaiming : row.status = .claiming)
      (hlease : row.leaseID = res.entry.leaseID) (hf : Settlement r s.now rand res f) :
      RowChange r s a id (some row) (some (f row))
  | reclaimed {row : FakeRow} (hclaiming : row.status = .claiming) :
      RowChange r s a id (some row)
        (some (row.reclaim s.now r.maxAttempts r.baseRetryDelay r.maxRetryDelay))
  | deleted {row : FakeRow} (hterminal : row.status.isTerminal = true) :
      RowChange r s a id (some row) none

theorem Moves.row (hm : Moves r s a t) (id : String) :
    RowChange r s a id (s.store.row id) (t.store.row id) := by
  cases hm with
  | tick | publish | writeBackFailed | abandon => exact .kept
  | @write entry hnew =>
    change RowChange r s _ id _ ((s.store.write entry).row id)
    rw [FakeStore.row_write]
    split_ifs with hid
    · rw [hid, hnew]
      exact .created rfl
    · exact .kept
  | @claim w iteration uuid store entries hiteration huuid hclaim =>
    change RowChange r s _ id _ (store.row id)
    have hrow := s.store.row_claimPending s.now hiteration uuid r.batchSize id
    rw [hclaim] at hrow
    rw [hrow]
    split_ifs with hmem
    · obtain ⟨⟨_, row⟩, hcandidate, rfl⟩ := mem_map.1 hmem
      obtain ⟨hlookup, hclaimable⟩ := FakeStore.mem_candidates hcandidate
      rw [hlookup]
      rw [FakeRow.claimable, Bool.and_eq_true] at hclaimable
      exact .claimed (of_decide_eq_true hclaimable.1) huuid
    · exact .kept
  | @writeBack w rand commit res rest stats stats' f hw hf =>
    change RowChange r s _ id _ ((s.store.settle _ _ f).1.row id)
    rcases s.store.settle_cases res.entry.entry.id res.entry.leaseID f with
      hstale | ⟨row, hrow, hclaiming, hlease, hset⟩
    · rw [hstale]
      exact .kept
    · rw [hset]
      split_ifs with hid
      · rw [hid, hrow]
        exact .settled rfl hw rfl hclaiming hlease hf
      · exact .kept
  | reclaimStale =>
    rcases s.store.row_reclaimStale s.now r.claimTTL r.maxAttempts r.baseRetryDelay r.maxRetryDelay
      r.reclaimBatchSize id with hkept | ⟨row, hrow, hclaiming, hreclaimed⟩
    · change RowChange r s _ id _ ((s.store.reclaimStale _ _ _ _ _ _).1.row id)
      rw [hkept]
      exact .kept
    · change RowChange r s _ id _ ((s.store.reclaimStale _ _ _ _ _ _).1.row id)
      rw [hreclaimed, hrow]
      exact .reclaimed hclaiming
  | @cleanup b status tsOf cutoff hterminal hb =>
    change RowChange r s _ id _ ((s.store.cleanup status tsOf cutoff _).1.row id)
    rcases s.store.row_cleanup status tsOf cutoff cleanupBatchLimit id with
      hkept | ⟨row, hrow, hstatus, hdeleted⟩
    · rw [hkept]
      exact .kept
    · rw [hdeleted, hrow]
      exact .deleted (by rw [hstatus]; exact hterminal)

/-- What every state keeps: the entries that a worker holds were claimed under a lease of their own,
and a row that is still held under that lease has the attempts that the worker saw. -/
structure Relays.Inv (s : Relays) : Prop where
  keyed : ∀ id row, s.store.row id = some row → row.entry.id = id
  leased : ∀ w, ∀ c ∈ (s.workers w).entries, c.leaseID ∈ s.leases
  snapshot : ∀ w, ∀ c ∈ (s.workers w).entries, ∀ row, s.store.row c.entry.id = some row →
    row.status = .claiming → row.leaseID = c.leaseID → row.attempts = c.attempts
  delivered : ∀ w, ∀ res ∈ (s.workers w).results, res.err = none →
    ⟨w, res.entry.entry.id, res.entry.leaseID⟩ ∈ s.deliveries

section

variable {now : Time} {rand : ℕ} {res : PublishResult} {f : FakeRow → FakeRow}
  (h : Settlement r now rand res f) (row : FakeRow)
include h row

theorem Settlement.entry : (f row).entry = row.entry := by
  cases h <;> rfl

theorem Settlement.not_claiming :
    (f row).status ≠ .claiming := by
  cases h <;> exact fun hclaiming ↦ by cases hclaiming

end

section

variable (now : Time) (maxAttempts : ℕ) (baseDelay maxDelay : Duration) (row : FakeRow)
include now maxAttempts baseDelay maxDelay row

theorem FakeRow.reclaim_entry :
    (row.reclaim now maxAttempts baseDelay maxDelay).entry = row.entry := by
  unfold FakeRow.reclaim
  dsimp only
  split_ifs <;> rfl

theorem FakeRow.reclaim_attempts :
    (row.reclaim now maxAttempts baseDelay maxDelay).attempts = row.attempts + 1 := by
  unfold FakeRow.reclaim
  dsimp only
  split_ifs <;> rfl

theorem FakeRow.reclaim_status :
    (row.reclaim now maxAttempts baseDelay maxDelay).status =
      if maxAttempts ≤ row.attempts + 1 then .dead else .pending := by
  unfold FakeRow.reclaim
  dsimp only
  split_ifs <;> rfl

end

theorem RowChange.keyed {before after : Option FakeRow} (h : RowChange r s a id before after)
    (hbefore : ∀ row, before = some row → row.entry.id = id) :
    ∀ row, after = some row → row.entry.id = id := by
  intro row' hrow'
  cases h with
  | kept => exact hbefore row' hrow'
  | created hid =>
    cases hrow'
    exact hid
  | @claimed row uuid hpending huuid =>
    cases hrow'
    exact hbefore row rfl
  | @settled row w rand commit res rest stats f ha hw hid hclaiming hlease hf =>
    cases hrow'
    rw [hf.entry]
    exact hbefore row rfl
  | @reclaimed row hclaiming =>
    cases hrow'
    rw [FakeRow.reclaim_entry]
    exact hbefore row rfl
  | deleted => cases hrow'

theorem RowChange.held {before after : Option FakeRow} {row' : FakeRow}
    (h : RowChange r s a id before after) (hrow' : after = some row')
    (hclaiming' : row'.status = .claiming) (hlease' : row'.leaseID ∈ s.leases) :
    before = some row' := by
  cases h with
  | kept => exact hrow'
  | created hid =>
    cases hrow'
    cases hclaiming'
  | claimed _ huuid =>
    cases hrow'
    exact absurd hlease' huuid
  | settled _ _ _ _ _ hf =>
    cases hrow'
    exact absurd hclaiming' (hf.not_claiming _)
  | reclaimed =>
    cases hrow'
    rw [FakeRow.reclaim_status] at hclaiming'
    split_ifs at hclaiming'
  | deleted => cases hrow'

/-- Kept when a worker holds no entry but what it held or has just claimed under a new lease, and no
result but what it had or has just obtained. -/
theorem Relays.Inv.frame (h : s.Inv)
    (hrow : ∀ id, RowChange r s a id (s.store.row id) (t.store.row id))
    (hleases : ∀ l ∈ s.leases, l ∈ t.leases) (hdeliveries : ∀ d ∈ s.deliveries, d ∈ t.deliveries)
    (hentries : ∀ w, ∀ c ∈ (t.workers w).entries, c ∈ (s.workers w).entries ∨
      (c.leaseID ∈ t.leases ∧ ∀ row, t.store.row c.entry.id = some row → row.attempts = c.attempts))
    (hresults : ∀ w, ∀ res ∈ (t.workers w).results, res ∈ (s.workers w).results ∨
      (res.err = none → ⟨w, res.entry.entry.id, res.entry.leaseID⟩ ∈ t.deliveries)) : t.Inv where
  keyed := fun id ↦ (hrow id).keyed (h.keyed id)
  leased := by
    intro w c hc
    rcases hentries w c hc with hold | hnew
    · exact hleases _ (h.leased w c hold)
    · exact hnew.1
  snapshot := by
    intro w c hc row hlookup hclaiming hlease
    rcases hentries w c hc with hold | hnew
    · have hleased : row.leaseID ∈ s.leases := by
        rw [hlease]
        exact h.leased w c hold
      exact h.snapshot w c hold row ((hrow _).held hlookup hclaiming hleased) hclaiming hlease
    · exact hnew.2 row hlookup
  delivered := by
    intro w res hres hsuccess
    rcases hresults w res hres with hold | hnew
    · exact hdeliveries _ (h.delivered w res hold hsuccess)
    · exact hnew hsuccess

theorem Relays.workers_setWorker (s : Relays) (v : ℕ) (pc : WorkerPc) (w : ℕ) :
    (s.setWorker v pc).workers w = if w = v then pc else s.workers w :=
  Function.update_apply _ _ _ _

theorem Relays.Inv.setWorker (h : s.Inv)
    (hrow : ∀ id, RowChange r s a id (s.store.row id) (t.store.row id)) {v : ℕ} {pc : WorkerPc}
    (ht : t.workers = (s.setWorker v pc).workers) (hleases : t.leases = s.leases)
    (hdeliveries : t.deliveries = s.deliveries)
    (hentries : ∀ c ∈ pc.entries, c ∈ (s.workers v).entries)
    (hresults : ∀ res ∈ pc.results, res ∈ (s.workers v).results) : t.Inv := by
  refine h.frame hrow (fun l hl ↦ hleases ▸ hl) (fun d hd ↦ hdeliveries ▸ hd) ?_ ?_
  · intro w c hc
    rw [ht, workers_setWorker] at hc
    split_ifs at hc with hw
    · rw [hw]
      exact .inl (hentries c hc)
    · exact .inl hc
  · intro w res hres
    rw [ht, workers_setWorker] at hres
    split_ifs at hres with hw
    · rw [hw]
      exact .inl (hresults res hres)
    · exact .inl hres

theorem Relays.Inv.moves_claim (h : s.Inv) {w : ℕ} {iteration : List String} {uuid : String}
    {store : FakeStore} {entries : List ClaimedEntry} (hiteration : iteration.Nodup)
    (hclaim : s.store.claimPending s.now iteration uuid r.batchSize = (store, entries))
    (hrow : ∀ id, RowChange r s a id (s.store.row id) (store.row id)) :
    ({ s with store := store, leases := uuid :: s.leases }.claimed w entries).Inv := by
  refine h.frame hrow (fun l hl ↦ mem_cons_of_mem _ hl) (fun d hd ↦ hd) ?_ ?_
  · intro v c hc
    rw [claimed, workers_setWorker] at hc
    split_ifs at hc with hv hempty
    · cases hc
    · right
      have hmem : c ∈ entries := by simpa [WorkerPc.entries] using hc
      rw [show entries = _ from (congrArg Prod.snd hclaim).symm] at hmem
      obtain ⟨⟨id, row⟩, hcandidate, rfl⟩ := mem_map.1 hmem
      obtain ⟨hlookup, -⟩ := FakeStore.mem_candidates hcandidate
      refine ⟨mem_cons_self, fun row' hrow' ↦ ?_⟩
      have hclaimed := s.store.row_claimPending s.now hiteration uuid r.batchSize id
      rw [if_pos (mem_map.2 ⟨_, hcandidate, rfl⟩), hlookup, hclaim] at hclaimed
      change store.row row.entry.id = some row' at hrow'
      rw [h.keyed id row hlookup, hclaimed] at hrow'
      cases hrow'
      rfl
    · exact .inl hc
  · intro v res hres
    rw [claimed, workers_setWorker] at hres
    split_ifs at hres with hv hempty
    · cases hres
    · cases hres
    · exact .inl hres

theorem Relays.Inv.moves_publish (h : s.Inv) {w : ℕ} {todo : List ClaimedEntry}
    {results : List PublishResult} {res : PublishResult}
    (hw : s.workers w = .publishing (res.entry :: todo) results)
    (hrow : ∀ id, RowChange r s a id (s.store.row id) (s.store.row id)) :
    (s.publish w todo results res).Inv := by
  refine h.frame hrow (fun l hl ↦ hl) (fun d hd ↦ mem_append_left _ hd) ?_ ?_
  · intro v c hc
    left
    rw [publish, workers_setWorker] at hc
    split_ifs at hc with hv
    · rw [WorkerPc.entries_afterPublish, map_append] at hc
      rw [hv, hw]
      change c ∈ res.entry :: todo ++ results.map PublishResult.entry
      rcases mem_append.1 hc with htodo | hresults
      · exact mem_append_left _ (mem_cons_of_mem _ htodo)
      · rcases mem_append.1 hresults with hold | hnew
        · exact mem_append_right _ hold
        · rw [mem_singleton.1 hnew]
          exact mem_cons_self
    · exact hc
  · intro v res' hres'
    rw [publish, workers_setWorker] at hres'
    split_ifs at hres' with hv
    · rw [WorkerPc.results_afterPublish] at hres'
      rcases mem_append.1 hres' with hold | hnew
      · rw [hv, hw]
        exact .inl hold
      · right
        intro hsuccess
        rw [mem_singleton.1 hnew] at hsuccess ⊢
        rw [hv]
        change _ ∈ s.deliveries ++ res.delivery w
        rw [PublishResult.delivery, hsuccess]
        exact mem_append_right _ mem_cons_self
    · exact .inl hres'

theorem Relays.Inv.moves (h : s.Inv) (hm : Moves r s a t) : t.Inv := by
  have hrow := hm.row
  cases hm with
  | tick | write | reclaimStale | cleanup =>
    exact h.frame hrow (fun _ hl ↦ hl) (fun _ hd ↦ hd) (fun _ _ hc ↦ .inl hc)
      fun _ _ hres ↦ .inl hres
  | claim hiteration huuid hclaim => exact h.moves_claim hiteration hclaim hrow
  | publish hw => exact h.moves_publish hw hrow
  | @writeBack w rand commit res rest stats stats' f hw hf =>
    refine h.setWorker hrow rfl rfl rfl ?_ ?_
    · intro c hc
      split_ifs at hc
      · cases hc
      · rw [hw]
        exact mem_cons_of_mem _ hc
    · intro res' hres'
      split_ifs at hres'
      · cases hres'
      · rw [hw]
        exact mem_cons_of_mem _ hres'
  | writeBackFailed | abandon =>
    exact h.setWorker hrow rfl rfl rfl (fun _ h ↦ by cases h) (fun _ h ↦ by cases h)

end GoCell.Outbox
