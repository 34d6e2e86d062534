import GoCell.Outbox.RelayInvariant

namespace GoCell.Outbox

open Foundation Kernel List Option

variable {r : Relay} {s t : Relays} {a : Action} {actions : List Action} {id : String}

structure Relays.Fresh (s : Relays) : Prop where
  seeded : ∃ entries, s.store = FakeStore.seed {} entries
  workers : ∀ w, s.workers w = .idle

theorem FakeStore.row_seed {entries : List ClaimedEntry} {row : FakeRow}
    (h : (FakeStore.seed {} entries).row id = some row) : row.entry.id = id := by
  rcases lookup_foldl_insert (fun ce : ClaimedEntry ↦ ce.entry.id) _ entries ∅ h with
    hnone | ⟨ce, -, hid, hrow⟩
  · cases hnone
  · rw [← hrow]
    exact hid

theorem Relays.Fresh.inv (h : s.Fresh) : s.Inv := by
  obtain ⟨entries, hstore⟩ := h.seeded
  constructor
  · intro id row hrow
    rw [hstore] at hrow
    exact FakeStore.row_seed hrow
  · intro w c hc
    rw [h.workers] at hc
    cases hc
  · intro w c hc
    rw [h.workers] at hc
    cases hc
  · intro w res hres
    rw [h.workers] at hres
    cases hres

theorem Relays.Inv.exec (h : s.Inv) (hrun : Foundation.exec (Relays.step r) s actions = some t) :
    t.Inv :=
  exec_invariant Relays.Inv (fun _ _ _ h hstep ↦ h.moves (moves_step hstep)) actions s t h hrun

def WritesBack (s : Relays) (a : Action) (w : ℕ) (res : PublishResult) : Prop :=
  (∃ rand commit, a = .writeBack w rand commit) ∧
    ∃ rest stats, s.workers w = .writingBack (res :: rest) stats

structure RowStep (r : Relay) (s : Relays) (a : Action) (id : String) (row row' : FakeRow) :
    Prop where
  status : row'.status = row.status ∨ row.status.canTransitionTo row'.status = true
  /-- Only a worker whose publish of this entry succeeded under the lease of the row. -/
  published : row.status ≠ .published → row'.status = .published →
    ∃ w res, WritesBack s a w res ∧ res.err = none ∧ res.entry.entry.id = id ∧
      res.entry.leaseID = row.leaseID ∧ ⟨w, id, row.leaseID⟩ ∈ s.deliveries
  attempts_le : row.attempts ≤ row'.attempts
  attempts_succ : row.status = .claiming → row'.status = .pending ∨ row'.status = .dead →
    row'.attempts = row.attempts + 1
  /-- After a permanent failure, or when the attempts have reached the maximum. -/
  dead : row.status ≠ .dead → row'.status = .dead →
    (∃ w res err, WritesBack s a w res ∧ res.entry.entry.id = id ∧
      res.entry.leaseID = row.leaseID ∧ res.err = some err ∧ err.permanent = true) ∨
    r.maxAttempts ≤ row'.attempts

theorem RowStep.kept (row : FakeRow) : RowStep r s a id row row where
  status := .inl rfl
  published := fun h h' ↦ absurd h' h
  attempts_le := le_rfl
  attempts_succ := by
    intro hclaiming hleft
    rw [hclaiming] at hleft
    rcases hleft with hleft | hleft <;> cases hleft
  dead := fun h h' ↦ absurd h' h

theorem RowStep.claimed {row : FakeRow} (hpending : row.status = .pending) (now : Time)
    (uuid : String) : RowStep r s a id row (row.claim now uuid) where
  status := by
    rw [hpending]
    exact .inr rfl
  published := fun _ h ↦ by cases h
  attempts_le := le_rfl
  attempts_succ := by
    intro hclaiming
    rw [hpending] at hclaiming
    cases hclaiming
  dead := fun _ h ↦ by cases h

theorem RowStep.settled (h : s.Inv) {row : FakeRow} {w rand : ℕ} {res : PublishResult}
    {f : FakeRow → FakeRow} (hback : WritesBack s a w res) (hrow : s.store.row id = some row)
    (hid : res.entry.entry.id = id) (hclaiming : row.status = .claiming)
    (hlease : row.leaseID = res.entry.leaseID) (hf : Settlement r s.now rand res f) :
    RowStep r s a id row (f row) := by
  obtain ⟨rest, stats, hw⟩ := hback.2
  have hres : res ∈ (s.workers w).results := by
    rw [hw]
    exact mem_cons_self
  have hentry : res.entry ∈ (s.workers w).entries := by
    rw [hw]
    exact mem_cons_self
  have hattempts : row.attempts = res.entry.attempts :=
    h.snapshot w res.entry hentry row (by rw [hid]; exact hrow) hclaiming hlease
  cases hf with
  | published hsuccess =>
    refine ⟨?_, fun _ _ ↦ ⟨w, res, hback, hsuccess, hid, hlease.symm, ?_⟩, le_rfl, ?_,
      fun _ h ↦ by cases h⟩
    · rw [hclaiming]
      exact .inr rfl
    · have hdelivered := h.delivered w res hres hsuccess
      rw [hid, ← hlease] at hdelivered
      exact hdelivered
    · intro _ hleft
      rcases hleft with hleft | hleft <;> cases hleft
  | @buried err herr hdead =>
    have hsucc : (row.bury s.now (res.entry.attempts + 1) (r.sanitizeError err.message)).attempts =
        row.attempts + 1 := by rw [hattempts]; rfl
    refine ⟨?_, (fun _ h ↦ by cases h), ?_, fun _ _ ↦ hsucc, fun _ _ ↦ ?_⟩
    · rw [hclaiming]
      exact .inr rfl
    · omega
    · rcases hdead with hpermanent | hmax
      · exact .inl ⟨w, res, err, hback, hid, hlease.symm, herr, hpermanent⟩
      · exact .inr hmax
  | @retried err herr =>
    have hsucc : (row.retry (res.entry.attempts + 1)
        (s.now + r.retryDelay (res.entry.attempts + 1) rand)
        (r.sanitizeError err.message)).attempts = row.attempts + 1 := by rw [hattempts]; rfl
    refine ⟨?_, (fun _ h ↦ by cases h), ?_, fun _ _ ↦ hsucc, fun _ h ↦ by cases h⟩
    · rw [hclaiming]
      exact .inr rfl
    · omega

theorem RowStep.reclaimed {row : FakeRow} (hclaiming : row.status = .claiming) (now : Time)
    (baseDelay maxDelay : Duration) :
    RowStep r s a id row (row.reclaim now r.maxAttempts baseDelay maxDelay) := by
  have hsucc := row.reclaim_attempts now r.maxAttempts baseDelay maxDelay
  have hstatus := row.reclaim_status now r.maxAttempts baseDelay maxDelay
  refine ⟨?_, fun _ hpublished ↦ ?_, ?_, fun _ _ ↦ hsucc, fun _ hdead ↦ ?_⟩
  · rw [hstatus, hclaiming]
    split_ifs <;> exact .inr rfl
  · rw [hstatus] at hpublished
    split_ifs at hpublished
  · omega
  · right
    rw [hstatus] at hdead
    split_ifs at hdead with hmax
    omega

/-- In every run of relay workers over one store, rows move as the transition table allows and only
published and dead ones are deleted; a row is published by a worker that delivered it under its
lease, every failed claim is one attempt, a row dies of a permanent failure or of its attempts, and
a stale write-back changes nothing. -/
theorem relays_settle_rows {s₀ : Relays} (hs : s₀.Fresh)
    (hrun : exec (Relays.step r) s₀ actions = some s) (hstep : s.step r a = some t) :
    (∀ id row, s.store.row id = some row →
      (t.store.row id = none ∧ (row.status = .published ∨ row.status = .dead)) ∨
        ∃ row', t.store.row id = some row' ∧ RowStep r s a id row row') ∧
    ∀ w res, WritesBack s a w res →
      (∀ row, s.store.row res.entry.entry.id = some row → row.leaseID ≠ res.entry.leaseID) →
        t.store = s.store := by
  have hinv := hs.inv.exec hrun
  have hm := moves_step hstep
  constructor
  · intro id row hrow
    have hchange := hm.row id
    rw [hrow] at hchange
    generalize hafter : t.store.row id = after at hchange
    cases hchange with
    | kept => exact .inr ⟨row, rfl, .kept row⟩
    | claimed hpending => exact .inr ⟨_, rfl, .claimed hpending _ _⟩
    | settled ha hw hid hclaiming hlease hf =>
      exact .inr ⟨_, rfl, .settled hinv ⟨⟨_, _, ha⟩, _, _, hw⟩ hrow hid hclaiming hlease hf⟩
    | reclaimed hclaiming => exact .inr ⟨_, rfl, .reclaimed hclaiming _ _ _⟩
    | deleted hterminal =>
      refine .inl ⟨rfl, ?_⟩
      cases hstatus : row.status with
      | published => exact .inl rfl
      | dead => exact .inr rfl
      | pending | claiming =>
        rw [hstatus] at hterminal
        cases hterminal
  · rintro w res ⟨⟨rand, commit, rfl⟩, rest, stats, hw⟩ hstale
    cases hm with
    | writeBackFailed => rfl
    | writeBack hw' hf =>
      rw [hw] at hw'
      obtain ⟨hres, -⟩ := WorkerPc.writingBack.inj hw'
      obtain ⟨rfl, -⟩ := cons.inj hres
      change (s.store.settle _ _ _).1 = s.store
      rw [FakeStore.settle_stale]
      exact fun row hrow hheld ↦ hstale row hrow hheld.2
    | cleanup _ hb => rcases hb with hb | hb <;> cases hb

def fastRelay : Relay where
  batchSize := 100
  maxAttempts := 5
  claimTTL := 60
  baseRetryDelay := 5
  maxRetryDelay := 300
  reclaimBatchSize := 1000
  sanitizeError := fun message ↦ message

def oneEntry : Relays := { store := FakeStore.seed {} [⟨⟨"e", 0⟩, 0, ""⟩] }

def slowWorker : List Action :=
  [.claim 0 ["e"] "a", .tick 100, .reclaimStale, .tick 100, .claim 1 ["e"] "b",
    .publish 0 none false false, .publish 1 none false false]

theorem relays_settle_rows_slow_worker :
    ∃ s t, exec (Relays.step fastRelay) oneEntry slowWorker = some s ∧
      s.step fastRelay (.writeBack 0 0 (.ok ())) = some t ∧ t.store = s.store := by
  have hrun : ((exec (Relays.step fastRelay) oneEntry slowWorker).bind fun s ↦
      (s.step fastRelay (.writeBack 0 0 (.ok ()))).map fun _ ↦
        (s.workers 0, (s.store.row "e").map fun row ↦ row.leaseID)) =
      some (.writingBack [⟨⟨⟨"e", 0⟩, 0, "a"⟩, none, false, false⟩] {}, some "b") := by decide
  obtain ⟨s, hs, hrun⟩ := bind_eq_some_iff.1 hrun
  obtain ⟨t, ht, heq⟩ := map_eq_some_iff.1 hrun
  obtain ⟨hworker, hrow⟩ := Prod.mk.inj heq
  have hfresh : oneEntry.Fresh := ⟨⟨_, rfl⟩, fun _ ↦ rfl⟩
  refine ⟨s, t, hs, ht, (relays_settle_rows hfresh hs ht).2 0 _ ⟨⟨_, _, rfl⟩, _, _, hworker⟩ ?_⟩
  intro row hlookup hlease
  obtain ⟨row', hlookup', hlease'⟩ := map_eq_some_iff.1 hrow
  cases hlookup.symm.trans hlookup'
  rw [hlease] at hlease'
  exact absurd hlease' (by decide)

end GoCell.Outbox
