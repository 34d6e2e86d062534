import GoCell.Refresh.PGConcurrency
import GoCell.Refresh.StoreAgreement

namespace GoCell.Refresh

open Foundation Kernel List Option

section Rows

variable {t : RefreshTable} {r : RefreshRow}

theorem mem_of_selectBySelector {sel : Bytes} (h : t.selectBySelector sel = some r) : r ∈ t := by
  have hmem := mem_of_mem_head? h
  rw [mem_insertionSort] at hmem
  exact (mem_filter.1 hmem).1

structure Later (r r' : RefreshRow) : Prop where
  id : r'.id = r.id
  sessionID : r'.sessionID = r.sessionID
  subjectID : r'.subjectID = r.subjectID
  revoked : r.revokedAt.isSome = true → r'.revokedAt.isSome = true

theorem Later.refl (r : RefreshRow) : Later r r := ⟨rfl, rfl, rfl, fun h ↦ h⟩

theorem Later.trans {a b c : RefreshRow} (h : Later a b) (h' : Later b c) : Later a c :=
  ⟨h'.id.trans h.id, h'.sessionID.trans h.sessionID, h'.subjectID.trans h.subjectID,
    fun hr ↦ h'.revoked (h.revoked hr)⟩

theorem covers_congr {r r' : RefreshRow} (hsession : r'.sessionID = r.sessionID)
    (hsubject : r'.subjectID = r.subjectID) (target : Target) :
    target.covers r' = target.covers r := by
  cases target with
  | session => rw [Target.covers, hsession, Target.covers]
  | subject => rw [Target.covers, hsubject, Target.covers]

theorem Later.covers {r r' : RefreshRow} (h : Later r r') (target : Target) :
    target.covers r' = target.covers r := covers_congr h.sessionID h.subjectID target

theorem later_apply (w : Write) (r : RefreshRow) : Later r (w.apply r) := by
  cases w with
  | graceUsed now => exact ⟨rfl, rfl, rfl, fun h ↦ h⟩
  | rotated now =>
    rw [Write.apply, RefreshRow.markRotated]
    split
    · exact ⟨rfl, rfl, rfl, fun h ↦ h⟩
    · exact .refl r
  | revoked now =>
    rw [Write.apply, RefreshRow.revoke]
    split
    · exact ⟨rfl, rfl, rfl, fun _ ↦ rfl⟩
    · exact .refl r

theorem isSome_revoke (now : Time) (r : RefreshRow) :
    ((Write.revoked now).apply r).revokedAt.isSome = true := by
  rw [Write.apply, RefreshRow.revoke]
  cases h : r.revokedAt <;> simp [h]

theorem later_writtenBy (writes : List (UUID × Write)) (r : RefreshRow) :
    Later r (writtenBy writes r) := by
  induction writes generalizing r with
  | nil => exact .refl r
  | cons w writes ih =>
    have hstep : Later r (if w.1 = r.id then w.2.apply r else r) := by
      split
      · exact later_apply w.2 r
      · exact .refl r
    exact hstep.trans (ih _)

theorem isSome_writtenBy {writes : List (UUID × Write)} {r : RefreshRow} {now : Time}
    (h : (r.id, .revoked now) ∈ writes) : (writtenBy writes r).revokedAt.isSome = true := by
  induction writes generalizing r with
  | nil => cases h
  | cons w writes ih =>
    obtain rfl | h := mem_cons.1 h
    · rw [writtenBy, foldl_cons, if_pos rfl]
      exact (later_writtenBy writes _).revoked (isSome_revoke now r)
    · refine ih ?_
      have hid : (if w.1 = r.id then w.2.apply r else r).id = r.id := by
        split
        · exact (later_apply w.2 r).id
        · rfl
      rw [hid]
      exact h

end Rows

section Statements

variable {env : PGEnv} {d : DB} {k : ℕ} {tx tx' : Tx}

def Stage.ofRevocation : Stage → Bool
  | begun | updating _ | committed | aborted => true
  | _ => false

def Stage.isUpdating : Stage → Bool
  | updating _ => true
  | _ => false

def Job.selector : Job → Option Bytes
  | rotate sel _ => some sel
  | revoke _ _ => none

def Stage.isEarly : Stage → Bool
  | begun | found _ | locked => true
  | _ => false

def Tx.Rotates (tx : Tx) : Prop := ∀ target now, tx.job = .revoke target now →
  tx.stage.ofRevocation = false

theorem Tx.Rotates.of_stage {stage : Stage} (h : tx.stage = stage)
    (hstage : stage.ofRevocation = false) : tx.Rotates := fun _ _ _ ↦ h ▸ hstage

theorem Tx.Rotates.of_job {sel ver : Bytes} (h : tx.job = .rotate sel ver) : tx.Rotates := by
  intro target now hjob
  rw [h] at hjob
  cases hjob

theorem update_same (tx : Tx) (t : RefreshTable) (id : UUID) (p : RefreshRow → Bool) (w : Write)
    (stage : Stage) :
    (tx.update t id p w stage).job = tx.job ∧ (tx.update t id p w stage).row = tx.row ∧
      (tx.update t id p w stage).inserts = tx.inserts ∧
      (tx.update t id p w stage).stage = stage := by
  unfold Tx.update
  split <;> exact ⟨rfl, rfl, rfl, rfl⟩

inductive Executed (env : PGEnv) (d : DB) (tx : Tx) : Statement → Tx → Prop
  | quiet {stmt : Statement} {tx' : Tx} : tx'.job = tx.job → tx'.row = tx.row →
      tx'.inserts = tx.inserts → tx.Rotates →
      (tx'.stage.isEarly = true → tx.stage.isEarly = true) → Executed env d tx stmt tx'
  | validated {sel ver : Bytes} {checked handled : Time} {row : RefreshRow} :
      tx.job = .rotate sel ver → tx.stage = .locked → d.table.selectBySelector sel = some row →
      RefreshTable.checkBasicValidity env row ver checked = true →
      Executed env d tx (.reread checked handled)
        { tx with stage := .validated handled, row := some row }
  | inserted {now : Time} {id : UUID} {p : Pair} {row : RefreshRow} {stage : Stage} :
      tx.row = some row → tx.Rotates → stage.isEarly = false →
      Executed env d tx (.insert now id p)
        { tx with
          stage := stage
          inserts := [.new env.toEnv id (some row.id) row.sessionID row.subjectID
            row.authzEpochAtIssue now p] }
  | snapshot {target : Target} {now : Time} : tx.job = .revoke target now → tx.stage = .begun →
      Executed env d tx .snapshot
        { tx with
          stage := .updating ((d.table.filter fun r ↦ target.covers r && r.revokedAt.isNone).map
            RefreshRow.id) }
  | updated {target : Target} {now : Time} {id : UUID} {ids : List UUID} :
      tx.job = .revoke target now → tx.stage = .updating ids →
      Executed env d tx (.update id)
        (tx.update d.table id (fun r ↦ target.covers r && r.revokedAt.isNone) (.revoked now)
          (.updating (ids.filter (· ≠ id))))

theorem executed_reread {sel ver : Bytes} (hjob : tx.job = .rotate sel ver)
    (hstage : tx.stage = .locked) (checked handled : Time) :
    Executed env d tx (.reread checked handled)
      (tx.reread env d.table sel ver checked handled) := by
  unfold Tx.reread
  split
  · exact .quiet rfl rfl rfl (.of_job hjob) nofun
  · next row hselect =>
    split
    · exact .quiet rfl rfl rfl (.of_job hjob) nofun
    · next hvalid =>
      rw [Bool.not_eq_false] at hvalid
      split
      · exact .validated hjob hstage hselect hvalid
      · split
        · exact .quiet rfl rfl rfl (.of_job hjob) nofun
        · exact .validated hjob hstage hselect hvalid

theorem executed_update {stmt : Statement} (hstage : tx.Rotates) (id : UUID)
    (p : RefreshRow → Bool) (w : Write) {stage : Stage} (hlate : stage.isEarly = false) :
    Executed env d tx stmt (tx.update d.table id p w stage) := by
  obtain ⟨hjob, hrow, hinserts, hnext⟩ := update_same tx d.table id p w stage
  refine .quiet hjob hrow hinserts hstage fun hearly ↦ ?_
  rw [hnext, hlate] at hearly
  cases hearly

theorem executed_insert {row : RefreshRow} (hrow : tx.row = some row)
    (hstage : tx.Rotates) {now : Time} {id : UUID} {p : Pair}
    (h : tx.insert env d.table row now id p = some tx') :
    Executed env d tx (.insert now id p) tx' := by
  simp only [Tx.insert] at h
  split at h
  · cases h
    refine .inserted hrow hstage ?_
    split <;> rfl
  · cases h

theorem execute_cases {stmt : Statement} (h : tx.execute env d k stmt = some tx') :
    Executed env d tx stmt tx' := by
  cases stmt with
  | select =>
    simp only [Tx.execute] at h
    split at h
    · next hjob hstage =>
      split at h
      · cases h
        exact .quiet rfl rfl rfl (.of_job hjob) nofun
      · cases h
        exact .quiet rfl rfl rfl (.of_job hjob) fun _ ↦ by rw [hstage]; rfl
    · cases h
  | lock =>
    simp only [Tx.execute] at h
    split at h
    · next hstage =>
      split at h
      · cases h
        exact .quiet rfl rfl rfl (.of_stage hstage rfl) fun _ ↦ by rw [hstage]; rfl
      · cases h
    · cases h
  | reread checked handled =>
    simp only [Tx.execute] at h
    split at h
    · next hjob hstage =>
      cases h
      exact executed_reread hjob hstage checked handled
    · cases h
  | retry | mark =>
    simp only [Tx.execute] at h
    split at h
    · next hstage hrow =>
      split at h
      · cases h
        exact executed_update (.of_stage hstage rfl) _ _ _ rfl
      · cases h
    · cases h
  | insert =>
    simp only [Tx.execute] at h
    split at h
    · next hstage hrow =>
      split at h
      · exact executed_insert hrow (.of_stage hstage rfl) h
      · cases h
    · next hstage hrow => exact executed_insert hrow (.of_stage hstage rfl) h
    · cases h
  | resume =>
    simp only [Tx.execute] at h
    split at h
    · next hstage =>
      split at h
      · cases h
        exact .quiet rfl rfl rfl (.of_stage hstage rfl) nofun
      · cases h
    · cases h
  | snapshot =>
    simp only [Tx.execute] at h
    split at h
    · next hjob hstage =>
      cases h
      exact .snapshot hjob hstage
    · cases h
  | update id =>
    simp only [Tx.execute] at h
    split at h
    · next hjob hstage =>
      split at h
      · cases h
        exact .updated hjob hstage
      · cases h
    · cases h

inductive Stepped (env : PGEnv) (d : DB) : Action → DB → Prop
  | started (job : Job) : Stepped env d (.start job) { d with txs := d.txs ++ [.new job] }
  | executed {k : ℕ} {tx tx' : Tx} {stmt : Statement} : d.txs[k]? = some tx →
      Executed env d tx stmt tx' →
      Stepped env d (.execute k stmt) { d with txs := d.txs.set k tx' }
  | cascaded {k : ℕ} {tx : Tx} {sessionID : Bytes} {handled : Time} : d.txs[k]? = some tx →
      tx.stage = .reusing sessionID handled →
      Stepped env d (.cascade k) { d with
        txs := d.txs.set k { tx with stage := .cascading d.txs.length } ++
          [.new (.revoke (.session sessionID) handled)] }
  | committed {k : ℕ} {tx : Tx} : d.txs[k]? = some tx →
      tx.stage = .answered ∨ tx.stage = .updating [] →
      Stepped env d (.commit k) ⟨tx.flush d.table, d.txs.set k (tx.finish .committed)⟩
  | aborted {k : ℕ} {tx : Tx} : d.txs[k]? = some tx →
      Stepped env d (.abort k) { d with txs := d.txs.set k (tx.finish .aborted) }

theorem step_cases {a : Action} {d' : DB} (h : d.step env a = some d') : Stepped env d a d' := by
  cases a with
  | start job =>
    cases h
    exact .started job
  | execute =>
    obtain ⟨tx, htx, h⟩ := bind_eq_some_iff.1 h
    obtain ⟨tx', htx', h⟩ := bind_eq_some_iff.1 h
    cases h
    exact .executed htx (execute_cases htx')
  | cascade k =>
    obtain ⟨tx, htx, h⟩ := bind_eq_some_iff.1 h
    split at h
    · next hstage =>
      cases h
      exact .cascaded htx hstage
    · cases h
  | commit k =>
    obtain ⟨tx, htx, h⟩ := bind_eq_some_iff.1 h
    split at h
    · next hstage =>
      cases h
      exact .committed htx hstage
    · cases h
  | abort k =>
    obtain ⟨tx, htx, h⟩ := bind_eq_some_iff.1 h
    split at h
    · cases h
    · cases h
      exact .aborted htx

inductive Moved (env : PGEnv) (d : DB) (j : ℕ) (tx : Tx) : Action → Tx → Prop
  | executed {stmt : Statement} {tx' : Tx} : Executed env d tx stmt tx' →
      Moved env d j tx (.execute j stmt) tx'
  | cascaded {sessionID : Bytes} {handled : Time} (n : ℕ) : tx.stage = .reusing sessionID handled →
      Moved env d j tx (.cascade j) { tx with stage := .cascading n }
  | committed : tx.stage = .answered ∨ tx.stage = .updating [] →
      Moved env d j tx (.commit j) (tx.finish .committed)
  | aborted : Moved env d j tx (.abort j) (tx.finish .aborted)

theorem Stepped.origin {a : Action} {d' : DB} (h : Stepped env d a d') {j : ℕ} {tx' : Tx}
    (htx' : d'.txs[j]? = some tx') :
    d.txs[j]? = some tx' ∨ (∃ job, tx' = .new job) ∨
      ∃ tx, d.txs[j]? = some tx ∧ Moved env d j tx a tx' := by
  cases h with
  | started job =>
    obtain hold | ⟨-, rfl⟩ := getElem?_concat_cases htx'
    · exact .inl hold
    · exact .inr (.inl ⟨job, rfl⟩)
  | executed htx hexec =>
    obtain ⟨rfl, rfl⟩ | ⟨-, hold⟩ := getElem?_set_cases htx'
    · exact .inr (.inr ⟨_, htx, .executed hexec⟩)
    · exact .inl hold
  | cascaded htx hstage =>
    obtain hset | ⟨-, rfl⟩ := getElem?_concat_cases htx'
    · obtain ⟨rfl, rfl⟩ | ⟨-, hold⟩ := getElem?_set_cases hset
      · exact .inr (.inr ⟨_, htx, .cascaded _ hstage⟩)
      · exact .inl hold
    · exact .inr (.inl ⟨_, rfl⟩)
  | committed htx hstage =>
    obtain ⟨rfl, rfl⟩ | ⟨-, hold⟩ := getElem?_set_cases htx'
    · exact .inr (.inr ⟨_, htx, .committed hstage⟩)
    · exact .inl hold
  | aborted htx =>
    obtain ⟨rfl, rfl⟩ | ⟨-, hold⟩ := getElem?_set_cases htx'
    · exact .inr (.inr ⟨_, htx, .aborted⟩)
    · exact .inl hold

theorem Stepped.row {a : Action} {d' : DB} (h : Stepped env d a d') {r' : RefreshRow}
    (hr' : r' ∈ d'.table) :
    (∃ r ∈ d.table, Later r r') ∨ ∃ tx ∈ d.txs, r' ∈ tx.inserts := by
  cases h with
  | started | executed | cascaded | aborted => exact .inl ⟨r', hr', .refl r'⟩
  | @committed k tx htx hstage =>
    obtain hold | hnew := mem_append.1 hr'
    · obtain ⟨r, hr, rfl⟩ := mem_map.1 hold
      exact .inl ⟨r, hr, later_writtenBy tx.writes r⟩
    · exact .inr ⟨tx, mem_of_getElem? htx, hnew⟩

end Statements

section Invariants

variable {env : PGEnv} {d d' : DB} {a : Action} {target : Target} {k : ℕ}

/-- No rotation is under way for a row that the revocation is about: none is between its second read
and its end. -/
def Idle (target : Target) (d : DB) : Prop :=
  ∀ tx ∈ d.txs, ∀ row ∈ tx.row, target.covers row = false

instance Idle.decidable (target : Target) (d : DB) : Decidable (Idle target d) :=
  inferInstanceAs (Decidable (∀ tx ∈ d.txs, ∀ row ∈ tx.row, target.covers row = false))

def AllRevoked (target : Target) (d : DB) : Prop :=
  ∀ r ∈ d.table, target.covers r = true → r.revokedAt.isSome = true

/-- A child belongs to the session and the subject of the row that was validated for it, a
transaction inserts nothing before its second read, and a revocation is at one of its own stages. -/
structure Orderly (tx : Tx) : Prop where
  inherits : ∀ c ∈ tx.inserts,
    ∃ row, tx.row = some row ∧ c.sessionID = row.sessionID ∧ c.subjectID = row.subjectID
  early : tx.stage.isEarly = true → tx.inserts = []
  kinds : ∀ target now, tx.job = .revoke target now → tx.stage.ofRevocation = true

theorem Orderly.not_revoke {tx : Tx} {now : Time} (h : Orderly tx) (hrotates : tx.Rotates) :
    tx.job ≠ .revoke target now := by
  intro hjob
  cases (hrotates target now hjob).symm.trans (h.kinds target now hjob)

theorem Orderly.moved {j : ℕ} {tx tx' : Tx} (h : Orderly tx) (hmoved : Moved env d j tx a tx') :
    Orderly tx' := by
  cases hmoved with
  | executed hexec =>
    cases hexec with
    | quiet hjob hrow hinserts hrotates hearly =>
      refine ⟨?_, fun hstage ↦ ?_, fun target now hrevoke ↦ ?_⟩
      · rw [hrow, hinserts]
        exact h.inherits
      · rw [hinserts]
        exact h.early (hearly hstage)
      · rw [hjob] at hrevoke
        exact absurd hrevoke (h.not_revoke hrotates)
    | validated hjob hstage =>
      refine ⟨fun c hc ↦ ?_, nofun, fun target now hrevoke ↦ ?_⟩
      · rw [h.early (by rw [hstage]; rfl)] at hc
        cases hc
      · cases hjob.symm.trans hrevoke
    | inserted hrow hrotates hlate =>
      refine ⟨fun c hc ↦ ?_, fun hstage ↦ ?_, fun target now hrevoke ↦ ?_⟩
      · obtain rfl := mem_singleton.1 hc
        exact ⟨_, hrow, rfl, rfl⟩
      · cases hlate.symm.trans hstage
      · exact absurd hrevoke (h.not_revoke hrotates)
    | snapshot => exact ⟨h.inherits, nofun, fun _ _ _ ↦ rfl⟩
    | @updated target now id ids hjob hstage =>
      obtain ⟨-, hrow, hinserts, hnext⟩ := update_same tx d.table id
        (fun r ↦ target.covers r && r.revokedAt.isNone) (.revoked now)
        (.updating (ids.filter (· ≠ id)))
      refine ⟨?_, fun hearly ↦ ?_, fun _ _ _ ↦ ?_⟩
      · rw [hrow, hinserts]
        exact h.inherits
      · rw [hnext] at hearly
        cases hearly
      · rw [hnext]
        rfl
  | cascaded n hstage =>
    refine ⟨h.inherits, nofun, fun target now hrevoke ↦ ?_⟩
    have hkind := h.kinds target now hrevoke
    rw [hstage] at hkind
    cases hkind
  | committed | aborted =>
    exact ⟨fun c hc ↦ absurd hc not_mem_nil, nofun, fun _ _ _ ↦ rfl⟩

theorem orderly_new (job : Job) : Orderly (.new job) :=
  ⟨fun _ hc ↦ absurd hc not_mem_nil, fun _ ↦ rfl, fun _ _ _ ↦ rfl⟩

def AllOrderly (d : DB) : Prop := ∀ (j : ℕ) tx, d.txs[j]? = some tx → Orderly tx

theorem AllOrderly.step (h : AllOrderly d) (hstep : Stepped env d a d') : AllOrderly d' := by
  intro j tx' htx'
  obtain hold | ⟨job, rfl⟩ | ⟨tx, htx, hmoved⟩ := hstep.origin htx'
  · exact h j tx' hold
  · exact orderly_new job
  · exact (h j tx htx).moved hmoved

theorem Idle.step (h : Idle target d) (hstep : Stepped env d a d')
    (hread : ∀ (j : ℕ) checked handled tx sel ver row, a = .execute j (.reread checked handled) →
      d.txs[j]? = some tx → tx.job = .rotate sel ver → d.table.selectBySelector sel = some row →
      RefreshTable.checkBasicValidity env row ver checked = true → target.covers row = false) :
    Idle target d' := by
  intro tx' hmem row hrow
  obtain ⟨j, htx'⟩ := getElem?_of_mem hmem
  obtain hold | ⟨job, rfl⟩ | ⟨tx, htx, hmoved⟩ := hstep.origin htx'
  · exact h tx' (mem_of_getElem? hold) row hrow
  · cases hrow
  · cases hmoved with
    | executed hexec =>
      cases hexec with
      | quiet _ hsame =>
        rw [hsame] at hrow
        exact h tx (mem_of_getElem? htx) row hrow
      | @validated sel ver checked handled read hjob _ hselect hvalid =>
        cases hrow
        exact hread j checked handled tx sel ver _ rfl htx hjob hselect hvalid
      | inserted | snapshot => exact h tx (mem_of_getElem? htx) row hrow
      | updated =>
        rw [(update_same tx d.table _ _ _ _).2.1] at hrow
        exact h tx (mem_of_getElem? htx) row hrow
    | cascaded => exact h tx (mem_of_getElem? htx) row hrow
    | committed | aborted => cases hrow

theorem Idle.covered (h : Idle target d) (horderly : AllOrderly d) (hstep : Stepped env d a d')
    {r' : RefreshRow} (hr' : r' ∈ d'.table) (hcovers : target.covers r' = true) :
    ∃ r ∈ d.table, Later r r' ∧ target.covers r = true := by
  obtain ⟨r, hr, hlater⟩ | ⟨tx, htx, hinsert⟩ := hstep.row hr'
  · exact ⟨r, hr, hlater, (hlater.covers target).symm.trans hcovers⟩
  · obtain ⟨j, hj⟩ := getElem?_of_mem htx
    obtain ⟨row, hrow, hsession, hsubject⟩ := (horderly j tx hj).inherits r' hinsert
    rw [covers_congr hsession hsubject, h tx htx row hrow] at hcovers
    cases hcovers

structure Sealed (target : Target) (d : DB) : Prop where
  idle : Idle target d
  revoked : AllRevoked target d

theorem checkBasicValidity_revoked {r : RefreshRow} (h : r.revokedAt.isSome = true) (ver : Bytes)
    (now : Time) : RefreshTable.checkBasicValidity env r ver now = false := by
  rw [RefreshTable.checkBasicValidity, decide_eq_false_iff_not]
  rintro ⟨-, hnone, -⟩
  rw [hnone] at h
  cases h

theorem Sealed.step (h : Sealed target d) (horderly : AllOrderly d) (hstep : Stepped env d a d') :
    Sealed target d' := by
  constructor
  · refine h.idle.step hstep fun j checked handled tx sel ver row _ _ _ hselect hvalid ↦ ?_
    -- the row is revoked, so its token is not valid
    by_contra hcovers
    rw [Bool.not_eq_false] at hcovers
    have hrevoked := h.revoked row (mem_of_selectBySelector hselect) hcovers
    cases (checkBasicValidity_revoked hrevoked ver checked).symm.trans hvalid
  · intro r' hr' hcovers
    obtain ⟨r, hr, hlater, hold⟩ := h.idle.covered horderly hstep hr' hcovers
    exact hlater.revoked (h.revoked r hr hold)

/-- The statement of the revocation `k` starts while no rotation of its rows is under way, and until
the revocation commits none reads one of them for the second time. -/
def Apart (k : ℕ) (target : Target) (d : DB) : Action → Prop
  | .execute j .snapshot => j = k → Idle target d
  | .execute j (.reread _ _) => (∃ tx ∈ d.txs[k]?, tx.stage.isUpdating = true) →
      ∀ tx ∈ d.txs[j]?, ∀ sel ∈ tx.job.selector, ∀ row ∈ d.table.selectBySelector sel,
        target.covers row = false
  | _ => True

instance Apart.decidable (k : ℕ) (target : Target) (d : DB) :
    ∀ a, Decidable (Apart k target d a)
  | .execute j .snapshot => inferInstanceAs (Decidable (j = k → Idle target d))
  | .execute j (.reread _ _) => inferInstanceAs (Decidable
      ((∃ tx ∈ d.txs[k]?, tx.stage.isUpdating = true) →
        ∀ tx ∈ d.txs[j]?, ∀ sel ∈ tx.job.selector, ∀ row ∈ d.table.selectBySelector sel,
          target.covers row = false))
  | .start _ | .cascade _ | .commit _ | .abort _ | .execute _ .select | .execute _ .lock
  | .execute _ .retry | .execute _ (.insert ..) | .execute _ .mark | .execute _ .resume
  | .execute _ (.update _) => inferInstanceAs (Decidable True)

def Handled (target : Target) (d : DB) (tx : Tx) (ids : List UUID) : Prop :=
  ∀ r ∈ d.table, target.covers r = true →
    r.revokedAt.isSome = true ∨ r.id ∈ ids ∨ ∃ now, (r.id, .revoked now) ∈ tx.writes

structure Race (k : ℕ) (target : Target) (d : DB) : Prop where
  orderly : AllOrderly d
  updating : ∀ tx now ids, d.txs[k]? = some tx → tx.job = .revoke target now →
    tx.stage = .updating ids → Idle target d ∧ Handled target d tx ids
  committed : ∀ tx now, d.txs[k]? = some tx → tx.job = .revoke target now →
    tx.stage = .committed → Sealed target d

theorem Handled.step {tx : Tx} {ids : List UUID} (h : Handled target d tx ids)
    (hidle : Idle target d) (horderly : AllOrderly d) (hstep : Stepped env d a d') :
    Handled target d' tx ids := by
  intro r' hr' hcovers
  obtain ⟨r, hr, hlater, hold⟩ := hidle.covered horderly hstep hr' hcovers
  rw [hlater.id]
  exact (h r hr hold).imp_left hlater.revoked

theorem handled_snapshot (target : Target) (d : DB) (tx : Tx) :
    Handled target d tx ((d.table.filter fun r ↦ target.covers r && r.revokedAt.isNone).map
      RefreshRow.id) := by
  intro r hr hcovers
  cases hrevoked : r.revokedAt with
  | some now => exact .inl rfl
  | none =>
    refine .inr (.inl (mem_map_of_mem (mem_filter.2 ⟨hr, ?_⟩)))
    rw [hcovers, hrevoked]
    rfl

theorem Handled.update {tx : Tx} {ids : List UUID} (h : Handled target d tx ids) (id : UUID)
    (now : Time) (stage : Stage) :
    Handled target d (tx.update d.table id (fun r ↦ target.covers r && r.revokedAt.isNone)
      (.revoked now) stage) (ids.filter (· ≠ id)) := by
  intro r hr hcovers
  unfold Tx.update
  obtain hrevoked | hwaits | ⟨now', hwritten⟩ := h r hr hcovers
  · exact .inl hrevoked
  · by_cases hid : r.id = id
    · split
      · exact .inr (.inr ⟨now, mem_append_right _ (mem_singleton.2 (by rw [hid]))⟩)
      · next hnone =>
        -- the condition fails on the committed row: it is revoked already
        refine .inl ?_
        by_contra hlive
        refine hnone (any_eq_true.2 ⟨r, hr, decide_eq_true ⟨hid, ?_⟩⟩)
        simp only [hcovers, not_isSome_iff_eq_none.1 hlive, isNone_none, Bool.and_self]
    · exact .inr (.inl (mem_filter.2 ⟨hwaits, decide_eq_true hid⟩))
  · split
    · exact .inr (.inr ⟨now', mem_append_left _ hwritten⟩)
    · exact .inr (.inr ⟨now', hwritten⟩)

theorem Race.step_updating (h : Race k target d) (hstep : Stepped env d a d')
    (hapart : Apart k target d a) {tx' : Tx} {now : Time} {ids : List UUID}
    (htx' : d'.txs[k]? = some tx') (hjob : tx'.job = .revoke target now)
    (hstage : tx'.stage = .updating ids) : Idle target d' ∧ Handled target d' tx' ids := by
  obtain hold | ⟨job, rfl⟩ | ⟨tx, htx, hmoved⟩ := hstep.origin htx'
  · obtain ⟨hidle, hhandled⟩ := h.updating tx' now ids hold hjob hstage
    refine ⟨hidle.step hstep ?_, hhandled.step hidle h.orderly hstep⟩
    rintro j checked handled tx sel ver row rfl htx hrotate hselect -
    exact hapart ⟨tx', hold, by rw [hstage]; rfl⟩ tx htx sel (by rw [hrotate]; rfl) row hselect
  · cases hstage
  · cases hmoved with
    | executed hexec =>
      cases hexec with
      | quiet hsame _ _ hrotates =>
        rw [hsame] at hjob
        exact absurd hjob ((h.orderly k tx htx).not_revoke hrotates)
      | validated => cases hstage
      | inserted _ hrotates =>
        exact absurd hjob ((h.orderly k tx htx).not_revoke hrotates)
      | @snapshot target' now' hjob' =>
        obtain ⟨rfl, -⟩ := Job.revoke.inj (hjob'.symm.trans hjob)
        obtain rfl := Stage.updating.inj hstage
        have hidle : Idle target' d := hapart rfl
        refine ⟨hidle.step hstep ?_, (handled_snapshot target' d _).step hidle h.orderly hstep⟩
        rintro j checked handled tx sel ver row heq
        cases heq
      | @updated target' now' id ids' hjob' hstage' =>
        obtain ⟨hsame, -, -, hnext⟩ := update_same tx d.table id
          (fun r ↦ target'.covers r && r.revokedAt.isNone) (.revoked now')
          (.updating (ids'.filter (· ≠ id)))
        rw [hsame] at hjob
        obtain ⟨rfl, -⟩ := Job.revoke.inj (hjob'.symm.trans hjob)
        obtain rfl := Stage.updating.inj (hnext.symm.trans hstage)
        obtain ⟨hidle, hhandled⟩ := h.updating tx now' ids' htx hjob' hstage'
        refine ⟨hidle.step hstep ?_, (hhandled.update id now' _).step hidle h.orderly hstep⟩
        rintro j checked handled tx sel ver row heq
        cases heq
    | cascaded | committed | aborted => cases hstage

theorem Handled.commit {tx : Tx} (h : Handled target d tx []) (hidle : Idle target d)
    (horderly : AllOrderly d) (htx : d.txs[k]? = some tx) (txs : List Tx) :
    AllRevoked target ⟨tx.flush d.table, txs⟩ := by
  intro r' hr' hcovers
  obtain hold | hinsert := mem_append.1 hr'
  · obtain ⟨r, hr, rfl⟩ := mem_map.1 hold
    have hlater := later_writtenBy tx.writes r
    obtain hrevoked | hwaits | ⟨now, hwritten⟩ := h r hr ((hlater.covers target).symm.trans hcovers)
    · exact hlater.revoked hrevoked
    · cases hwaits
    · exact isSome_writtenBy hwritten
  · obtain ⟨row, hrow, hsession, hsubject⟩ := (horderly k tx htx).inherits r' hinsert
    rw [covers_congr hsession hsubject, hidle tx (mem_of_getElem? htx) row hrow] at hcovers
    cases hcovers

theorem Race.step_committed (h : Race k target d) (hstep : Stepped env d a d') {tx' : Tx}
    {now : Time} (htx' : d'.txs[k]? = some tx') (hjob : tx'.job = .revoke target now)
    (hstage : tx'.stage = .committed) : Sealed target d' := by
  obtain hold | ⟨job, rfl⟩ | ⟨tx, htx, hmoved⟩ := hstep.origin htx'
  · exact (h.committed tx' now hold hjob hstage).step h.orderly hstep
  · cases hstage
  · cases hmoved with
    | executed hexec =>
      cases hexec with
      | quiet hsame _ _ hrotates =>
        rw [hsame] at hjob
        exact absurd hjob ((h.orderly k tx htx).not_revoke hrotates)
      | inserted _ hrotates =>
        exact absurd hjob ((h.orderly k tx htx).not_revoke hrotates)
      | validated | snapshot => cases hstage
      | updated => cases (update_same tx d.table _ _ _ _).2.2.2.symm.trans hstage
    | cascaded | aborted => cases hstage
    | committed hlast =>
      obtain hlast | hlast := hlast
      · have hkind := (h.orderly k tx htx).kinds target now hjob
        rw [hlast] at hkind
        cases hkind
      · obtain ⟨hidle, hhandled⟩ := h.updating tx now [] htx hjob hlast
        refine ⟨hidle.step hstep ?_, ?_⟩
        · rintro j checked handled tx sel ver row heq
          cases heq
        · cases hstep with
          | committed hat =>
            cases htx.symm.trans hat
            exact hhandled.commit hidle h.orderly htx _

theorem Race.step (h : Race k target d) (hstep : Stepped env d a d') (hapart : Apart k target d a) :
    Race k target d' where
  orderly := h.orderly.step hstep
  updating _ _ _ htx hjob hstage := h.step_updating hstep hapart htx hjob hstage
  committed _ _ htx hjob hstage := h.step_committed hstep htx hjob hstage

theorem race_start (k : ℕ) (target : Target) (t : RefreshTable) : Race k target ⟨t, []⟩ where
  orderly _ _ htx := by cases htx
  updating _ _ _ htx := by cases htx
  committed _ _ htx := by cases htx

/-- A revocation that keeps apart from the rotations of its rows leaves none of them valid, at its
commit and for ever. -/
theorem revocation_complete (env : PGEnv) {t : RefreshTable} {actions : List Action} {d : DB}
    (hrun : exec (DB.step env) ⟨t, []⟩ actions = some d) {k : ℕ} {target : Target}
    (hapart : Along (DB.step env) ⟨t, []⟩ actions (Apart k target)) {tx : Tx} {now : Time}
    (htx : d.txs[k]? = some tx) (hjob : tx.job = .revoke target now)
    (hcommitted : tx.stage = .committed) {later : List Action} {d' : DB}
    (hlater : exec (DB.step env) d later = some d') :
    ∀ r ∈ d'.table, target.covers r = true → r.revokedAt.isSome = true ∧
      ∀ ver checked, RefreshTable.checkBasicValidity env r ver checked = false := by
  have hrace : Race k target d :=
    exec_invariant_along (Race k target) (fun s a u h hC hstep ↦ h.step (step_cases hstep) hC)
      actions _ d (race_start k target t) hapart hrun
  have hsealed : Sealed target d := hrace.committed tx now htx hjob hcommitted
  have hend : AllOrderly d' ∧ Sealed target d' :=
    exec_invariant (fun u ↦ AllOrderly u ∧ Sealed target u)
      (fun s a u h hstep ↦ ⟨h.1.step (step_cases hstep), h.2.step h.1 (step_cases hstep)⟩)
      later d d' ⟨hrace.orderly, hsealed⟩ hlater
  intro r hr hcovers
  have hrevoked := hend.2.revoked r hr hcovers
  exact ⟨hrevoked, checkBasicValidity_revoked hrevoked⟩

end Invariants

section Runs

def racingEnv : PGEnv := samplePGEnv 100000 (by decide)

def racingTable : RefreshTable :=
  [.new racingEnv.toEnv 1 none (asciiBytes "s-1") (asciiBytes "u-1") 1 1000 (samplePair 1)]

def racingRotation (b : UInt8) : Job := .rotate (samplePair b).selector (samplePair b).verifier

def rotationUpTo (k : ℕ) (now : Time) (id : UUID) (p : Pair) : List Action :=
  [.execute k .select, .execute k .lock, .execute k (.reread now now),
    .execute k (.insert now id p)]

def revocationRun (k : ℕ) : List Action :=
  [.execute k .snapshot, .execute k (.update 1), .commit k]

def racingRun (target : Target) : List Action :=
  .start (racingRotation 1) :: rotationUpTo 0 1000 2 (samplePair 2) ++
    .start (.revoke target 1000) :: revocationRun 1 ++ [.execute 0 .mark, .commit 0]

def apartRun (target : Target) : List Action :=
  .start (.revoke target 1000) :: revocationRun 0 ++
    [.start (racingRotation 1), .execute 1 .select, .execute 1 .lock,
      .execute 1 (.reread 1000 1000), .commit 1]

theorem revocation_complete_apart :
    ((exec (DB.step racingEnv) ⟨racingTable, []⟩ (apartRun (.session (asciiBytes "s-1")))).map
      fun d ↦ d.table.map fun r ↦ r.revokedAt.isSome) = some [true] ∧
    ∀ d ∈ exec (DB.step racingEnv) ⟨racingTable, []⟩ (apartRun (.session (asciiBytes "s-1"))),
      ∀ r ∈ d.table, Target.covers (.session (asciiBytes "s-1")) r = true →
        r.revokedAt.isSome = true := by
  refine ⟨by decide +kernel, fun d hd r hr hcovers ↦ ?_⟩
  have hdone : d.txs[0]? = some ⟨.revoke (.session (asciiBytes "s-1")) 1000, .committed, none, none,
      [], []⟩ := by
    have htxs : (exec (DB.step racingEnv) ⟨racingTable, []⟩
        (apartRun (.session (asciiBytes "s-1")))).bind (fun d ↦ d.txs[0]?) =
          some ⟨.revoke (.session (asciiBytes "s-1")) 1000, .committed, none, none, [], []⟩ := by
      decide +kernel
    rw [mem_def.1 hd] at htxs
    exact htxs
  exact (revocation_complete racingEnv hd (by decide +kernel) hdone rfl rfl
    (exec_nil _ d) r hr hcovers).1

/-- A child that is inserted before the statement of the revocation and committed after it survives,
and its token is accepted. -/
theorem revocation_misses_child :
    [Target.session (asciiBytes "s-1"), .subject (asciiBytes "u-1")].all fun target ↦
      ((exec (DB.step racingEnv) ⟨racingTable, []⟩ (racingRun target)).map fun d ↦
          (d.txs.map Tx.stage, d.table.map fun r ↦ (r.id, target.covers r, r.revokedAt.isSome))) =
        some ([.committed, .committed], [(1, true, true), (2, true, false)]) ∧
      ((exec (DB.step racingEnv) ⟨racingTable, []⟩ (racingRun target ++
          [.start (racingRotation 2), .execute 2 .select, .execute 2 .lock,
            .execute 2 (.reread 1000 1000)])).map fun d ↦ d.txs.map Tx.stage) =
        some [.committed, .committed, .validated 1000] := by
  decide +kernel

end Runs

end GoCell.Refresh
