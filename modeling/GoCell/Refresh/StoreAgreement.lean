import GoCell.Refresh.Lineage
import GoCell.Refresh.PGStore
import GoCell.Foundation.Tables

namespace GoCell.Refresh

open Foundation Kernel List Option Function RefreshRow

def RefreshRow.core (r : RefreshRow) : RefreshRow :=
  { r with parentID := none, firstUsedAt := none }

def TokenRecord.core (r : TokenRecord) : RefreshRow where
  id := r.id
  parentID := none
  sessionID := r.sessionID
  subjectID := r.subjectID
  selector := r.selector
  verifierHash := r.verifierHash
  createdAt := r.createdAt
  expiresAt := r.expiresAt
  idleExpiresAt := r.idleExpiresAt
  rotatedAt := if r.isRotated then some r.rotatedAt else none
  revokedAt := if r.isRevoked then some r.revokedAt else none
  firstUsedAt := none
  usedTimes := r.usedTimes
  authzEpochAtIssue := r.authzEpochAtIssue

/-- What both stores keep in the same way: times in whole microseconds other than the zero time,
text for the identifiers, epochs that are not negative, and random values where they are needed. -/
def Call.Regular (env : PGEnv) : Call → Prop
  | .issue sessionID subjectID epoch now _ pair =>
    0 ≤ epoch ∧ env.text sessionID = true ∧ env.text subjectID = true ∧ pgTime now = now ∧
      pair.isSome = true
  | .peek _ now => now ≠ 0 ∧ pgTime now = now
  | .rotate _ checked now _ pair =>
    checked ≠ 0 ∧ pgTime checked = checked ∧ now ≠ 0 ∧ pgTime now = now ∧ pair.isSome = true
  | .revokeSession sessionID now => env.text sessionID = true ∧ now ≠ 0 ∧ pgTime now = now
  | .revokeUser subjectID now => env.text subjectID = true ∧ now ≠ 0 ∧ pgTime now = now
  | .gc olderThan => pgTime olderThan = olderThan

instance Call.decidableRegular (env : PGEnv) : ∀ call : Call, Decidable (call.Regular env)
  | .issue .. | .peek .. | .rotate .. | .revokeSession .. | .revokeUser .. =>
    inferInstanceAs (Decidable (_ ∧ _))
  | .gc olderThan => inferInstanceAs (Decidable (pgTime olderThan = olderThan))

/-- What the constraints of the table ask of a row on its own. -/
def RefreshRow.Valid (env : PGEnv) (r : RefreshRow) : Prop :=
  env.text r.sessionID = true ∧ env.text r.subjectID = true ∧ 0 < r.authzEpochAtIssue

/-- The stores hold the same tokens, under identifiers and selectors that the calls to come do not
draw again. -/
structure Agrees (env : PGEnv) (calls : List Call) (s : Store) (t : RefreshTable) : Prop where
  rows : s.rows.map TokenRecord.core = t.map RefreshRow.core
  ids : (t.map RefreshRow.id ++ calls.filterMap Call.rowID).Nodup
  selectors : (t.map RefreshRow.selector ++ calls.filterMap Call.selector).Nodup
  valid : ∀ r ∈ t, r.Valid env
  regular : ∀ call ∈ calls, call.Regular env

variable {row : RefreshRow}

section Lookup

variable {s : Store} {t : RefreshTable}

theorem selectBySelector_of_mem (h : (t.map selector).Nodup)
    (hrow : row ∈ t) : t.selectBySelector row.selector = some row := by
  rw [RefreshTable.selectBySelector, filter_key_eq h hrow]
  rfl

theorem selectBySelector_eq_none {sel : Bytes} (h : ∀ row ∈ t, row.selector ≠ sel) :
    t.selectBySelector sel = none := by
  have hnone : t.filter (fun r ↦ r.selector = sel) = [] :=
    filter_eq_nil_iff.2 fun row hrow ↦ by simpa using h row hrow
  rw [RefreshTable.selectBySelector, hnone]
  rfl

theorem lookup_agrees (hrows : s.rows.map TokenRecord.core = t.map core)
    (hsel : (t.map selector).Nodup) (sel : Bytes) :
    s.findBySelector sel = none ∧ t.selectBySelector sel = none ∨
      ∃ r i row, s.findBySelector sel = some (r, i) ∧ t.selectBySelector sel = some row ∧
        s.rows[i]? = some r ∧ t[i]? = some row ∧ r.core = row.core := by
  have hplace : ∀ i : ℕ, s.rows[i]?.map TokenRecord.core = t[i]?.map core := by
    intro i
    rw [← getElem?_map, ← getElem?_map, hrows]
  cases hfind : s.findBySelector sel with
  | none =>
    refine .inl ⟨rfl, selectBySelector_eq_none fun row hrow heq ↦ ?_⟩
    obtain ⟨i, hi⟩ := getElem?_of_mem hrow
    have hat := hplace i
    rw [hi, map_some] at hat
    obtain ⟨r, hr, hcore⟩ := map_eq_some_iff.1 hat
    have hnot := find?_eq_none.1 hfind (r, i)
      (mem_reverse.2 (mem_zipIdx_iff_getElem?.2 hr))
    have hselector : r.selector = row.selector := congrArg selector hcore
    exact hnot (decide_eq_true (hselector.trans heq))
  | some found =>
    obtain ⟨r, i⟩ := found
    obtain ⟨hr, rfl⟩ := findBySelector_some hfind
    have hat := hplace i
    rw [hr, map_some] at hat
    obtain ⟨row, hrow, hcore⟩ := map_eq_some_iff.1 hat.symm
    have hselector : row.selector = r.selector := congrArg selector hcore
    refine .inr ⟨r, i, row, rfl, ?_, hr, hrow, hcore.symm⟩
    rw [← hselector]
    exact selectBySelector_of_mem hsel (mem_of_getElem? hrow)

end Lookup

section Validation

variable {env : PGEnv} {s : Store} {t : RefreshTable} {r : TokenRecord} {row : RefreshRow}

theorem isRevoked_of_core (h : r.core = row.core) : r.isRevoked = row.revokedAt.isSome := by
  have hrevoked : (if r.isRevoked then some r.revokedAt else none) = row.revokedAt :=
    congrArg revokedAt h
  rw [← hrevoked]
  cases r.isRevoked <;> rfl

theorem rotatedAt_of_core (h : r.core = row.core) :
    (if r.isRotated then some r.rotatedAt else none) = row.rotatedAt :=
  congrArg rotatedAt h

theorem checkBasicValidity_agrees (h : r.core = row.core) (ver : Bytes) (now : Time) :
    RefreshTable.checkBasicValidity env row ver now = false ↔
      env.sha256 ver ≠ r.verifierHash ∨ r.isRevoked = true ∨ r.expiresAt ≤ now ∨
        r.idleExpiresAt ≤ now := by
  have hhash : r.verifierHash = row.verifierHash := congrArg verifierHash h
  have hexpires : r.expiresAt = row.expiresAt := congrArg expiresAt h
  have hidle : r.idleExpiresAt = row.idleExpiresAt := congrArg idleExpiresAt h
  rw [RefreshTable.checkBasicValidity, decide_eq_false_iff_not, not_and_or, not_and_or, not_and_or,
    not_lt, not_lt, hhash, hexpires, hidle, isRevoked_of_core h, isSome_iff_ne_none]

def retried (t : RefreshTable) (row : RefreshRow) (now : Time) (mutate : Bool) : RefreshTable :=
  if mutate = true ∧ row.rotatedAt.isSome = true then
    t.updateByID row.id (RefreshRow.markGraceUsed now)
  else t

theorem markGraceUsed_of_lt (hids : (t.map RefreshRow.id).Nodup) (hrow : row ∈ t)
    (h : row.usedTimes < maxInt32) (now : Time) :
    t.markGraceUsed now row.id = some (t.updateByID row.id (RefreshRow.markGraceUsed now)) := by
  rw [RefreshTable.markGraceUsed, if_neg]
  rintro ⟨x, hx, hid, hover⟩
  obtain rfl := inj_on_of_nodup_map hids hx hrow hid
  omega

variable {calls : List Call}

theorem Agrees.ids_nodup (h : Agrees env calls s t) : (t.map RefreshRow.id).Nodup :=
  h.ids.of_append_left

theorem Agrees.selectors_nodup (h : Agrees env calls s t) : (t.map selector).Nodup :=
  h.selectors.of_append_left

theorem Agrees.validate (h : Agrees env calls s t) (hgrace : env.policy.graceMaxReuses ≤ maxInt32)
    (sel ver : Bytes) (now : Time) (mutate : Bool) :
    (s.validatePresented env.toEnv sel ver now = (s, .error .rejected) ∧
      t.validatePresented env sel ver now now mutate = (t, .error .rejected)) ∨
    (∃ r row, r.core = row.core ∧ s.validatePresented env.toEnv sel ver now =
        (s.revokeSession r.sessionID now, .error (.reused r)) ∧
      t.validatePresented env sel ver now now mutate =
        (t.revoke (.session row.sessionID) now, .error (.reused row))) ∨
    ∃ r i row, s.rows[i]? = some r ∧ t[i]? = some row ∧ r.core = row.core ∧
      s.validatePresented env.toEnv sel ver now = (s, .ok (r, i)) ∧
      t.validatePresented env sel ver now now mutate = (retried t row now mutate, .ok row) := by
  unfold Store.validatePresented RefreshTable.validatePresented
  obtain ⟨hnone, hnone'⟩ | ⟨r, i, row, hfind, hselect, hr, hrow, hcore⟩ :=
    lookup_agrees h.rows h.selectors_nodup sel
  · rw [hnone, hnone']
    exact .inl ⟨rfl, rfl⟩
  rw [hfind, hselect]
  simp only [checkBasicValidity_agrees hcore]
  split_ifs with hrejected hreused
  · exact .inl ⟨rfl, rfl⟩
  · obtain ⟨hrotated, hreused⟩ := hreused
    have hat := rotatedAt_of_core hcore
    have hused : r.usedTimes = row.usedTimes := congrArg usedTimes hcore
    rw [if_pos hrotated] at hat
    rw [hused] at hreused
    refine .inr (.inl ⟨r, row, hcore, rfl, ?_⟩)
    simp only [← hat, RefreshTable.handleRotatedRow, if_pos hreused]
  · refine .inr (.inr ⟨r, i, row, hr, hrow, hcore, rfl, ?_⟩)
    have hat := rotatedAt_of_core hcore
    have hused : r.usedTimes = row.usedTimes := congrArg usedTimes hcore
    cases hrotated : r.isRotated with
    | false =>
      rw [hrotated] at hat
      simp [← hat, retried]
    | true =>
      rw [if_pos hrotated] at hat
      have hkept : ¬(env.policy.graceMaxReuses ≤ row.usedTimes ∨
          env.policy.reuseInterval < now - r.rotatedAt) :=
        fun hover ↦ hreused ⟨hrotated, hused ▸ hover⟩
      have hlt : row.usedTimes < maxInt32 := by omega
      simp only [← hat, RefreshTable.handleRotatedRow, if_neg hkept, retried, isSome_some, and_true]
      cases mutate with
      | false => simp
      | true => simp [markGraceUsed_of_lt h.ids_nodup (mem_of_getElem? hrow) hlt]

end Validation

variable {now : Time}

section Updates

variable {env : PGEnv} {calls : List Call} {call : Call} {s s' : Store} {t t' : RefreshTable}

theorem Agrees.fresh (h : Agrees env (call :: calls) s t) {id : UUID} {selector : Bytes}
    (hid : call.rowID = some id) (hselector : call.selector = some selector) :
    id ∉ t.map RefreshRow.id ∧ selector ∉ t.map RefreshRow.selector := by
  have hids := h.ids
  have hselectors := h.selectors
  rw [filterMap_cons_some hid, nodup_append] at hids
  rw [filterMap_cons_some hselector, nodup_append] at hselectors
  exact ⟨fun hmem ↦ hids.2.2 id hmem id mem_cons_self rfl,
    fun hmem ↦ hselectors.2.2 selector hmem selector mem_cons_self rfl⟩

/-- What no update of a row changes. -/
def RefreshRow.fixed (r : RefreshRow) : UUID × Bytes × Bytes × Bytes × ℤ :=
  (r.id, r.selector, r.sessionID, r.subjectID, r.authzEpochAtIssue)

section

variable (h : Agrees env (call :: calls) s t)
  (hfixed : (t'.map RefreshRow.fixed).Sublist (t.map RefreshRow.fixed))
include hfixed

theorem sublist_of_fixed {α : Type} (f : UUID × Bytes × Bytes × Bytes × ℤ → α) :
    (t'.map fun r ↦ f r.fixed).Sublist (t.map fun r ↦ f r.fixed) := by
  have hmap := hfixed.map f
  rwa [List.map_map, List.map_map] at hmap

include h

theorem Agrees.valid_of_fixed : ∀ r ∈ t', r.Valid env := by
  intro r hr
  obtain ⟨r', hr', heq⟩ := mem_map.1 (hfixed.subset (mem_map_of_mem hr))
  simp only [fixed, Prod.mk.injEq] at heq
  rw [Valid, ← heq.2.2.1, ← heq.2.2.2.1, ← heq.2.2.2.2]
  exact h.valid r' hr'

theorem Agrees.keep (hrows : s'.rows.map TokenRecord.core = t'.map core) :
    Agrees env calls s' t' where
  rows := hrows
  ids := h.ids.sublist ((sublist_of_fixed hfixed Prod.fst).append
    ((sublist_cons_self call calls).filterMap _))
  selectors := h.selectors.sublist ((sublist_of_fixed hfixed (·.2.1)).append
    ((sublist_cons_self call calls).filterMap _))
  valid := h.valid_of_fixed hfixed
  regular c hc := h.regular c (mem_cons_of_mem call hc)

theorem Agrees.concat (hid : call.rowID = some row.id)
    (hselector : call.selector = some row.selector)
    (hrows : s'.rows.map TokenRecord.core = (t' ++ [row]).map core) (hvalid : row.Valid env) :
    Agrees env calls s' (t' ++ [row]) where
  rows := hrows
  ids := by
    have hold := h.ids
    rw [filterMap_cons_some hid] at hold
    rw [map_append, append_assoc]
    exact hold.sublist ((sublist_of_fixed hfixed Prod.fst).append (.refl _))
  selectors := by
    have hold := h.selectors
    rw [filterMap_cons_some hselector] at hold
    rw [map_append, append_assoc]
    exact hold.sublist ((sublist_of_fixed hfixed (·.2.1)).append (.refl _))
  valid := forall_mem_append.2 ⟨h.valid_of_fixed hfixed, forall_mem_singleton.2 hvalid⟩
  regular c hc := h.regular c (mem_cons_of_mem call hc)

end

theorem core_revoke (hzero : now ≠ 0) (hnow : pgTime now = now) (r : TokenRecord) :
    (r.revoke now).core = r.core.revoke now := by
  cases hr : r.isRevoked with
  | true => simp [TokenRecord.revoke, TokenRecord.core, revoke, hr]
  | false =>
    have hrevoked : TokenRecord.isRevoked { r with revokedAt := now } = true := decide_eq_true hzero
    rw [TokenRecord.revoke, hr, if_neg Bool.false_ne_true, revoke]
    simp [TokenRecord.core, hrevoked, hr, hnow, TokenRecord.isRotated]

theorem core_revoke_row (now : Time) (r : RefreshRow) :
    (r.revoke now).core = r.core.revoke now := by
  cases hr : r.revokedAt <;> simp [revoke, core, hr]

theorem covers_core (target : Target) (r : RefreshRow) :
    target.covers r.core = target.covers r := by
  cases target <;> rfl

theorem revoke_agrees (hrows : s.rows.map TokenRecord.core = t.map core)
    {target : Target} {p : TokenRecord → Bool} (hp : ∀ r, p r = target.covers r.core)
    (hzero : now ≠ 0) (hnow : pgTime now = now) :
    (s.revokeWhere p now).rows.map TokenRecord.core = (t.revoke target now).map core := by
  let f : RefreshRow → RefreshRow := fun x ↦ if target.covers x then x.revoke now else x
  calc (s.revokeWhere p now).rows.map TokenRecord.core = (s.rows.map TokenRecord.core).map f := by
        rw [Store.revokeWhere, List.map_map, List.map_map]
        refine List.map_congr_left fun r _ ↦ ?_
        simp only [comp_apply, f, hp]
        split
        · exact core_revoke hzero hnow r
        · rfl
    _ = (t.map core).map f := by rw [hrows]
    _ = (t.revoke target now).map core := by
        rw [RefreshTable.revoke, List.map_map, List.map_map]
        refine List.map_congr_left fun r _ ↦ ?_
        simp only [comp_apply, f, covers_core]
        split
        · exact (core_revoke_row now r).symm
        · rfl

theorem fixed_revoke (target : Target) (now : Time) :
    (t.revoke target now).map fixed = t.map fixed := by
  rw [RefreshTable.revoke, List.map_map]
  refine List.map_congr_left fun r _ ↦ ?_
  rw [comp_apply]
  split
  · unfold revoke
    split <;> rfl
  · rfl

theorem Agrees.revoke (h : Agrees env (call :: calls) s t) {target : Target}
    {p : TokenRecord → Bool} (hp : ∀ r, p r = target.covers r.core)
    (hzero : now ≠ 0) (hnow : pgTime now = now) :
    Agrees env calls (s.revokeWhere p now) (t.revoke target now) :=
  h.keep (by rw [fixed_revoke]) (revoke_agrees h.rows hp hzero hnow)

theorem Agrees.revokeSession (h : Agrees env (call :: calls) s t) (sessionID : Bytes)
    (hzero : now ≠ 0) (hnow : pgTime now = now) :
    Agrees env calls (s.revokeSession sessionID now) (t.revoke (.session sessionID) now) :=
  h.revoke (p := fun r ↦ r.sessionID = sessionID) (fun _ ↦ rfl) hzero hnow

theorem Agrees.revokeUser (h : Agrees env (call :: calls) s t) (subjectID : Bytes)
    (hzero : now ≠ 0) (hnow : pgTime now = now) :
    Agrees env calls (s.revokeUser subjectID now) (t.revoke (.subject subjectID) now) :=
  h.revoke (p := fun r ↦ r.subjectID = subjectID) (fun _ ↦ rfl) hzero hnow

theorem core_new (hage : (1000 : ℤ) ∣ env.policy.maxAge) (hidle : (1000 : ℤ) ∣ env.policy.maxIdle)
    (hnow : pgTime now = now) (id parentID : UUID) (parentID' : Option UUID)
    (sessionID subjectID : Bytes) (epoch : ℤ) (p : Pair) :
    (newRow env.toEnv id parentID sessionID subjectID epoch now p).core =
      (new env.toEnv id parentID' sessionID subjectID epoch now p).core := by
  simp only [newRow, new, TokenRecord.core, core, hnow, pgTime_add hnow hage, pgTime_add hnow hidle]
  rfl

def RefreshRow.advance (now : Time) (r : RefreshRow) : RefreshRow :=
  if r.rotatedAt.isSome then { r with usedTimes := r.usedTimes + 1 }
  else { r with rotatedAt := some now }

theorem core_rotatedParent (hzero : now ≠ 0) (r : TokenRecord) :
    (Store.rotatedParent r now).core = r.core.advance now := by
  simp only [TokenRecord.core, isRotated_rotatedParent hzero, if_true]
  cases hr : r.isRotated <;> simp [advance, Store.rotatedParent, hr, TokenRecord.isRevoked]

def RefreshRow.rotatedParent (checked now : Time) (r : RefreshRow) : RefreshRow :=
  if r.rotatedAt.isSome then r.markGraceUsed checked else r.markRotated now

theorem core_rotatedParent_row (hnow : pgTime now = now) (checked : Time)
    (r : RefreshRow) : (r.rotatedParent checked now).core = r.core.advance now := by
  cases hr : r.rotatedAt with
  | some =>
    simp [rotatedParent, markGraceUsed, core, advance, hr]
  | none =>
    simp [rotatedParent, markRotated, core, advance, hr, hnow]

theorem fixed_rotatedParent (checked now : Time) (r : RefreshRow) :
    (r.rotatedParent checked now).fixed = r.fixed := by
  unfold rotatedParent markRotated
  split
  · rfl
  · split <;> rfl

theorem insertRow_fresh (hid : row.id ∉ t.map RefreshRow.id)
    (hsel : row.selector ∉ t.map RefreshRow.selector) (hvalid : row.Valid env)
    (hparent : ∀ p ∈ row.parentID, p ∈ t.map RefreshRow.id) :
    t.insertRow env row = some (t ++ [row]) := by
  obtain ⟨hsession, hsubject, hepoch⟩ := hvalid
  rw [RefreshTable.insertRow, if_neg]
  rintro (h | ⟨x, hx, heq, -⟩ | h | h | h | ⟨p, hp, h⟩)
  · exact hid h
  · exact hsel (heq ▸ mem_map_of_mem hx)
  · omega
  · exact Bool.noConfusion (hsession.symm.trans h)
  · exact Bool.noConfusion (hsubject.symm.trans h)
  · exact h (hparent p hp)

theorem map_set_same {α : Type} (f : RefreshRow → α) {i : ℕ} {row row' : RefreshRow}
    (hrow : t[i]? = some row) (h : f row' = f row) : (t.set i row').map f = t.map f := by
  rw [map_set, h]
  exact set_self_of_getElem? (by rw [getElem?_map, hrow]; rfl)

theorem insertChild_retried (hids : (t.map RefreshRow.id).Nodup) {i : ℕ}
    (hrow : t[i]? = some row) {id : UUID} (hid : id ∉ t.map RefreshRow.id) {p : Pair}
    (hsel : p.selector ∉ t.map RefreshRow.selector) (hvalid : row.Valid env) (checked now : Time) :
    (retried t row checked true).insertChild env row now id p =
      some (t.set i (row.rotatedParent checked now) ++
        [.new env.toEnv id (some row.id) row.sessionID row.subjectID row.authzEpochAtIssue now
          p]) := by
  have hmem : row.id ∈ t.map RefreshRow.id := mem_map_of_mem (mem_of_getElem? hrow)
  cases hr : row.rotatedAt with
  | some =>
    have hretried : retried t row checked true = t.set i (row.markGraceUsed checked) := by
      rw [retried, if_pos ⟨rfl, by rw [hr]; rfl⟩]
      exact map_key_eq_set hids hrow _
    have hsame : ∀ {α : Type} (f : RefreshRow → α), f (row.markGraceUsed checked) = f row →
        (t.set i (row.markGraceUsed checked)).map f = t.map f := fun f hf ↦ map_set_same f hrow hf
    rw [RefreshTable.insertChild, hretried, insertRow_fresh]
    · simp [hr, RefreshRow.rotatedParent]
    · rw [hsame RefreshRow.id rfl]
      exact hid
    · rw [hsame RefreshRow.selector rfl]
      exact hsel
    · exact hvalid
    · rintro _ ⟨rfl⟩
      rw [hsame RefreshRow.id rfl]
      exact hmem
  | none =>
    have hretried : retried t row checked true = t := by
      rw [retried, if_neg]
      rintro ⟨-, h⟩
      rw [hr] at h
      cases h
    have hne : id ≠ row.id := fun heq ↦ hid (heq ▸ hmem)
    rw [RefreshTable.insertChild, hretried, insertRow_fresh]
    · have hmark : (t.map fun x ↦ if x.id = row.id then x.markRotated now else x) =
          t.set i (row.markRotated now) := map_key_eq_set hids hrow _
      simp [hr, RefreshTable.markRotated, RefreshTable.updateByID, hmark, new, hne, rotatedParent]
    · exact hid
    · exact hsel
    · exact hvalid
    · rintro _ ⟨rfl⟩
      exact hmem

end Updates

section Collection

variable {t : RefreshTable} {olderThan : Time} {stale : RefreshRow → Bool}

section

variable (hstale : RefreshRow.isStale (pgTime olderThan) = stale)
include hstale

theorem gcBatch_eq (hids : (t.map RefreshRow.id).Nodup) :
    ∃ deleted, t.gcBatch olderThan =
      ((removeFirst stale gcBatchSize t).map (orphan deleted),
        min gcBatchSize (t.countP stale)) := by
  have hkept := filter_notMem_keys hids stale gcBatchSize
  have hlength := length_removeFirst stale gcBatchSize t
  have hle := t.countP_le_length (p := stale)
  refine ⟨((t.filter stale).take gcBatchSize).map RefreshRow.id, ?_⟩
  simp only [RefreshTable.gcBatch, hstale, hkept, hlength]
  refine Prod.ext rfl ?_
  simp only
  omega

theorem gcLoop_eq {fuel : ℕ} (total : ℕ) (hids : (t.map RefreshRow.id).Nodup)
    (hfuel : t.length < fuel) :
    ∃ f : RefreshRow → RefreshRow, (∀ r, (f r).core = r.core) ∧
      RefreshTable.gcLoop olderThan fuel t total =
        ((t.filter fun r ↦ !stale r).map f, total + t.countP stale) := by
  induction fuel generalizing t total with
  | zero => omega
  | succ fuel ih =>
    obtain ⟨deleted, hbatch⟩ := gcBatch_eq hstale hids
    have hfilter := filter_not_removeFirst stale gcBatchSize t
    have hcount := countP_removeFirst stale gcBatchSize t
    have hlength := length_removeFirst stale gcBatchSize t
    have hle := t.countP_le_length (p := stale)
    rw [RefreshTable.gcLoop, hbatch]
    simp only
    split
    · next hlast =>
      -- the batch was not full: no stale row is left
      refine ⟨orphan deleted, fun r ↦ rfl, ?_⟩
      have hnone : (removeFirst stale gcBatchSize t).countP stale = 0 := by omega
      rw [countP_eq_zero] at hnone
      rw [← hfilter, filter_eq_self.2 fun r hr ↦ by simpa using hnone r hr]
      refine Prod.ext rfl ?_
      simp only
      omega
    · next hfull =>
      have hsize : 0 < gcBatchSize := by decide
      have hids' : (((removeFirst stale gcBatchSize t).map (orphan deleted)).map
        RefreshRow.id).Nodup := by
        rw [List.map_map]
        exact hids.sublist ((removeFirst_sublist _ _ t).map _)
      obtain ⟨f, hf, hloop⟩ := ih (total + min gcBatchSize (t.countP stale)) hids'
        (by rw [length_map, hlength]; omega)
      refine ⟨f ∘ orphan deleted, fun r ↦ (hf _).trans rfl, ?_⟩
      rw [hloop, List.filter_map, List.map_map, List.countP_map]
      subst hstale
      refine Prod.ext ?_ ?_
      · exact congrArg (map (f ∘ orphan deleted)) hfilter
      · change _ + countP (isStale (pgTime olderThan)) _ = _
        rw [hcount]
        simp only
        omega

end

theorem isStale_core_record (olderThan : Time) (r : TokenRecord) :
    r.core.isStale olderThan = decide (r.effectiveExpiry < olderThan) := by
  have hmin : min r.expiresAt r.idleExpiresAt = r.effectiveExpiry := by
    rw [min_comm, min_def_lt]
    rfl
  rw [← hmin]
  rfl

theorem Agrees.gc {env : PGEnv} {calls : List Call} {call : Call} {s : Store}
    (h : Agrees env (call :: calls) s t) (hwhole : pgTime olderThan = olderThan) :
    (s.gc olderThan).2 = (t.gc olderThan).2 ∧
      Agrees env calls (s.gc olderThan).1 (t.gc olderThan).1 := by
  obtain ⟨f, hf, hloop⟩ := gcLoop_eq (congrArg isStale hwhole) 0 h.ids_nodup
    (Nat.lt_succ_self t.length)
  have hkept : (s.rows.filter fun r ↦ ¬r.effectiveExpiry < olderThan).map TokenRecord.core =
      (t.filter fun r ↦ !r.isStale olderThan).map core := by
    calc _ = (s.rows.map TokenRecord.core).filter fun r ↦ !r.isStale olderThan := by
          rw [List.filter_map]
          congr 1
          refine filter_congr fun r _ ↦ ?_
          rw [Function.comp_apply, isStale_core_record, decide_not]
      _ = (t.map core).filter fun r ↦ !r.isStale olderThan := by rw [h.rows]
      _ = _ := by
          rw [List.filter_map]
          rfl
  simp only [Store.gc, RefreshTable.gc, hloop]
  have hlength := congrArg length hkept
  have hall := congrArg length h.rows
  have hsplit := t.length_eq_countP_add_countP (p := isStale olderThan)
  have hsub : (t.filter fun r ↦ !r.isStale olderThan).Sublist t := filter_sublist
  constructor
  · simp only [length_map] at hlength hall
    rw [hlength, ← countP_eq_length_filter, hall]
    congr 1
    have hnot : t.countP (fun r ↦ !r.isStale olderThan) =
        t.countP (fun r ↦ decide ¬r.isStale olderThan = true) :=
      countP_congr fun r _ ↦ by simp
    omega
  · refine h.keep ?_ ?_
    · have hfixed : fixed ∘ f = fixed := funext fun r ↦ (congrArg fixed (hf r) :)
      rw [List.map_map, hfixed]
      exact hsub.map _
    · rw [hkept, List.map_map]
      exact map_congr_left fun r _ ↦ (hf r).symm

end Collection

section Steps

variable {env : PGEnv} {calls : List Call} {s : Store} {t : RefreshTable}

structure PolicyFits (env : PGEnv) : Prop where
  maxAge : (1000 : ℤ) ∣ env.policy.maxAge
  maxIdle : (1000 : ℤ) ∣ env.policy.maxIdle
  graceMaxReuses : env.policy.graceMaxReuses ≤ maxInt32

theorem toToken_of_core {r : TokenRecord} (h : r.core = row.core) :
    r.toToken = row.toToken := congrArg toToken h

variable (hfits : PolicyFits env)
include hfits

theorem issue_agrees {sessionID subjectID : Bytes} {epoch : ℤ} {id : UUID} {pair : Option Pair}
    (h : Agrees env (.issue sessionID subjectID epoch now id pair :: calls) s t) :
    (s.issue env.toEnv sessionID subjectID epoch now id pair).2 =
        (t.issue env sessionID subjectID epoch now id pair).2 ∧
      Agrees env calls (s.issue env.toEnv sessionID subjectID epoch now id pair).1
        (t.issue env sessionID subjectID epoch now id pair).1 := by
  obtain ⟨hepoch, hsession, hsubject, hnow, hpair⟩ := h.regular _ mem_cons_self
  obtain ⟨p, rfl⟩ := isSome_iff_exists.1 hpair
  unfold Store.issue RefreshTable.issue
  split
  · exact ⟨rfl, h.keep (.refl _) h.rows⟩
  · next hne =>
    obtain ⟨hid, hsel⟩ := h.fresh rfl rfl
    have hvalid : (new env.toEnv id none sessionID subjectID epoch now p).Valid env :=
      ⟨hsession, hsubject, show 0 < epoch by omega⟩
    have hinsert := insertRow_fresh hid hsel hvalid fun _ hp ↦ absurd hp (not_mem_none _)
    simp only [hinsert]
    refine ⟨rfl, h.concat (.refl _) rfl rfl ?_ hvalid⟩
    rw [map_append, map_append, h.rows]
    congr 1
    exact congrArg (fun r ↦ [r])
      (core_new hfits.maxAge hfits.maxIdle hnow id 0 none sessionID subjectID epoch p)

theorem peek_answer (h : Agrees env calls s t) (presented : Bytes)
    (now : Time) : (s.peek env.toEnv presented now).2 = (t.peek env presented now now).2 := by
  unfold Store.peek RefreshTable.peek
  cases parseOpaque presented with
  | none => rfl
  | some token =>
    obtain ⟨hmem, hpg⟩ | ⟨r, row, hcore, hmem, hpg⟩ | ⟨r, i, row, -, -, hcore, hmem, hpg⟩ :=
      h.validate hfits.graceMaxReuses token.1 token.2 now false
    · simp only [hmem, hpg]
      rfl
    · simp only [hmem, hpg]
      exact congrArg Answer.reused (toToken_of_core hcore)
    · simp only [hmem, hpg]
      exact congrArg Answer.peeked (toToken_of_core hcore)

theorem peek_agrees {presented : Bytes} (h : Agrees env (.peek presented now :: calls) s t) :
    Agrees env calls (s.peek env.toEnv presented now).1 (t.peek env presented now now).1 := by
  obtain ⟨hzero, hnow⟩ := h.regular _ mem_cons_self
  have hkeep := h.keep (.refl _) h.rows
  unfold Store.peek RefreshTable.peek
  cases parseOpaque presented with
  | none => exact hkeep
  | some token =>
    obtain ⟨hmem, hpg⟩ | ⟨r, row, hcore, hmem, hpg⟩ | ⟨r, i, row, -, -, hcore, hmem, hpg⟩ :=
      h.validate hfits.graceMaxReuses token.1 token.2 now false
    · simp only [hmem, hpg]
      exact hkeep
    · have hsession : r.sessionID = row.sessionID := congrArg sessionID hcore
      simp only [hmem, hpg, ← hsession]
      exact h.revokeSession r.sessionID hzero hnow
    · simp only [hmem, hpg]
      exact hkeep

theorem rotate_agrees {presented : Bytes} {checked now : Time} {id : UUID}
    {pair : Option Pair} (h : Agrees env (.rotate presented checked now id pair :: calls) s t) :
    (s.rotate env.toEnv presented checked now id pair).2 =
        (t.rotate env presented checked checked now id pair).2 ∧
      Agrees env calls (s.rotate env.toEnv presented checked now id pair).1
        (t.rotate env presented checked checked now id pair).1 := by
  obtain ⟨hzeroc, hchecked, hzero, hnow, hpair⟩ := h.regular _ mem_cons_self
  obtain ⟨p, rfl⟩ := isSome_iff_exists.1 hpair
  have hkeep := h.keep (.refl _) h.rows
  unfold Store.rotate RefreshTable.rotate
  cases parseOpaque presented with
  | none => exact ⟨rfl, hkeep⟩
  | some token =>
    obtain ⟨hmem, hpg⟩ | ⟨r, row, hcore, hmem, hpg⟩ | ⟨r, i, row, hr, hrow, hcore, hmem, hpg⟩ :=
      h.validate hfits.graceMaxReuses token.1 token.2 checked true
    · simp only [hmem, hpg]
      exact ⟨rfl, hkeep⟩
    · have hsession : r.sessionID = row.sessionID := congrArg sessionID hcore
      simp only [hmem, hpg, ← hsession]
      exact ⟨congrArg Answer.reused (toToken_of_core hcore),
        h.revokeSession r.sessionID hzeroc hchecked⟩
    · obtain ⟨hid, hsel⟩ := h.fresh rfl rfl
      have hvalid := h.valid row (mem_of_getElem? hrow)
      have hinsert := insertChild_retried h.ids_nodup hrow hid hsel hvalid checked now
      have hsession : r.sessionID = row.sessionID := congrArg sessionID hcore
      have hsubject : r.subjectID = row.subjectID := congrArg subjectID hcore
      have hepoch : r.authzEpochAtIssue = row.authzEpochAtIssue :=
        congrArg authzEpochAtIssue hcore
      simp only [hmem, hpg, hinsert]
      refine ⟨?_, h.concat ?_ rfl rfl ?_ hvalid⟩
      · rw [hsession, hsubject, hepoch]
        rfl
      · rw [map_set_same _ hrow (fixed_rotatedParent checked now row)]
      · rw [map_append, map_append, map_set, map_set, h.rows,
          core_rotatedParent hzero, core_rotatedParent_row hnow, hcore]
        congr 1
        rw [hsession, hsubject, hepoch]
        exact congrArg (fun r ↦ [r]) (core_new hfits.maxAge hfits.maxIdle hnow id r.id (some row.id)
          row.sessionID row.subjectID row.authzEpochAtIssue p)

theorem Agrees.step {call : Call} (h : Agrees env (call :: calls) s t) :
    (call.run env.toEnv s).2 = (call.runPG env t).2 ∧
      Agrees env calls (call.run env.toEnv s).1 (call.runPG env t).1 := by
  cases call with
  | issue => exact issue_agrees hfits h
  | peek presented now => exact ⟨peek_answer hfits h presented now, peek_agrees hfits h⟩
  | rotate => exact rotate_agrees hfits h
  | revokeSession sessionID now =>
    obtain ⟨htext, hzero, hnow⟩ := h.regular _ mem_cons_self
    rw [Call.run, Call.runPG, RefreshTable.revokeSession, if_pos htext]
    exact ⟨rfl, h.revokeSession sessionID hzero hnow⟩
  | revokeUser subjectID now =>
    obtain ⟨htext, hzero, hnow⟩ := h.regular _ mem_cons_self
    rw [Call.run, Call.runPG, RefreshTable.revokeUser, if_pos htext]
    exact ⟨rfl, h.revokeUser subjectID hzero hnow⟩
  | gc => exact h.gc (h.regular _ mem_cons_self)

omit hfits

/-- Called with the same values, the stores give the same answers and accept the same tokens
afterwards. -/
theorem stores_agree (env : PGEnv) (hfits : PolicyFits env) {calls : List Call}
    (hregular : ∀ call ∈ calls, call.Regular env) (hids : (calls.filterMap Call.rowID).Nodup)
    (hselectors : (calls.filterMap Call.selector).Nodup) :
    answers (Call.run env.toEnv) .empty calls = answers (Call.runPG env) [] calls ∧ ∀ presented now,
        ((after (Call.run env.toEnv) .empty calls).peek env.toEnv presented now).2 =
          (RefreshTable.peek env (after (Call.runPG env) [] calls) presented now now).2 := by
  have hstart : Agrees env calls .empty [] :=
    ⟨rfl, hids, hselectors, fun r hr ↦ absurd hr not_mem_nil, hregular⟩
  obtain ⟨hanswers, hend⟩ := answers_eq_of_simulation (fun a as s t h ↦ h.step hfits) hstart
  exact ⟨hanswers, peek_answer hfits hend⟩

theorem sampleReuseInterval_nonneg : (0 : ℤ) ≤ 10000 := by decide

theorem sampleMaxIdle_pos : (0 : ℤ) < 50000 := by decide

theorem sampleMaxReuses_pos : (0 : ℤ) < 3 := by decide

def samplePGEnv (maxAge : Duration) (h : 0 < maxAge) : PGEnv where
  policy := ⟨10000, maxAge, 50000, 3, h, sampleReuseInterval_nonneg, sampleMaxIdle_pos,
    sampleMaxReuses_pos⟩
  sha256 := checksumHex
  text := fun _ ↦ true

def sampleReuse : List Call :=
  [.issue (asciiBytes "s-1") (asciiBytes "u-1") 1 1000 1 (some (samplePair 1)),
    .rotate (sampleWire 1) 2000 2000 2 (some (samplePair 2)),
    .rotate (sampleWire 1) 3000 3000 3 (some (samplePair 3)),
    .rotate (sampleWire 1) 20000 20000 4 (some (samplePair 4)),
    .rotate (sampleWire 2) 21000 21000 5 (some (samplePair 5))]

theorem stores_agree_reuse :
    (answers (Call.run (samplePGEnv 100000 (by decide)).toEnv) .empty sampleReuse).map
      Answer.accepts = [true, true, true, false, false] ∧
    answers (Call.run (samplePGEnv 100000 (by decide)).toEnv) .empty sampleReuse =
      answers (Call.runPG (samplePGEnv 100000 (by decide))) [] sampleReuse :=
  ⟨by decide +kernel,
    (stores_agree (samplePGEnv 100000 (by decide)) ⟨by decide, by decide, by decide⟩
      (by decide +kernel) (by decide) (by decide +kernel)).1⟩

def sampleLook (epoch : ℤ) (created : Time) (sessionID : Bytes) (revoked : Time) : List Call :=
  [.issue (asciiBytes "s-1") (asciiBytes "u-1") epoch created 1 (some (samplePair 1)),
    .revokeSession sessionID revoked, .peek (sampleWire 1) 2000]

def acceptedBy (env : PGEnv) (calls : List Call) : Option Bool × Option Bool :=
  ((answers (Call.run env.toEnv) .empty calls).getLast?.map Answer.accepts,
    (answers (Call.runPG env) [] calls).getLast?.map Answer.accepts)

/-- A negative epoch breaks a constraint of the table, a revocation at the zero time is lost in
memory, and a lifetime that is not in whole microseconds ends earlier in the table. -/
theorem refresh_stores_differ :
    acceptedBy (samplePGEnv 100000 (by decide)) (sampleLook (-1) 1000 (asciiBytes "s-2") 1000) =
        (some true, some false) ∧
      acceptedBy (samplePGEnv 100000 (by decide)) (sampleLook 1 0 (asciiBytes "s-1") 0) =
        (some true, some false) ∧
      acceptedBy (samplePGEnv 1500 (by decide)) (sampleLook 1 1000 (asciiBytes "s-2") 1000) =
        (some true, some false) := by
  decide +kernel

end Steps

end GoCell.Refresh
