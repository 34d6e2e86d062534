import GoCell.Foundation.Runs
import GoCell.Reconcile.Leases
import Mathlib.Data.List.Pairwise

namespace GoCell.Reconcile

open Foundation Kernel List Option Function

section Statements

structure LeaseRow where
  holderID : String
  epoch : ℤ
  acquiredAt : Time
  expiresAt : Time
  deriving DecidableEq

abbrev LeaseTable := String → Option LeaseRow

def bigintMax : ℤ := 2 ^ 63 - 1

def LeaseRow.nextEpoch (row : LeaseRow) (now : Time) (holderID : String) : ℤ :=
  if row.holderID = holderID ∧ now < row.expiresAt then row.epoch else row.epoch + 1

variable (table : LeaseTable) (now : Time) (reconcilerID holderID : String)

/-- `pgReconcileAcquireSQL`: the row of `RETURNING`, if the statement touched one. It fails where
the epoch leaves its column. -/
def pgReconcileAcquire (ms : ℤ) : LeaseTable × Except Err (Option LeaseRow) :=
  match table reconcilerID with
  | none =>
    let row := ⟨holderID, 1, now, now + ms * 1000000⟩
    (Function.update table reconcilerID (some row), .ok (some row))
  | some row =>
    if row.expiresAt < now ∨ row.holderID = holderID then
      if row.nextEpoch now holderID ≤ bigintMax then
        let row := ⟨holderID, row.nextEpoch now holderID, now, now + ms * 1000000⟩
        (Function.update table reconcilerID (some row), .ok (some row))
      else (table, .error ⟨.internal, .adapterPGQuery, "bigint out of range", []⟩)
    else (table, .ok none)

/-- `pgReconcileRenewSQL`, with the number of rows that it touched. -/
def pgReconcileRenew (ms : ℤ) : LeaseTable × ℕ :=
  match table reconcilerID with
  | some row =>
    if row.holderID = holderID ∧ now < row.expiresAt then
      (Function.update table reconcilerID (some { row with expiresAt := now + ms * 1000000 }), 1)
    else (table, 0)
  | none => (table, 0)

def pgReconcileRelease : LeaseTable :=
  match table reconcilerID with
  | some row =>
    if row.holderID = holderID then
      Function.update table reconcilerID (some { row with expiresAt := now - 1000000000 })
    else table
  | none => table

def epochToUint64 (e : ℤ) : ℕ := if e < 0 then 0 else e.toNat

end Statements

section Methods

variable (e : Elector) (table : LeaseTable) (now : Time)

def leaseToken (reconcilerID holderID : String) (epoch : ℕ) (acquiredAt expiresAt : Time) :
    LeaseToken :=
  ⟨reconcilerID, holderID, epoch, acquiredAt, expiresAt⟩

def errPGAcquire : Err := ⟨.internal, .adapterPGQuery, "postgres reconcile elector: acquire", []⟩

def Elector.acquireLease (reconcilerID : String) : LeaseTable × Except Err LeaseToken :=
  match pgReconcileAcquire table now reconcilerID e.holderID e.lease.ms with
  | (table, .ok (some row)) =>
    (table, .ok (leaseToken reconcilerID e.holderID (epochToUint64 row.epoch) row.acquiredAt
      row.expiresAt))
  | (table, .ok none) => (table, .error errLeaseHeld)
  | (table, .error _) => (table, .error errPGAcquire)

def Elector.renewLease (token : LeaseToken) : LeaseTable × Except Err Unit :=
  match pgReconcileRenew table now token.reconcilerID e.holderID e.lease.ms with
  | (table, 0) => (table, .error errReconcileLeaseLost)
  | (table, _) => (table, .ok ())

def Elector.releaseLease (token : LeaseToken) : LeaseTable :=
  pgReconcileRelease table now token.reconcilerID e.holderID

end Methods

section Specifications

variable {e : Elector} {table table' : LeaseTable} {now : Time} {reconcilerID : String}
  {token : LeaseToken}

structure LeaseRow.Le (old row : LeaseRow) : Prop where
  epoch : old.epoch ≤ row.epoch
  holder : old.holderID ≠ row.holderID → old.epoch < row.epoch

theorem LeaseRow.Le.refl (row : LeaseRow) : row.Le row := ⟨le_rfl, fun h ↦ absurd rfl h⟩

theorem LeaseRow.Le.trans {a b c : LeaseRow} (hab : a.Le b) (hbc : b.Le c) : a.Le c := by
  refine ⟨hab.epoch.trans hbc.epoch, fun hne ↦ ?_⟩
  by_cases heq : a.holderID = b.holderID
  · exact hab.epoch.trans_lt (hbc.holder (heq ▸ hne))
  · exact (hab.holder heq).trans_le hbc.epoch

theorem LeaseRow.nextEpoch_le (old : LeaseRow) {now acquiredAt expiresAt : Time}
    {holderID : String} :
    old.Le ⟨holderID, old.nextEpoch now holderID, acquiredAt, expiresAt⟩ := by
  constructor
  · change old.epoch ≤ old.nextEpoch now holderID
    unfold nextEpoch
    split
    · exact le_rfl
    · exact Int.le_add_one le_rfl
  · intro hne
    change old.epoch < old.nextEpoch now holderID
    rw [nextEpoch, if_neg fun h ↦ hne h.1]
    exact Int.lt_add_one_of_le le_rfl

structure Acquired (e : Elector) (table : LeaseTable) (now : Time) (reconcilerID : String)
    (row : LeaseRow) : Prop where
  holder : row.holderID = e.holderID
  window : row.expiresAt = now + e.lease.duration
  first : table reconcilerID = none → row.epoch = 1
  le : ∀ old ∈ table reconcilerID, old.Le row
  free : ∀ old ∈ table reconcilerID, old.expiresAt < now ∨ old.holderID = e.holderID

theorem pgReconcileAcquire_cases (e : Elector) (table : LeaseTable) (now : Time)
    (reconcilerID : String) :
    (∃ row, Acquired e table now reconcilerID row ∧
      pgReconcileAcquire table now reconcilerID e.holderID e.lease.ms =
        (update table reconcilerID (some row), .ok (some row))) ∨
      ∃ answer, (∀ row, answer ≠ .ok (some row)) ∧
        pgReconcileAcquire table now reconcilerID e.holderID e.lease.ms = (table, answer) := by
  unfold pgReconcileAcquire
  cases hrow : table reconcilerID with
  | none =>
    refine .inl ⟨_, ⟨rfl, rfl, fun _ ↦ rfl, ?_, ?_⟩, rfl⟩
    · intro old hold
      rw [hrow] at hold
      cases hold
    · intro old hold
      rw [hrow] at hold
      cases hold
  | some old =>
    dsimp only
    split
    · next hfree =>
      split
      · refine .inl ⟨_, ⟨rfl, rfl, ?_, ?_, ?_⟩, rfl⟩
        · intro hnone
          cases hrow.symm.trans hnone
        · intro old' hold
          cases hrow.symm.trans hold
          exact old.nextEpoch_le
        · intro old' hold
          cases hrow.symm.trans hold
          exact hfree
      · refine .inr ⟨_, fun row ↦ ?_, rfl⟩
        exact nofun
    · refine .inr ⟨_, fun row ↦ ?_, rfl⟩
      exact nofun

theorem Elector.acquireLease_cases (e : Elector) (table : LeaseTable) (now : Time)
    (reconcilerID : String) :
    (∃ row, Acquired e table now reconcilerID row ∧ e.acquireLease table now reconcilerID =
        (update table reconcilerID (some row),
          .ok ⟨reconcilerID, e.holderID, epochToUint64 row.epoch, row.acquiredAt, row.expiresAt⟩)) ∨
      ∃ err, e.acquireLease table now reconcilerID = (table, .error err) := by
  obtain ⟨row, hrow, heq⟩ | ⟨answer, hanswer, heq⟩ :=
    pgReconcileAcquire_cases e table now reconcilerID
  · exact .inl ⟨row, hrow, by rw [acquireLease, heq]; rfl⟩
  · right
    rw [acquireLease, heq]
    cases answer with
    | error err => exact ⟨_, rfl⟩
    | ok answer =>
      cases answer with
      | none => exact ⟨_, rfl⟩
      | some row => exact absurd rfl (hanswer row)

theorem Elector.renewLease_cases (e : Elector) (table : LeaseTable) (now : Time)
    (token : LeaseToken) :
    (∃ row, table token.reconcilerID = some row ∧ row.holderID = e.holderID ∧ now < row.expiresAt ∧
      e.renewLease table now token = (update table token.reconcilerID
          (some { row with expiresAt := now + e.lease.duration }), .ok ())) ∨
      e.renewLease table now token = (table, .error errReconcileLeaseLost) := by
  unfold renewLease pgReconcileRenew
  cases hrow : table token.reconcilerID with
  | none => exact .inr rfl
  | some row =>
    by_cases hlive : row.holderID = e.holderID ∧ now < row.expiresAt
    · refine .inl ⟨row, rfl, hlive.1, hlive.2, ?_⟩
      simp only [if_pos hlive]
      rfl
    · right
      simp only [if_neg hlive]

theorem Elector.releaseLease_cases (e : Elector) (table : LeaseTable) (now : Time)
    (token : LeaseToken) :
    (∃ row, table token.reconcilerID = some row ∧ row.holderID = e.holderID ∧
      e.releaseLease table now token = update table token.reconcilerID
          (some { row with expiresAt := now - 1000000000 })) ∨
      e.releaseLease table now token = table := by
  unfold releaseLease pgReconcileRelease
  cases hrow : table token.reconcilerID with
  | none => exact .inr rfl
  | some row =>
    dsimp only
    split
    · next hholder => exact .inl ⟨row, rfl, hholder, rfl⟩
    · exact .inr rfl

end Specifications

section Cluster

structure AcceptedWrite where
  grant : ℕ
  token : LeaseToken
  entityID : String

/-- The database, the repositories of the loops, and what an observer records: the leases handed
out, the end of the window that each holder last got and did not give back, and the accepted
writes. -/
structure Cluster (R : Type) where
  clock : Time
  leases : LeaseTable := fun _ ↦ none
  repos : String → R
  grants : List LeaseToken := []
  windows : String → String → Option Time := fun _ _ ↦ none
  writes : List AcceptedWrite := []

inductive Call (M : Type)
  | tick (d : ℕ)
  | acquire (e : Elector) (reconcilerID : String)
  | renew (e : Elector) (token : LeaseToken)
  | release (e : Elector) (token : LeaseToken)
  | write (grant : ℕ) (entityID : String) (mutation : M)

variable {R M : Type} (repository : FencedRepository R M)

def setWindow (windows : String → String → Option Time) (reconcilerID holderID : String)
    (window : Option Time) : String → String → Option Time :=
  Function.update windows reconcilerID (Function.update (windows reconcilerID) holderID window)

def Cluster.step (s : Cluster R) : Call M → Option (Cluster R)
  | .tick d => some { s with clock := s.clock + d }
  | .acquire e reconcilerID =>
    match e.acquireLease s.leases s.clock reconcilerID with
    | (leases, .ok token) =>
      some
        { s with
          leases := leases
          grants := s.grants ++ [token]
          windows := setWindow s.windows reconcilerID e.holderID (some token.expiresAt) }
    | (leases, .error _) => some { s with leases := leases }
  | .renew e token =>
    match e.renewLease s.leases s.clock token with
    | (leases, .ok ()) =>
      some
        { s with
          leases := leases
          windows := setWindow s.windows token.reconcilerID e.holderID
            (some (s.clock + e.lease.duration)) }
    | (leases, .error _) => some { s with leases := leases }
  | .release e token =>
    some
      { s with
        leases := e.releaseLease s.leases s.clock token
        windows := setWindow s.windows token.reconcilerID e.holderID none }
  | .write grant entityID mutation =>
    match s.grants[grant]? with
    | none => none
    | some token =>
      match (newFencedWriter token).write repository s.repos entityID mutation with
      | (repos, .ok ()) =>
        some { s with repos := repos, writes := s.writes ++ [⟨grant, token, entityID⟩] }
      | (repos, .error _) => some { s with repos := repos }

inductive Called (s : Cluster R) : Call M → Cluster R → Prop
  | tick (d : ℕ) : Called s (.tick d) { s with clock := s.clock + d }
  | acquired (e : Elector) (reconcilerID : String) (row : LeaseRow)
    (hrow : Acquired e s.leases s.clock reconcilerID row) :
    Called s (.acquire e reconcilerID)
      { s with
        leases := Function.update s.leases reconcilerID (some row)
        grants := s.grants ++
          [⟨reconcilerID, e.holderID, epochToUint64 row.epoch, row.acquiredAt, row.expiresAt⟩]
        windows := setWindow s.windows reconcilerID e.holderID (some row.expiresAt) }
  | renewed (e : Elector) (token : LeaseToken) (row : LeaseRow)
    (hrow : s.leases token.reconcilerID = some row) (hholder : row.holderID = e.holderID)
    (hlive : s.clock < row.expiresAt) :
    Called s (.renew e token)
      { s with
        leases := Function.update s.leases token.reconcilerID
          (some { row with expiresAt := s.clock + e.lease.duration })
        windows := setWindow s.windows token.reconcilerID e.holderID
          (some (s.clock + e.lease.duration)) }
  | released (e : Elector) (token : LeaseToken) (row : LeaseRow)
    (hrow : s.leases token.reconcilerID = some row) (hholder : row.holderID = e.holderID) :
    Called s (.release e token)
      { s with
        leases := Function.update s.leases token.reconcilerID
          (some { row with expiresAt := s.clock - 1000000000 })
        windows := setWindow s.windows token.reconcilerID e.holderID none }
  | releasedLost (e : Elector) (token : LeaseToken) :
    Called s (.release e token)
      { s with windows := setWindow s.windows token.reconcilerID e.holderID none }
  | written (grant : ℕ) (entityID : String) (mutation : M) (token : LeaseToken) (repos : String → R)
    (hgrant : s.grants[grant]? = some token)
    (hkeeps : ∀ loop id, repository.lastEpoch (s.repos loop) id ≤
      repository.lastEpoch (repos loop) id)
    (hnew : repository.lastEpoch (s.repos token.reconcilerID) entityID ≤ token.epoch)
    (hset : token.epoch ≤ repository.lastEpoch (repos token.reconcilerID) entityID) :
    Called s (.write grant entityID mutation)
      { s with repos := repos, writes := s.writes ++ [⟨grant, token, entityID⟩] }
  | refused (grant : ℕ) (entityID : String) (mutation : M) (repos : String → R)
    (hkeeps : ∀ loop id, repository.lastEpoch (s.repos loop) id ≤
      repository.lastEpoch (repos loop) id) :
    Called s (.write grant entityID mutation) { s with repos := repos }
  | failed (c : Call M) : Called s c s

theorem Cluster.step_cases {s t : Cluster R} {c : Call M} (h : s.step repository c = some t) :
    Called repository s c t := by
  cases c with
  | tick d =>
    cases h
    exact .tick d
  | acquire e reconcilerID =>
    obtain ⟨row, hrow, heq⟩ | ⟨err, heq⟩ := e.acquireLease_cases s.leases s.clock reconcilerID
    · simp only [step, heq, some.injEq] at h
      subst h
      exact .acquired e reconcilerID row hrow
    · simp only [step, heq, some.injEq] at h
      subst h
      exact .failed _
  | renew e token =>
    obtain ⟨row, hrow, hholder, hlive, heq⟩ | heq := e.renewLease_cases s.leases s.clock token
    · simp only [step, heq, some.injEq] at h
      subst h
      exact .renewed e token row hrow hholder hlive
    · simp only [step, heq, some.injEq] at h
      subst h
      exact .failed _
  | release e token =>
    obtain ⟨row, hrow, hholder, heq⟩ | heq := e.releaseLease_cases s.leases s.clock token
    · simp only [step, heq, some.injEq] at h
      subst h
      exact .released e token row hrow hholder
    · simp only [step, heq, some.injEq] at h
      subst h
      exact .releasedLost e token
  | write grant entityID mutation =>
    cases hgrant : s.grants[grant]? with
    | none => simp [step, hgrant] at h
    | some token =>
      have hkeeps := fun loop id ↦
        (newFencedWriter token).write_keeps repository s.repos entityID mutation loop id
      cases hwrite : (newFencedWriter token).write repository s.repos entityID mutation with
      | mk repos answer =>
        rw [hwrite] at hkeeps
        cases answer with
        | ok u =>
          have hok := FencedWriter.write_ok (w := newFencedWriter token) rfl
            (congrArg Prod.snd hwrite)
          rw [hwrite] at hok
          simp only [step, hgrant, hwrite, some.injEq] at h
          subst h
          exact .written grant entityID mutation token repos hgrant hkeeps hok.1 hok.2
        | error err =>
          simp only [step, hgrant, hwrite, some.injEq] at h
          subst h
          exact .refused grant entityID mutation repos hkeeps

end Cluster

section Safety

variable {R M : Type} {repository : FencedRepository R M} {s t : Cluster R} {c : Call M}

def LeaseToken.Before (g g' : LeaseToken) : Prop :=
  g.reconcilerID = g'.reconcilerID →
    g.epoch ≤ g'.epoch ∧ (g.holderID ≠ g'.holderID → g.epoch < g'.epoch)

structure Elected (s : Cluster R) : Prop where
  positive : ∀ loop, ∀ row ∈ s.leases loop, 0 < row.epoch
  granted : ∀ g ∈ s.grants, ∃ row, s.leases g.reconcilerID = some row ∧ g.epoch ≤ row.epoch ∧
    (g.holderID ≠ row.holderID → g.epoch < row.epoch)
  ordered : s.grants.Pairwise LeaseToken.Before
  windowed : ∀ loop holder w, s.windows loop holder = some w → s.clock < w →
    ∃ row, s.leases loop = some row ∧ row.holderID = holder ∧ row.expiresAt = w

structure Fenced (repository : FencedRepository R M) (s : Cluster R) : Prop where
  known : ∀ w ∈ s.writes, s.grants[w.grant]? = some w.token
  recorded : ∀ w ∈ s.writes,
    w.token.epoch ≤ repository.lastEpoch (s.repos w.token.reconcilerID) w.entityID
  ordered : s.writes.Pairwise fun w w' ↦ w.token.reconcilerID = w'.token.reconcilerID →
    w.entityID = w'.entityID → w.token.epoch ≤ w'.token.epoch

theorem epochToUint64_of_pos {e : ℤ} (h : 0 < e) : (epochToUint64 e : ℤ) = e := by
  rw [epochToUint64, if_neg (by omega)]
  omega

def LeaseTable.Le (table table' : LeaseTable) : Prop :=
  ∀ loop, ∀ row ∈ table loop, ∃ row', table' loop = some row' ∧ row.Le row'

theorem LeaseTable.Le.refl (table : LeaseTable) : table.Le table :=
  fun _ row hrow ↦ ⟨row, hrow, .refl row⟩

theorem LeaseTable.Le.trans {a b c : LeaseTable} (hab : a.Le b) (hbc : b.Le c) : a.Le c := by
  intro loop row hrow
  obtain ⟨row', hrow', hle⟩ := hab loop row hrow
  obtain ⟨row'', hrow'', hle'⟩ := hbc loop row' hrow'
  exact ⟨row'', hrow'', hle.trans hle'⟩

theorem LeaseTable.Le.update {table : LeaseTable} {loop : String} {row : LeaseRow}
    (h : ∀ old ∈ table loop, old.Le row) :
    table.Le (update table loop (some row)) := by
  intro loop' old hold
  by_cases heq : loop' = loop
  · subst heq
    exact ⟨row, update_self .., h old hold⟩
  · exact ⟨old, (update_of_ne heq ..).trans hold, .refl old⟩

theorem Called.leases_le (h : Called repository s c t) : s.leases.Le t.leases := by
  cases h with
  | acquired e loop row hrow => exact .update hrow.le
  | renewed _ _ _ hrow | released _ _ _ hrow =>
    refine .update fun old hold ↦ ?_
    cases hrow.symm.trans hold
    exact ⟨le_rfl, fun hne ↦ absurd rfl hne⟩
  | _ => exact .refl _

theorem Elected.positive_step (h : Elected s) (hcall : Called repository s c t) :
    ∀ loop, ∀ row ∈ t.leases loop, 0 < row.epoch := by
  have hset : ∀ loop new, 0 < LeaseRow.epoch new →
      ∀ loop', ∀ row ∈ update s.leases loop (some new) loop', 0 < row.epoch := by
    intro loop new hnew loop' row hrow
    by_cases heq : loop' = loop
    · rw [heq, update_self] at hrow
      cases hrow
      exact hnew
    · rw [update_of_ne heq] at hrow
      exact h.positive loop' row hrow
  cases hcall with
  | acquired e loop row hrow =>
    refine hset loop row ?_
    cases hold : s.leases loop with
    | none =>
      rw [hrow.first hold]
      exact Int.zero_lt_one
    | some old => exact (h.positive loop old hold).trans_le (hrow.le old hold).epoch
  | renewed e token row hrow | released e token row hrow => exact hset _ _ (h.positive _ row hrow)
  | _ => exact h.positive

theorem Elected.granted_mono (h : Elected s) {table : LeaseTable} (hle : s.leases.Le table) :
    ∀ g ∈ s.grants, ∃ row, table g.reconcilerID = some row ∧ g.epoch ≤ row.epoch ∧
      (g.holderID ≠ row.holderID → g.epoch < row.epoch) := by
  intro g hg
  obtain ⟨row, hrow, hepoch, hholder⟩ := h.granted g hg
  obtain ⟨row', hrow', hnext⟩ := hle _ row hrow
  refine ⟨row', hrow', hepoch.trans hnext.epoch, fun hne ↦ ?_⟩
  by_cases heq : g.holderID = row.holderID
  · exact hepoch.trans_lt (hnext.holder (heq ▸ hne))
  · exact (hholder heq).trans_le hnext.epoch

theorem Elected.granted_step (h : Elected s) (hcall : Called repository s c t) :
    ∀ g ∈ t.grants, ∃ row, t.leases g.reconcilerID = some row ∧ g.epoch ≤ row.epoch ∧
      (g.holderID ≠ row.holderID → g.epoch < row.epoch) := by
  have hold := h.granted_mono hcall.leases_le
  have hpositive := h.positive_step hcall
  cases hcall with
  | acquired e loop row hrow =>
    intro g hg
    obtain hg | hg := mem_append.1 hg
    · exact hold g hg
    · obtain rfl := mem_singleton.1 hg
      have hself : update s.leases loop (some row) loop = some row :=
        update_self ..
      refine ⟨row, hself, ?_, fun hne ↦ absurd hrow.holder.symm hne⟩
      exact (epochToUint64_of_pos (hpositive loop row hself)).le
  | _ => exact hold

theorem Elected.ordered_step (h : Elected s) (hcall : Called repository s c t) :
    t.grants.Pairwise LeaseToken.Before := by
  have hmono := h.granted_mono hcall.leases_le
  have hpositive := h.positive_step hcall
  cases hcall with
  | acquired e loop row hrow =>
    refine pairwise_append.2 ⟨h.ordered, pairwise_singleton .., fun g hg g' hg' ↦ ?_⟩
    obtain rfl := mem_singleton.1 hg'
    intro hloop
    have hself : update s.leases loop (some row) loop = some row :=
      update_self ..
    obtain ⟨row', hrow', hepoch, hholder⟩ := hmono g hg
    rw [show g.reconcilerID = loop from hloop] at hrow'
    cases hself.symm.trans hrow'
    rw [← epochToUint64_of_pos (hpositive loop row hself)] at hepoch hholder
    refine ⟨Int.ofNat_le.1 hepoch, fun hne ↦ Int.ofNat_lt.1 (hholder ?_)⟩
    rw [hrow.holder]
    exact hne
  | _ => exact h.ordered

theorem setWindow_cases {windows : String → String → Option Time}
    {loop holder loop' holder' : String} {window : Option Time} {w : Time}
    (h : setWindow windows loop holder window loop' holder' = some w) :
    loop' = loop ∧ holder' = holder ∧ window = some w ∨
      (loop' = loop → holder' ≠ holder) ∧ windows loop' holder' = some w := by
  unfold setWindow at h
  by_cases hloop : loop' = loop
  · subst hloop
    rw [update_self] at h
    by_cases hholder : holder' = holder
    · subst hholder
      rw [update_self] at h
      exact .inl ⟨rfl, rfl, h⟩
    · rw [update_of_ne hholder] at h
      exact .inr ⟨fun _ ↦ hholder, h⟩
  · rw [update_of_ne hloop] at h
    exact .inr ⟨fun heq ↦ absurd heq hloop, h⟩

theorem Elected.windowed_update (h : Elected s) {loop holder : String} {row : LeaseRow}
    {window : Option Time} (hwindow : ∀ w ∈ window, row.holderID = holder ∧ row.expiresAt = w)
    (hfree : ∀ old ∈ s.leases loop, old.expiresAt < s.clock ∨ old.holderID = holder) :
    ∀ loop' holder' w, setWindow s.windows loop holder window loop' holder' = some w →
      s.clock < w → ∃ row', update s.leases loop (some row) loop' = some row' ∧
        row'.holderID = holder' ∧ row'.expiresAt = w := by
  intro loop' holder' w hw hopen
  obtain ⟨rfl, rfl, rfl⟩ | ⟨hother, hw⟩ := setWindow_cases hw
  · exact ⟨row, update_self .., hwindow w rfl⟩
  · obtain ⟨old, hold, rfl, rfl⟩ := h.windowed loop' holder' w hw hopen
    have hne : loop' ≠ loop := by
      intro heq
      obtain hexpired | hholder := hfree old (heq ▸ hold)
      · exact absurd hopen hexpired.not_gt
      · exact hother heq hholder
    exact ⟨old, (update_of_ne hne ..).trans hold, rfl, rfl⟩

theorem Elected.windowed_step (h : Elected s) (hcall : Called repository s c t) :
    ∀ loop holder w, t.windows loop holder = some w → t.clock < w →
      ∃ row, t.leases loop = some row ∧ row.holderID = holder ∧ row.expiresAt = w := by
  cases hcall with
  | tick d =>
    intro loop holder w hw hopen
    exact h.windowed loop holder w hw
      ((Int.le_add_of_nonneg_right (Int.natCast_nonneg d)).trans_lt hopen)
  | acquired e loop row hrow =>
    refine h.windowed_update (fun w hw ↦ ?_) hrow.free
    exact ⟨hrow.holder, some.inj hw⟩
  | renewed _ _ _ hrow hholder =>
    refine h.windowed_update (fun w hw ↦ ⟨hholder, some.inj hw⟩) fun old hold ↦ ?_
    cases hrow.symm.trans hold
    exact .inr hholder
  | released _ _ _ hrow hholder =>
    refine h.windowed_update nofun fun old hold ↦ ?_
    cases hrow.symm.trans hold
    exact .inr hholder
  | releasedLost =>
    intro loop holder w hw hopen
    obtain ⟨-, -, hnone⟩ | ⟨-, hw⟩ := setWindow_cases hw
    · cases hnone
    · exact h.windowed loop holder w hw hopen
  | _ => exact h.windowed

theorem Elected.step (h : Elected s) (hcall : Called repository s c t) : Elected t :=
  ⟨h.positive_step hcall, h.granted_step hcall, h.ordered_step hcall, h.windowed_step hcall⟩

theorem Elected.same_holder (h : Elected s) {g g' : LeaseToken} (hg : g ∈ s.grants)
    (hg' : g' ∈ s.grants) (hloop : g.reconcilerID = g'.reconcilerID) (hepoch : g.epoch = g'.epoch) :
    g.holderID = g'.holderID := by
  have hpairs : s.grants.Pairwise fun g g' ↦ g.reconcilerID = g'.reconcilerID →
      g.epoch = g'.epoch → g.holderID = g'.holderID := by
    refine h.ordered.imp fun hbefore hloop hepoch ↦ ?_
    by_contra hne
    exact absurd hepoch ((hbefore hloop).2 hne).ne
  have hsymm : Std.Symm fun g g' : LeaseToken ↦ g.reconcilerID = g'.reconcilerID →
      g.epoch = g'.epoch → g.holderID = g'.holderID :=
    ⟨fun _ _ hR hloop hepoch ↦ (hR hloop.symm hepoch.symm).symm⟩
  exact hpairs.forall_of_forall (fun _ _ _ _ ↦ rfl) hg hg' hloop hepoch

theorem Called.grants_getElem? (hcall : Called repository s c t) {k : ℕ} {g : LeaseToken}
    (hg : s.grants[k]? = some g) : t.grants[k]? = some g := by
  cases hcall with
  | acquired =>
    exact (List.getElem?_append_left (List.getElem?_eq_some_iff.1 hg).1).trans hg
  | _ => exact hg

theorem Fenced.step (h : Fenced repository s) (hcall : Called repository s c t) :
    Fenced repository t := by
  have hknown : ∀ w ∈ s.writes, t.grants[w.grant]? = some w.token :=
    fun w hw ↦ hcall.grants_getElem? (h.known w hw)
  cases hcall with
  | written _ entityID _ token repos hgrant hkeeps hnew hset =>
    have hrecorded : ∀ w ∈ s.writes, w.token.epoch ≤
        repository.lastEpoch (repos w.token.reconcilerID) w.entityID :=
      fun w hw ↦ (h.recorded w hw).trans (hkeeps _ _)
    refine ⟨fun w hw ↦ ?_, fun w hw ↦ ?_, ?_⟩
    · obtain hw | hw := mem_append.1 hw
      · exact hknown w hw
      · obtain rfl := mem_singleton.1 hw
        exact hgrant
    · obtain hw | hw := mem_append.1 hw
      · exact hrecorded w hw
      · obtain rfl := mem_singleton.1 hw
        exact hset
    · refine pairwise_append.2
        ⟨h.ordered, pairwise_singleton .., fun w hw w' hw' hloop hentity ↦ ?_⟩
      obtain rfl := mem_singleton.1 hw'
      have hold := h.recorded w hw
      rw [show w.token.reconcilerID = token.reconcilerID from hloop,
        show w.entityID = entityID from hentity] at hold
      exact hold.trans hnew
  | refused _ _ _ _ hkeeps =>
    exact ⟨hknown, fun w hw ↦ (h.recorded w hw).trans (hkeeps _ _), h.ordered⟩
  | _ => exact ⟨hknown, h.recorded, h.ordered⟩

def Cluster.start (now : Time) (repos : String → R) : Cluster R where
  clock := now
  repos := repos

theorem elected_start (now : Time) (repos : String → R) : Elected (Cluster.start now repos) where
  positive _ _ h := by cases h
  granted _ h := by cases h
  ordered := .nil
  windowed _ _ _ h := by cases h

theorem fenced_start (now : Time) (repos : String → R) :
    Fenced repository (Cluster.start now repos) where
  known _ h := by cases h
  recorded _ h := by cases h
  ordered := .nil

theorem elected_run {now : Time} {repos : String → R} {cs : List (Call M)}
    (h : exec (Cluster.step repository) (Cluster.start now repos) cs = some s) :
    Elected s ∧ Fenced repository s := by
  refine exec_invariant (fun s ↦ Elected s ∧ Fenced repository s) (fun s c t hs hstep ↦ ?_) cs _ s
    ⟨elected_start now repos, fenced_start now repos⟩ h
  have hcall := Cluster.step_cases repository hstep
  exact ⟨hs.1.step hcall, hs.2.step hcall⟩

theorem Fenced.superseded (hf : Fenced repository s) (he : Elected s) {p q : ℕ}
    {w w' : AcceptedWrite} (hp : s.writes[p]? = some w) (hq : s.writes[q]? = some w')
    (hloop : w.token.reconcilerID = w'.token.reconcilerID) (hentity : w.entityID = w'.entityID)
    (hgrant : w.grant < w'.grant) (hholder : w.token.holderID ≠ w'.token.holderID) : p < q := by
  obtain ⟨hlt, hget⟩ := List.getElem?_eq_some_iff.1 (hf.known w (List.mem_of_getElem? hp))
  obtain ⟨hlt', hget'⟩ := List.getElem?_eq_some_iff.1 (hf.known w' (List.mem_of_getElem? hq))
  have hbefore := pairwise_iff_getElem.1 he.ordered _ _ hlt hlt' hgrant
  rw [hget, hget'] at hbefore
  have hepoch := (hbefore hloop).2 hholder
  obtain hpq | rfl | hqp := lt_trichotomy p q
  · exact hpq
  · cases hp.symm.trans hq
    exact absurd rfl hholder
  · obtain ⟨hlt, hget⟩ := List.getElem?_eq_some_iff.1 hp
    obtain ⟨hlt', hget'⟩ := List.getElem?_eq_some_iff.1 hq
    have hle := pairwise_iff_getElem.1 hf.ordered _ _ hlt' hlt hqp
    rw [hget, hget'] at hle
    exact absurd hepoch (Nat.not_lt.2 (hle hloop.symm hentity.symm))

/-- Over every run: the rows' epochs do not go back and go up with the holder; one epoch has one
holder; one holder has an open window; and the writes that the repositories accept follow the
order of the leases. -/
theorem leases_fenced {now : Time} {repos : String → R} {before later : List (Call M)}
    (hbefore : exec (Cluster.step repository) (Cluster.start now repos) before = some s)
    (hlater : exec (Cluster.step repository) s later = some t) :
    (∀ loop row, s.leases loop = some row → ∃ row', t.leases loop = some row' ∧
        row.epoch ≤ row'.epoch ∧ (row.holderID ≠ row'.holderID → row.epoch < row'.epoch)) ∧
      (∀ g ∈ t.grants, ∀ g' ∈ t.grants, g.reconcilerID = g'.reconcilerID → g.epoch = g'.epoch →
        g.holderID = g'.holderID) ∧
      (t.grants.Pairwise fun g g' ↦ g.reconcilerID = g'.reconcilerID →
        g.epoch ≤ g'.epoch ∧ (g.holderID ≠ g'.holderID → g.epoch < g'.epoch)) ∧
      (∀ loop holder holder' w w', t.windows loop holder = some w → t.clock < w →
        t.windows loop holder' = some w' → t.clock < w' → holder = holder') ∧
      (t.writes.Pairwise fun w w' ↦ w.token.reconcilerID = w'.token.reconcilerID →
        w.entityID = w'.entityID → w.token.epoch ≤ w'.token.epoch) ∧
      ∀ (p q : ℕ) (w w' : AcceptedWrite), t.writes[p]? = some w → t.writes[q]? = some w' →
        w.token.reconcilerID = w'.token.reconcilerID → w.entityID = w'.entityID →
        w.grant < w'.grant → w.token.holderID ≠ w'.token.holderID → p < q := by
  have hle : s.leases.Le t.leases :=
    exec_invariant (fun u ↦ s.leases.Le u.leases)
      (fun u c v hu hstep ↦ hu.trans (Cluster.step_cases repository hstep).leases_le) later s t
      (.refl _) hlater
  obtain ⟨helected, hfenced⟩ := elected_run (exec_append.2 ⟨s, hbefore, hlater⟩)
  refine ⟨fun loop row hrow ↦ ?_, fun g hg g' hg' hloop hepoch ↦ ?_, helected.ordered,
    fun loop holder holder' w w' hw hopen hw' hopen' ↦ ?_, hfenced.ordered,
    fun p q w w' hp hq hloop hentity hgrant hholder ↦
      hfenced.superseded helected hp hq hloop hentity hgrant hholder⟩
  · obtain ⟨row', hrow', hnext⟩ := hle loop row hrow
    exact ⟨row', hrow', hnext.epoch, hnext.holder⟩
  · exact helected.same_holder hg hg' hloop hepoch
  · obtain ⟨row, hrow, rfl, -⟩ := helected.windowed loop holder w hw hopen
    obtain ⟨row', hrow', rfl, -⟩ := helected.windowed loop holder' w' hw' hopen'
    rw [some.inj (hrow.symm.trans hrow')]

def sampleElector (holderID : String) : Elector := ⟨holderID, ⟨10000, by decide⟩⟩

def lateWrite : List (Call Unit) :=
  [.acquire (sampleElector "a") "loop", .write 0 "x" (), .tick 10000000001,
    .acquire (sampleElector "b") "loop", .write 1 "x" (), .write 0 "x" ()]

def fencedStep := Cluster.step (fakeFencedRepository Unit)

theorem leases_fenced_late_write :
    ∃ s t, exec fencedStep (Cluster.start 0 fun _ ↦ {}) (lateWrite.take 3) = some s ∧
      exec fencedStep s (lateWrite.drop 3) = some t ∧
      t.writes.map AcceptedWrite.grant = [0, 1] ∧
      ∀ (p q : ℕ) (w w' : AcceptedWrite), t.writes[p]? = some w → t.writes[q]? = some w' →
        w.token.reconcilerID = w'.token.reconcilerID → w.entityID = w'.entityID →
        w.grant < w'.grant → w.token.holderID ≠ w'.token.holderID → p < q := by
  have hrun : ((exec fencedStep (Cluster.start 0 fun _ ↦ {}) (lateWrite.take 3)).bind fun s ↦
      (exec fencedStep s (lateWrite.drop 3)).map fun t ↦ t.writes.map AcceptedWrite.grant) =
        some [0, 1] := by decide +kernel
  obtain ⟨s, hs, hrun⟩ := bind_eq_some_iff.1 hrun
  obtain ⟨t, ht, hwrites⟩ := map_eq_some_iff.1 hrun
  exact ⟨s, t, hs, ht, hwrites, (leases_fenced hs ht).2.2.2.2.2⟩

end Safety

end GoCell.Reconcile
