import GoCell.Audit.MemStore

namespace GoCell.Audit

open Foundation Kernel List Option

structure AuditRow where
  namespaceID : Bytes
  entry : Entry
  deriving DecidableEq

/-- The values that a `TEXT` column and a text parameter can carry. -/
def isPGText (s : Bytes) : Bool := utf8Valid s && !s.contains 0

def Entry.columns (e : Entry) : Entry :=
  { e with occurredAt := pgTime e.occurredAt, timestamp := pgTime e.timestamp }

def hashFormat (e : Entry) : Bool :=
  (e.seqNo = 1 && e.prevHash = [] && isHexDigest e.hash) ||
    (1 < e.seqNo && isHexDigest e.prevHash && isHexDigest e.hash)

namespace PG

abbrev AuditEntries := List AuditRow

variable (table : AuditEntries)

def chainRows (ns t : Bytes) : List Entry :=
  (table.filter fun r ↦ r.namespaceID = ns && r.entry.tenantID = t).map AuditRow.entry

def selectRange (ns t : Bytes) (fromSeq toSeq : ℤ) : List Entry :=
  ((chainRows table ns t).filter fun e ↦ fromSeq ≤ e.seqNo && e.seqNo ≤ toSeq).insertionSort
    fun a b ↦ a.seqNo ≤ b.seqNo

def checkFingerprint (ns t eventID : Bytes) : Bool :=
  (chainRows table ns t).any fun e ↦ e.eventID = eventID

/-- The hash and the next sequence number of the row that `selectTailForUpdateSQL` finds. -/
def readTailForUpdate (ns t : Bytes) : Bytes × ℤ :=
  match ((chainRows table ns t).insertionSort fun a b ↦ b.seqNo ≤ a.seqNo).head? with
  | none => ([], 1)
  | some e => (e.hash, e.seqNo + 1)

/-- `insertEntrySQL`; `none` when a column or a constraint of the table rejects the row. -/
def insertEntry (ns : Bytes) (e : Entry) : Option AuditEntries :=
  if e.strings.all isPGText && isPGText e.traceID && e.payload.isSome && hashFormat e &&
      table.all (fun r ↦ r.entry.id ≠ e.id) &&
      (chainRows table ns e.tenantID).all (fun x ↦ x.seqNo ≠ e.seqNo && x.eventID ≠ e.eventID)
  then some (table ++ [⟨ns, e.columns⟩])
  else none

def sealedEntry (p : Protocol) (tail : Bytes × ℤ) (id : Bytes) (e : Entry) : Entry :=
  { e with
    id := id, seqNo := tail.2, prevHash := tail.1, hash := p.computeHash tail.1 e }

/-- `LedgerStore.Append`. A call brings the UUID that is drawn for the row and the entry, `none` for
a nil one; the answer is the entry of the caller as it is written back. -/
def append (env : LedgerEnv) (table : AuditEntries) :
    Bytes × Option Entry → AuditEntries × Except Err Entry
  | (_, none) => (table, .error errNilEntry)
  | (id, some e) =>
    let ns := env.protocol.namespaceID
    match env.validatePayloadJSON e.payload with
    | .error err => (table, .error err)
    | .ok () =>
      if !isPGText e.tenantID then
        (table, .error (errPGQuery "audit ledger: namespace advisory lock failed"))
      else if !isPGText e.eventID then
        (table, .error (errPGQuery "audit ledger: fingerprint check failed"))
      else if checkFingerprint table ns e.tenantID e.eventID then
        (table, .error errDuplicateFingerprint)
      else
        let e := sealedEntry env.protocol (readTailForUpdate table ns e.tenantID) id e
        match insertEntry table ns e with
        | none => (table, .error (errPGQuery "audit ledger: insert entry failed"))
        | some table => (table, .ok e)

def verifyRangeExec (table : AuditEntries) (p : Protocol) (ns t : Bytes) (fromSeq toSeq : ℤ)
    (prevHash : Bytes) : VerifyResult :=
  verifyRangeLoop p toSeq fromSeq prevHash (selectRange table ns t fromSeq toSeq)

theorem append_cases (env : LedgerEnv) (table : AuditEntries) (call : Bytes × Option Entry) :
    (∃ err, append env table call = (table, .error err)) ∨ ∃ e, call.2 = some e ∧
        checkFingerprint table env.protocol.namespaceID e.tenantID e.eventID = false ∧
        ∃ x, x = sealedEntry env.protocol
            (readTailForUpdate table env.protocol.namespaceID e.tenantID) call.1 e ∧
          append env table call = (table ++ [⟨env.protocol.namespaceID, x.columns⟩], .ok x) := by
  obtain ⟨id, e⟩ := call
  cases e with
  | none => exact .inl ⟨_, rfl⟩
  | some e =>
    simp only [append]
    split
    · exact .inl ⟨_, rfl⟩
    · split
      · exact .inl ⟨_, rfl⟩
      · split
        · exact .inl ⟨_, rfl⟩
        · split
          · exact .inl ⟨_, rfl⟩
          · next hnew =>
            split
            · exact .inl ⟨_, rfl⟩
            · next table' hinsert =>
              refine .inr ⟨e, rfl, by simpa using hnew, _, rfl, ?_⟩
              unfold insertEntry at hinsert
              split at hinsert
              · rw [← some.inj hinsert]
              · cases hinsert

structure Tracks (env : LedgerEnv) (table : AuditEntries) (log : List Entry) : Prop where
  rows : table = log.map fun e ↦ ⟨env.protocol.namespaceID, e.columns⟩
  chained : WellChained env.protocol log

variable {env : LedgerEnv} {table : AuditEntries} {log : List Entry}

theorem Tracks.chainRows (h : Tracks env table log) (t : Bytes) :
    PG.chainRows table env.protocol.namespaceID t = (ownChain t log).map Entry.columns := by
  rw [PG.chainRows, h.rows, List.filter_map, List.map_map, ownChain]
  simp [Function.comp_def, Entry.columns]

theorem head_descending {rows : List Entry}
    (h : ∀ (k : ℕ) (e : Entry), rows[k]? = some e → e.seqNo = k + 1) :
    (rows.insertionSort fun a b ↦ b.seqNo ≤ a.seqNo).head? = rows.getLast? := by
  have hlt : rows.Pairwise fun a b ↦ a.seqNo < b.seqNo := by
    rw [pairwise_iff_getElem]
    intro i j hi hj hij
    rw [h i _ (getElem?_eq_getElem hi), h j _ (getElem?_eq_getElem hj)]
    omega
  have hreverse : rows.reverse.Pairwise fun a b ↦ b.seqNo < a.seqNo := pairwise_reverse.2 hlt
  have hsort : (rows.insertionSort fun a b ↦ b.seqNo ≤ a.seqNo) = rows.reverse := by
    have hperm := (perm_insertionSort (fun a b : Entry ↦ b.seqNo ≤ a.seqNo) rows).trans
      (reverse_perm rows).symm
    have hsorted : (rows.insertionSort fun a b ↦ b.seqNo ≤ a.seqNo).Pairwise
        fun a b ↦ b.seqNo ≤ a.seqNo := by
      have : Std.Total fun a b : Entry ↦ b.seqNo ≤ a.seqNo := ⟨fun a b ↦ Int.le_total _ _⟩
      have : IsTrans Entry fun a b : Entry ↦ b.seqNo ≤ a.seqNo :=
        ⟨fun a b c hab hbc ↦ hbc.trans hab⟩
      exact pairwise_insertionSort _ rows
    refine List.Perm.eq_of_pairwise ?_ hsorted (hreverse.imp le_of_lt) hperm
    intro a b ha hb hba hab
    obtain ⟨i, hi⟩ := getElem?_of_mem ((mem_insertionSort _).1 ha)
    obtain ⟨j, hj⟩ := getElem?_of_mem (mem_reverse.1 hb)
    have hi' := h i a hi
    have hj' := h j b hj
    obtain rfl : i = j := by omega
    exact some.inj (hi.symm.trans hj)
  rw [hsort, head?_reverse]

section

variable (h : Tracks env table log)
include h

theorem Tracks.readTail (t : Bytes) :
    readTailForUpdate table env.protocol.namespaceID t =
      (((ownChain t log).getLast?.map Entry.hash).getD [], ((ownChain t log).length : ℤ) + 1) := by
  have hdense : ∀ (k : ℕ) (e : Entry), ((ownChain t log).map Entry.columns)[k]? = some e →
      e.seqNo = k + 1 := by
    intro k e he
    rw [getElem?_map, map_eq_some_iff] at he
    obtain ⟨x, hx, rfl⟩ := he
    exact h.chained.dense t k x hx
  rw [readTailForUpdate, h.chainRows, head_descending hdense, getLast?_map]
  cases hget : (ownChain t log).getLast? with
  | none =>
    rw [getLast?_eq_none_iff.1 hget]
    rfl
  | some x =>
    rw [getLast?_eq_getElem?] at hget
    have hx := h.chained.dense t _ x hget
    have hlt := (List.getElem?_eq_some_iff.1 hget).1
    simp only [map_some, getD_some, Prod.mk.injEq]
    refine ⟨rfl, ?_⟩
    change x.seqNo + 1 = _
    omega

theorem Tracks.append (call : Bytes × Option Entry) :
    Tracks env (append env table call).1 (log ++ appended [(append env table call).2]) := by
  obtain ⟨err, herr⟩ | ⟨e, -, hnew, x, hx, happend⟩ := append_cases env table call
  · rw [herr, show appended [(.error err : Except Err Entry)] = [] from rfl, append_nil]
    exact h
  · rw [happend, show appended [(.ok x : Except Err Entry)] = [x] from rfl]
    rw [h.readTail] at hx
    have htenant : x.tenantID = e.tenantID := by rw [hx]; rfl
    refine ⟨by rw [h.rows, map_append, map_singleton], h.chained.concat ?_ ?_ ?_ ?_⟩
    · rw [htenant, hx]
      rfl
    · rw [htenant, hx]
      rfl
    · rw [hx]
      rfl
    · intro y hy heq
      rw [htenant] at hy
      have hdup : checkFingerprint table env.protocol.namespaceID e.tenantID e.eventID = true := by
        rw [checkFingerprint, h.chainRows, List.any_map, List.any_eq_true]
        refine ⟨y, hy, decide_eq_true ?_⟩
        change y.eventID = e.eventID
        rw [heq, hx]
        rfl
      rw [hdup] at hnew
      cases hnew

end

theorem tracks_run (env : LedgerEnv) (calls : List (Bytes × Option Entry)) :
    Tracks env (after (PG.append env) [] calls) (appended (answers (PG.append env) [] calls)) :=
  log_run (R := Tracks env) (fun _ _ call h ↦ h.append call) calls ⟨rfl, .nil⟩

theorem Tracks.selectRange (h : Tracks env table log) (t : Bytes) :
    PG.selectRange table env.protocol.namespaceID t 1 (ownChain t log).length =
      (ownChain t log).map Entry.columns := by
  have hdense : ∀ (k : ℕ) (hk : k < ((ownChain t log).map Entry.columns).length),
      (((ownChain t log).map Entry.columns)[k]).seqNo = k + 1 := by
    intro k hk
    rw [length_map] at hk
    rw [getElem_map]
    exact h.chained.dense t k (ownChain t log)[k] (getElem?_eq_getElem hk)
  have hall : ((ownChain t log).map Entry.columns).filter
      (fun e ↦ 1 ≤ e.seqNo && e.seqNo ≤ ((ownChain t log).length : ℤ)) =
        (ownChain t log).map Entry.columns := by
    rw [filter_eq_self]
    intro e he
    obtain ⟨k, hk, rfl⟩ := getElem_of_mem he
    have hlen := hk
    rw [length_map] at hlen
    rw [hdense k hk, Bool.and_eq_true, decide_eq_true_eq, decide_eq_true_eq]
    omega
  rw [PG.selectRange, h.chainRows, hall]
  apply List.Pairwise.insertionSort_eq
  rw [pairwise_iff_getElem]
  intro i j hi hj hij
  rw [hdense i hi, hdense j hj]
  omega

theorem unixNano_pgTime {t : Time} : unixNano (pgTime t) = unixNano t ↔ pgTime t = t := by
  refine ⟨fun h ↦ ?_, fun h ↦ by rw [h]⟩
  have hmod := Int.bmod_eq_bmod_iff_bmod_sub_eq_zero.1 h
  have hdiff : pgTime t - unixEpoch - (t - unixEpoch) = -(t % 1000) := by
    have hpg : pgTime t = t / 1000 * 1000 := rfl
    have hdiv := Int.mul_ediv_add_emod t 1000
    rw [hpg]
    linarith
  rw [hdiff, ← Int.dvd_iff_bmod_eq_zero, dvd_neg] at hmod
  have hlow := Int.emod_nonneg t (show (1000 : ℤ) ≠ 0 by norm_num)
  have hhigh := Int.emod_lt_of_pos t (show (0 : ℤ) < 1000 by norm_num)
  have hzero := Int.eq_zero_of_dvd_of_nonneg_of_lt hlow (lt_trans hhigh (by norm_num)) hmod
  exact pgTime_eq_iff.2 (Int.dvd_of_emod_eq_zero hzero)

theorem hashMessage_columns {ns prevHash : Bytes} {e : Entry}
    (hns : validateNamespaceID ns = .ok ()) :
    hashMessage ns prevHash e.columns = hashMessage ns prevHash e ↔
      pgTime e.occurredAt = e.occurredAt ∧ pgTime e.timestamp = e.timestamp := by
  rw [hashMessage_eq_iff hns]
  change _ ∧ _ ∧ _ ∧ unixNano (pgTime e.occurredAt) = unixNano e.occurredAt ∧
    unixNano (pgTime e.timestamp) = unixNano e.timestamp ∧ _ ↔ _
  rw [unixNano_pgTime, unixNano_pgTime]
  exact ⟨fun h ↦ ⟨h.2.2.2.1, h.2.2.2.2.1⟩, fun h ↦ ⟨rfl, rfl, rfl, h.1, h.2, rfl⟩⟩

theorem Tracks.rangePasses_iff (h : Tracks env table log) (t : Bytes) {k : ℕ} {e : Entry}
    (he : (ownChain t log)[k]? = some e) :
    rangePasses env.protocol ((ownChain t log).map Entry.columns) k ↔
      env.protocol.computeHash e.prevHash e = env.protocol.computeHash e.prevHash e.columns := by
  have hrow : ((ownChain t log).map Entry.columns)[k]? = some e.columns := by
    rw [getElem?_map, he, map_some]
  have hlink : linkBefore Entry.hash [] ((ownChain t log).map Entry.columns) k =
      linkBefore Entry.hash [] (ownChain t log) k := by
    refine linkBefore_congr fun i _ ↦ ?_
    rw [List.getElem?_map, Option.map_map]
    rfl
  have hhash : e.hash = env.protocol.computeHash e.prevHash e :=
    h.chained.hashed e (mem_ownChain.1 (mem_of_getElem? he)).1
  constructor
  · rintro ⟨x, hx, -, -, hseal⟩
    cases hrow.symm.trans hx
    exact hhash.symm.trans hseal
  · intro hsame
    refine ⟨e.columns, hrow, ?_, h.chained.dense t k e he, hhash.trans hsame⟩
    rw [hlink]
    exact h.chained.linked t k e he

theorem appended_chain_valid (env : LedgerEnv) (calls : List (Bytes × Option Entry)) (t : Bytes) :
    ∀ chain, chain = ownChain t (appended (answers (PG.append env) [] calls)) →
      ((∀ e ∈ chain, (1000 : ℤ) ∣ e.occurredAt ∧ (1000 : ℤ) ∣ e.timestamp) →
        verifyRangeExec (after (PG.append env) [] calls) env.protocol env.protocol.namespaceID t 1
          chain.length [] = .intact) ∧
      ((∀ e ∈ chain, env.protocol.computeHash e.prevHash e =
            env.protocol.computeHash e.prevHash e.columns →
          hashMessage env.protocol.namespaceID e.prevHash e =
            hashMessage env.protocol.namespaceID e.prevHash e.columns) →
        (verifyRangeExec (after (PG.append env) [] calls) env.protocol env.protocol.namespaceID t 1
            chain.length [] = .intact ↔
          ∀ e ∈ chain, (1000 : ℤ) ∣ e.occurredAt ∧ (1000 : ℤ) ∣ e.timestamp)) := by
  have hrun := tracks_run env calls
  generalize appended (answers (PG.append env) [] calls) = log at *
  generalize after (PG.append env) [] calls = table at *
  rintro chain rfl
  have hreports := verifyRangeLoop_reports env.protocol (ownChain t log).length
    ((ownChain t log).map Entry.columns) [] _ rfl
  rw [length_map, Int.toNat_natCast, max_self] at hreports
  rw [verifyRangeExec, hrun.selectRange]
  change Reports _ 0 _ (verifyRangeLoop env.protocol _ 1 [] _) at hreports
  have hcolumns : ∀ {e : Entry}, hashMessage env.protocol.namespaceID e.prevHash e =
      hashMessage env.protocol.namespaceID e.prevHash e.columns ↔
        (1000 : ℤ) ∣ e.occurredAt ∧ (1000 : ℤ) ∣ e.timestamp := by
    intro e
    rw [eq_comm, hashMessage_columns env.protocol.namespace_valid, pgTime_eq_iff, pgTime_eq_iff]
  have hvalid : (∀ e ∈ ownChain t log, (1000 : ℤ) ∣ e.occurredAt ∧ (1000 : ℤ) ∣ e.timestamp) →
      verifyRangeLoop env.protocol (ownChain t log).length 1 []
        ((ownChain t log).map Entry.columns) = .intact := by
    intro hwhole
    refine hreports.intact_of_all fun k _ hk ↦ ?_
    have hget := getElem?_eq_getElem hk
    refine (hrun.rangePasses_iff t hget).2 ?_
    exact congrArg env.protocol.mac (hcolumns.2 (hwhole _ (mem_of_getElem? hget)))
  refine ⟨hvalid, fun hmac ↦ ⟨fun hintact e he ↦ ?_, hvalid⟩⟩
  obtain ⟨hall, -⟩ | ⟨k, -, -, -, -, hinvalid, -⟩ := hreports
  · obtain ⟨k, hk⟩ := getElem?_of_mem he
    have hlt := (List.getElem?_eq_some_iff.1 hk).1
    have hsame := (hrun.rangePasses_iff t hk).1 (hall k (Nat.zero_le k) hlt)
    exact hcolumns.1 (hmac e he hsame)
  · rw [hintact] at hinvalid
    cases hinvalid

def twoLogins (nanos : ℤ) : List (Bytes × Option Entry) :=
  [(asciiBytes "row-1", some (loginEntry "ev-1" "u-1" "t-1" (unixEpoch + 1000))),
    (asciiBytes "row-2", some (loginEntry "ev-2" "u-1" "t-1" (unixEpoch + nanos)))]

theorem appended_chain_valid_twoLogins :
    (ownChain (asciiBytes "t-1")
      (appended (answers (PG.append checksumEnv) [] (twoLogins 2000)))).length = 2 ∧
    verifyRangeExec (after (PG.append checksumEnv) [] (twoLogins 2000)) checksumEnv.protocol
      checksumEnv.protocol.namespaceID (asciiBytes "t-1") 1
      (ownChain (asciiBytes "t-1")
        (appended (answers (PG.append checksumEnv) [] (twoLogins 2000)))).length [] = .intact :=
  have hchain : (ownChain (asciiBytes "t-1")
        (appended (answers (PG.append checksumEnv) [] (twoLogins 2000)))).length = 2 ∧
      ∀ e ∈ ownChain (asciiBytes "t-1")
        (appended (answers (PG.append checksumEnv) [] (twoLogins 2000))),
        (1000 : ℤ) ∣ e.occurredAt ∧ (1000 : ℤ) ∣ e.timestamp := by
    decide +kernel
  ⟨hchain.1, (appended_chain_valid checksumEnv (twoLogins 2000) (asciiBytes "t-1") _ rfl).1
    hchain.2⟩

/-- An entry whose timestamp has nanoseconds that the column drops is reported as tampered. -/
theorem nanosecond_login_invalid :
    (answers (PG.append checksumEnv) [] (twoLogins 2001)).all (·.isOk) = true ∧
    verifyRangeExec (after (PG.append checksumEnv) [] (twoLogins 2001)) checksumEnv.protocol
      checksumEnv.protocol.namespaceID (asciiBytes "t-1") 1 2 [] = .tampered 2 := by
  decide +kernel

end PG

end GoCell.Audit
