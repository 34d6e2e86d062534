import GoCell.Audit.PGLedger

namespace GoCell.Audit

open Foundation Kernel List Entry

theorem hashMessage_congr {ns prevHash : Bytes} {e e' : Entry} (h : e.signed = e'.signed) :
    hashMessage ns prevHash e = hashMessage ns prevHash e' := by
  simp only [signed, SignedFields.mk.injEq] at h
  obtain ⟨h₁, h₂, h₃, h₄, h₅, h₆, h₇, h₈, h₉, h₁₀⟩ := h
  simp only [hashMessage, h₁, h₂, h₃, h₄, h₅, h₆, h₇, h₈, h₉, h₁₀]

structure Copies (row e : Entry) : Prop where
  signed : row.signed = e.signed
  prevHash : row.prevHash = e.prevHash
  hash : row.hash = e.hash

def CopiesAt (_ : ℕ) (row e : Entry) : Prop := Copies row e

/-- The agreement that `verifyRangeExec` looks for, with the sequence numbers. -/
def CopiesInPlace (k : ℕ) (row e : Entry) : Prop := row.seqNo = k + 1 ∧ Copies row e

/-- What a log of appended entries is assumed to be: faithful entries, no two of which have the same
hash unless the same message was hashed for both. -/
structure Trusted (p : Protocol) (log : List Entry) : Prop where
  faithful : ∀ e ∈ log, e.Faithful
  collisionFree : ∀ e ∈ log, ∀ e' ∈ log, e.hash = e'.hash →
    hashMessage p.namespaceID e.prevHash e = hashMessage p.namespaceID e'.prevHash e'

/-- What edited rows are assumed to be: their times are within `int64` nanoseconds, and a row bears
the hash that is computed from it only if its message was hashed for an appended entry. -/
structure Presented (p : Protocol) (log rows : List Entry) : Prop where
  times : ∀ r ∈ rows, InUnixNanos r.occurredAt ∧ InUnixNanos r.timestamp
  unforged : ∀ r ∈ rows, r.hash = p.computeHash r.prevHash r →
    ∃ e ∈ log, hashMessage p.namespaceID r.prevHash r = hashMessage p.namespaceID e.prevHash e

section

variable {p : Protocol} {log rows : List Entry}

theorem WellChained.utf8Valid_prevHash (h : WellChained p log) {e : Entry} (he : e ∈ log) :
    utf8Valid e.prevHash = true := by
  obtain ⟨k, hk⟩ := getElem?_of_mem (mem_ownChain.2 ⟨he, rfl⟩)
  rw [h.linked _ k e hk]
  cases k with
  | zero => rfl
  | succ k =>
    have hlt := Nat.lt_of_succ_lt (List.getElem?_eq_some_iff.1 hk).1
    have hget := getElem?_eq_getElem hlt
    rw [linkBefore_succ hget, h.hashed _ (mem_ownChain.1 (mem_of_getElem? hget)).1]
    exact utf8Valid_of_isHexDigest (p.mac_hex _)

theorem WellChained.hashChains (h : WellChained p log) (htrusted : Trusted p log) :
    HashChains prevHash hash tenantID [] (fun t ↦ ownChain t log) where
  linked := h.linked
  owned _ _ hr := (mem_ownChain.1 hr).2
  hash_ne _ _ hr := h.hash_ne_nil (mem_ownChain.1 hr).1
  collisionFree := by
    intro t u r hr s hs heq
    have hrmem := (mem_ownChain.1 hr).1
    have hsmem := (mem_ownChain.1 hs).1
    obtain ⟨hprev, hsigned⟩ := hashMessage_inj p.namespace_valid (h.utf8Valid_prevHash hsmem)
      (htrusted.faithful r hrmem).2 (htrusted.faithful s hsmem)
      (htrusted.collisionFree r hrmem s hsmem heq)
    exact ⟨hprev, congrArg SignedFields.tenantID hsigned⟩

theorem Copies.hashes (h : WellChained p log) {row e : Entry} (he : e ∈ log)
    (hcopy : Copies row e) : hashes p row := by
  unfold Audit.hashes
  rw [hcopy.hash, h.hashed e he, Protocol.computeHash, Protocol.computeHash, hcopy.prevHash,
    hashMessage_congr hcopy.signed]

section

variable (hrows : Presented p log rows) (h : WellChained p log) (htrusted : Trusted p log)
include hrows h htrusted

theorem Presented.copies {row : Entry} (hrow : row ∈ rows) (hhash : hashes p row) :
    ∃ e ∈ log, Copies row e := by
  obtain ⟨e, he, hmessage⟩ := hrows.unforged row hrow hhash
  obtain ⟨hprev, hsigned⟩ := hashMessage_inj p.namespace_valid (h.utf8Valid_prevHash he)
    (hrows.times row hrow) (htrusted.faithful e he) hmessage
  refine ⟨e, he, hsigned, hprev, ?_⟩
  rw [hhash, h.hashed e he, Protocol.computeHash, hmessage, Protocol.computeHash]

theorem Presented.unforged_mem :
    Unforged prevHash hash tenantID (fun t ↦ ownChain t log)
      (fun _ e ↦ hashes p e) CopiesAt rows where
  prev_eq hcopy := hcopy.prevHash
  hash_eq hcopy := hcopy.hash
  owner_eq hcopy := congrArg SignedFields.tenantID hcopy.signed
  copy_sealed hx hcopy := hcopy.hashes h (mem_ownChain.1 hx).1
  sealed_copy hr hhash := by
    obtain ⟨e, he, hcopy⟩ := hrows.copies h htrusted (mem_of_getElem? hr) hhash
    exact ⟨e.tenantID, e, mem_ownChain.2 ⟨he, rfl⟩, hcopy⟩

theorem Presented.unforged_range :
    Unforged prevHash hash tenantID (fun t ↦ ownChain t log)
      (fun k e ↦ e.seqNo = k + 1 ∧ hashes p e) CopiesInPlace rows where
  prev_eq hcopy := hcopy.2.prevHash
  hash_eq hcopy := hcopy.2.hash
  owner_eq hcopy := congrArg SignedFields.tenantID hcopy.2.signed
  copy_sealed hx hcopy := ⟨hcopy.1, hcopy.2.hashes h (mem_ownChain.1 hx).1⟩
  sealed_copy hr hseal := by
    obtain ⟨e, he, hcopy⟩ := hrows.copies h htrusted (mem_of_getElem? hr) hseal.2
    exact ⟨e.tenantID, e, mem_ownChain.2 ⟨he, rfl⟩, hseal.1, hcopy⟩

end

end

theorem Reports.of_unforged {chains : Bytes → List Entry} {rows : List Entry}
    {isSealed : ℕ → Entry → Prop} {Agree : ℕ → Entry → Entry → Prop} {hi : ℕ} {v : VerifyResult}
    {t : Bytes} (hrows : Unforged prevHash hash tenantID chains isSealed Agree rows)
    (hchains : HashChains prevHash hash tenantID [] chains)
    (hfirst : ∀ r, rows[0]? = some r → r.tenantID = t)
    (h : Reports (PassesAt prevHash hash [] isSealed rows) 0 hi v) :
    Reports (AgreesAt Agree (chains t) rows) 0 hi v := by
  obtain ⟨hall, rfl⟩ | ⟨k, -, hk, hbefore, hfails, hvalid, hseq⟩ := h
  · have hagree := hrows.agreesAt_of_passesAt hchains hfirst fun k hk ↦ hall k (Nat.zero_le k) hk
    exact .inl ⟨fun k _ hk ↦ hagree k hk, rfl⟩
  · have hagree := hrows.agreesAt_of_passesAt hchains hfirst
      fun i hi ↦ hbefore i (Nat.zero_le i) hi
    refine .inr ⟨k, Nat.zero_le k, hk, fun i _ hi ↦ hagree i hi, fun hk ↦ hfails ?_, hvalid, hseq⟩
    exact (hrows.passesAt_iff hchains hfirst hagree).2 hk

def Written (env : LedgerEnv) (log : List Entry) : Prop :=
  (∃ calls, log = appended (answers (MemStore.append env) .empty calls)) ∨
    ∃ calls, log = appended (answers (PG.append env) [] calls)

theorem Written.wellChained {env : LedgerEnv} {log : List Entry} (h : Written env log) :
    WellChained env.protocol log := by
  obtain ⟨calls, rfl⟩ | ⟨calls, rfl⟩ := h
  · exact (MemStore.tracks_run env calls).chained
  · exact (PG.tracks_run env calls).chained

theorem PG.tenantID_of_mem_selectRange {table : AuditEntries} {ns t : Bytes} {fromSeq toSeq : ℤ}
    {e : Entry} (h : e ∈ selectRange table ns t fromSeq toSeq) : e.tenantID = t := by
  have hmem := mem_of_mem_filter ((mem_insertionSort _).1 h)
  obtain ⟨r, hr, rfl⟩ := mem_map.1 hmem
  have htest := (mem_filter.1 hr).2
  rw [Bool.and_eq_true, decide_eq_true_eq, decide_eq_true_eq] at htest
  exact htest.2

theorem tampering_reported (env : LedgerEnv) (log : List Entry) (hlog : Written env log)
    (htrusted : Trusted env.protocol log) (t : Bytes) (toSeq : ℤ) (hto : 1 ≤ toSeq) :
    (∀ rows, Presented env.protocol log rows → (∀ r, rows[0]? = some r → r.tenantID = t) →
        Reports (AgreesAt CopiesAt (ownChain t log) rows) 0 toSeq.toNat
          (verifyMemChain rows env.protocol 1 toSeq)) ∧
    ∀ table rows, rows = PG.selectRange table env.protocol.namespaceID t 1 toSeq →
      Presented env.protocol log rows →
        Reports (AgreesAt CopiesInPlace (ownChain t log) rows) 0 (max rows.length toSeq.toNat)
          (PG.verifyRangeExec table env.protocol env.protocol.namespaceID t 1 toSeq []) := by
  have hchained := hlog.wellChained
  have hchains := hchained.hashChains htrusted
  refine ⟨fun rows hrows hfirst ↦ ?_, ?_⟩
  · exact (verifyMemChain_reports env.protocol rows le_rfl hto).of_unforged
      (hrows.unforged_mem hchained htrusted) hchains hfirst
  · rintro table rows rfl hrows
    have hreports := verifyRangeLoop_reports env.protocol toSeq
      (PG.selectRange table env.protocol.namespaceID t 1 toSeq) [] _ rfl
    refine Reports.of_unforged (hrows.unforged_range hchained htrusted) hchains ?_ hreports
    exact fun r hr ↦ PG.tenantID_of_mem_selectRange (mem_of_getElem? hr)

def loginLog : List Entry :=
  appended (answers (MemStore.append checksumEnv) .empty
    [some (loginEntry "ev-1" "u-1" "t-1" unixEpoch), some (loginEntry "ev-2" "u-1" "t-1" unixEpoch),
      some (loginEntry "ev-1" "u-9" "t-2" unixEpoch)])

def editedRows : List Entry :=
  (ownChain (asciiBytes "t-1") loginLog).modify 1 fun e ↦ { e with actorID := asciiBytes "u-2" }

def editedTable : PG.AuditEntries := editedRows.map fun e ↦ ⟨asciiBytes "audit_core", e⟩

theorem loginLog_trusted : Trusted checksumEnv.protocol loginLog where
  faithful := by decide +kernel
  collisionFree e he e' he' heq := by
    have hnodup : (loginLog.map hash).Nodup := by decide +kernel
    rw [inj_on_of_nodup_map hnodup he he' heq]

theorem Presented.of_mem {p : Protocol} {log rows : List Entry} (h : Trusted p log)
    (hrows : ∀ r ∈ rows, r ∈ log) : Presented p log rows where
  times r hr := (h.faithful r (hrows r hr)).2
  unforged r hr _ := ⟨r, hrows r hr, rfl⟩

theorem editedRows_presented : Presented checksumEnv.protocol loginLog editedRows where
  times := by decide +kernel
  unforged r hr hhash := by
    have hedits : ∀ r ∈ editedRows,
        r ∈ loginLog ∨ r.hash ≠ checksumEnv.protocol.computeHash r.prevHash r := by decide +kernel
    rcases hedits r hr with hgenuine | hedited
    · exact ⟨r, hgenuine, rfl⟩
    · exact absurd hhash hedited

theorem tampering_reported_edited :
    verifyMemChain editedRows checksumEnv.protocol 1 2 = .tampered 2 ∧
    Reports (AgreesAt CopiesAt (ownChain (asciiBytes "t-1") loginLog) editedRows) 0 2
      (verifyMemChain editedRows checksumEnv.protocol 1 2) ∧
    PG.verifyRangeExec editedTable checksumEnv.protocol checksumEnv.protocol.namespaceID
      (asciiBytes "t-1") 1 2 [] = .tampered 2 ∧
    ∃ rows, Reports (AgreesAt CopiesInPlace (ownChain (asciiBytes "t-1") loginLog) rows) 0 2
      (PG.verifyRangeExec editedTable checksumEnv.protocol checksumEnv.protocol.namespaceID
        (asciiBytes "t-1") 1 2 []) := by
  have hreported := tampering_reported checksumEnv loginLog (.inl ⟨_, rfl⟩) loginLog_trusted
    (asciiBytes "t-1") 2 (by decide)
  have hmem := hreported.1 editedRows editedRows_presented (by decide +kernel)
  have hrange := hreported.2 editedTable editedRows (by decide +kernel) editedRows_presented
  exact ⟨by decide +kernel, hmem, by decide +kernel, _, hrange⟩

/-- Presented as the chain of the first tenant, the genuine rows of the second one pass
`verifyMemChain`. -/
theorem other_tenant_chain_passes :
    Trusted checksumEnv.protocol loginLog ∧
    Presented checksumEnv.protocol loginLog (ownChain (asciiBytes "t-2") loginLog) ∧
    verifyMemChain (ownChain (asciiBytes "t-2") loginLog) checksumEnv.protocol 1 1 = .intact ∧
    (ownChain (asciiBytes "t-2") loginLog).map Entry.signed ≠
      ((ownChain (asciiBytes "t-1") loginLog).take 1).map Entry.signed :=
  ⟨loginLog_trusted, .of_mem loginLog_trusted fun _ hr ↦ (mem_ownChain.1 hr).1,
    by decide +kernel, by decide +kernel⟩

end GoCell.Audit
