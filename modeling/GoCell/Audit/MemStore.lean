import GoCell.Audit.Verification

namespace GoCell.Audit

open Foundation Kernel List

/-- What a ledger store is given: its protocol, SHA-256, and whether `strconv.ParseFloat` finds a
numeral within the range of a `float64`. -/
structure LedgerEnv where
  protocol : Protocol
  sha256 : Bytes → Bytes
  parsesFloat : Bytes → Bool

def errNilEntry : Err := validationFailed "audit ledger: Append requires non-nil Entry"

def errDuplicateFingerprint : Err :=
  ⟨.conflict, .auditLedgerAlreadyExists, "audit ledger: duplicate content fingerprint", []⟩

namespace LedgerEnv

variable (env : LedgerEnv)

/-- `validatePayloadJSON`, and `validateAuditPayloadJSON` of the PostgreSQL store. -/
def validatePayloadJSON (payload : Option Bytes) : Except Err Unit :=
  require (payload.getD [] = [] || decodesObject env.parsesFloat (payload.getD []))
    (validationFailed "audit ledger: payload must be a JSON object or null")

def contentFingerprint (e : Entry) : Bytes := hexEncode (env.sha256 e.eventID)

def entryDigest (text : Bytes) : Bytes := hexEncode ((env.sha256 text).take 16)

def deterministicEntryID (ns tenantID eventID : Bytes) : Bytes :=
  env.entryDigest (ns ++ 0 :: (tenantID ++ 0 :: eventID))

end LedgerEnv

def checksumEnv : LedgerEnv where
  protocol :=
    { namespaceID := asciiBytes "audit_core"
      mac := checksumHex
      namespace_valid := rfl
      mac_hex := isHexDigest_checksumHex }
  sha256 := checksumHex
  parsesFloat := fun _ ↦ true

structure MemChain where
  entries : List Entry
  fingerprints : List Bytes

structure MemStore where
  chains : Table Bytes MemChain

namespace MemStore

def empty : MemStore := ⟨∅⟩

def chainFor (s : MemStore) (t : Bytes) : MemStore × MemChain :=
  match s.chains.lookup t with
  | some c => (s, c)
  | none => (⟨s.chains.insert t ⟨[], []⟩⟩, ⟨[], []⟩)

variable (env : LedgerEnv)

def storedEntry (chain : List Entry) (e : Entry) : Entry :=
  let prevHash := (chain.getLast?.map Entry.hash).getD []
  let stored : Entry :=
    { e with
      id := env.deterministicEntryID env.protocol.namespaceID e.tenantID e.eventID
      seqNo := chain.length + 1
      prevHash := prevHash }
  { stored with hash := env.protocol.computeHash prevHash stored }

variable (s : MemStore)

/-- `Append`; the answer is the entry of the caller as it is written back, `none` a nil entry. -/
def append : Option Entry → MemStore × Except Err Entry
  | none => (s, .error errNilEntry)
  | some e =>
    match env.validatePayloadJSON e.payload with
    | .error err => (s, .error err)
    | .ok () =>
      let fp := env.contentFingerprint e
      let (s, chain) := s.chainFor e.tenantID
      if fp ∈ chain.fingerprints then (s, .error errDuplicateFingerprint)
      else
        let stored := storedEntry env chain.entries e
        (⟨s.chains.insert e.tenantID ⟨chain.entries ++ [stored], fp :: chain.fingerprints⟩⟩,
          .ok { e with
            id := stored.id, seqNo := stored.seqNo, prevHash := stored.prevHash,
            hash := stored.hash })

def chainOf (t : Bytes) : MemChain := (s.chains.lookup t).getD ⟨[], []⟩

theorem chainFor_snd (t : Bytes) : (s.chainFor t).2 = s.chainOf t := by
  unfold chainFor chainOf
  cases s.chains.lookup t <;> rfl

theorem lookup_chainFor_of_ne {t u : Bytes} (h : u ≠ t) :
    (s.chainFor t).1.chains.lookup u = s.chains.lookup u := by
  unfold chainFor
  cases s.chains.lookup t with
  | some c => rfl
  | none => exact AList.lookup_insert_ne h

theorem chainFor_fst_of_mem {s : MemStore} {t fp : Bytes}
    (h : fp ∈ (s.chainOf t).fingerprints) : (s.chainFor t).1 = s := by
  unfold chainFor
  unfold chainOf at h
  cases hlookup : s.chains.lookup t with
  | some c => rfl
  | none =>
    rw [hlookup] at h
    cases h

theorem append_cases (call : Option Entry) : (∃ err, append env s call = (s, .error err)) ∨
      ∃ e, call = some e ∧ env.contentFingerprint e ∉ (s.chainOf e.tenantID).fingerprints ∧
        (append env s call).2 = .ok (storedEntry env (s.chainOf e.tenantID).entries e) ∧
        (append env s call).1.chainOf e.tenantID =
          ⟨(s.chainOf e.tenantID).entries ++ [storedEntry env (s.chainOf e.tenantID).entries e],
            env.contentFingerprint e :: (s.chainOf e.tenantID).fingerprints⟩ ∧
        ∀ u ≠ e.tenantID, (append env s call).1.chains.lookup u = s.chains.lookup u := by
  cases call with
  | none => exact .inl ⟨_, rfl⟩
  | some e =>
    simp only [append, chainFor_snd]
    split
    · exact .inl ⟨_, rfl⟩
    · split
      · next hdup =>
        refine .inl ⟨errDuplicateFingerprint, ?_⟩
        rw [chainFor_fst_of_mem hdup]
      · next hnew =>
        refine .inr ⟨e, rfl, hnew, rfl, ?_, ?_⟩
        · simp only [chainOf, AList.lookup_insert, Option.getD_some]
        · intro u hu
          rw [AList.lookup_insert_ne hu, lookup_chainFor_of_ne s hu]

structure Tracks (env : LedgerEnv) (s : MemStore) (log : List Entry) : Prop where
  entries : ∀ t, (s.chainOf t).entries = ownChain t log
  fingerprints : ∀ t, ∀ e ∈ ownChain t log, env.contentFingerprint e ∈ (s.chainOf t).fingerprints
  chained : WellChained env.protocol log

theorem tracks_empty : Tracks env empty [] where
  entries _ := rfl
  fingerprints _ _ h := by cases h
  chained := .nil

theorem Tracks.append {env : LedgerEnv} {s : MemStore} {log : List Entry} (h : Tracks env s log)
    (call : Option Entry) :
    Tracks env (s.append env call).1 (log ++ appended [(s.append env call).2]) := by
  obtain ⟨err, herr⟩ | ⟨e, rfl, hnew, hanswer, hchain, hother⟩ := append_cases env s call
  · rw [herr, show appended [(.error err : Except Err Entry)] = [] from rfl, append_nil]
    exact h
  · generalize hstored : storedEntry env (s.chainOf e.tenantID).entries e = stored at *
    have htenant : stored.tenantID = e.tenantID := by rw [← hstored]; rfl
    have hfp : env.contentFingerprint stored = env.contentFingerprint e := by rw [← hstored]; rfl
    have happended : appended [(s.append env (some e)).2] = [stored] := by
      rw [hanswer]
      rfl
    have hunchanged : ∀ u, stored.tenantID ≠ u →
        (s.append env (some e)).1.chainOf u = s.chainOf u := by
      intro u hu
      rw [chainOf, chainOf, hother u fun heq ↦ hu (htenant.trans heq.symm)]
    rw [happended]
    refine ⟨fun t ↦ ?_, fun t x hx ↦ ?_, ?_⟩
    · rw [ownChain_concat]
      split_ifs with ht
      · obtain rfl : e.tenantID = t := htenant.symm.trans ht
        rw [hchain, h.entries]
      · rw [hunchanged t ht, h.entries]
    · rw [ownChain_concat] at hx
      split_ifs at hx with ht
      · obtain rfl : e.tenantID = t := htenant.symm.trans ht
        rw [hchain]
        obtain hx | hx := mem_append.1 hx
        · exact mem_cons_of_mem _ (h.fingerprints _ x hx)
        · rw [mem_singleton.1 hx, hfp]
          exact mem_cons_self
      · rw [hunchanged t ht]
        exact h.fingerprints t x hx
    · refine h.chained.concat ?_ ?_ ?_ ?_
      · rw [htenant, ← h.entries, ← hstored]
        rfl
      · rw [htenant, ← h.entries, ← hstored]
        rfl
      · rw [← hstored]
        rfl
      · intro x hx heq
        rw [htenant] at hx
        apply hnew
        have hmem := h.fingerprints _ x hx
        rwa [LedgerEnv.contentFingerprint, heq, ← LedgerEnv.contentFingerprint, hfp] at hmem

theorem tracks_run (calls : List (Option Entry)) : Tracks env (after (append env) empty calls)
      (appended (answers (append env) empty calls)) :=
  log_run (fun _ _ call h ↦ h.append call) calls (tracks_empty env)

theorem memPasses_of_wellChained {p : Protocol} {log : List Entry} (h : WellChained p log)
    (t : Bytes) {k : ℕ} (hk : k < (ownChain t log).length) : memPasses p (ownChain t log) k := by
  have hget := getElem?_eq_getElem hk
  refine ⟨_, hget, h.linked t k _ hget, ?_⟩
  exact h.hashed _ (mem_ownChain.1 (mem_of_getElem? hget)).1

theorem append_keeps_chains (calls : List (Option Entry)) :
    (∀ t, ∀ chain, chain = ((after (append env) empty calls).chainOf t).entries →
      (∀ (k : ℕ) (e : Entry), chain[k]? = some e → e.seqNo = k + 1 ∧
        e.prevHash = linkBefore Entry.hash [] chain k ∧
        e.hash = env.protocol.computeHash e.prevHash e ∧ e.tenantID = t) ∧
      (chain.map Entry.eventID).Nodup ∧
      ∀ fromSeq toSeq : ℤ, 1 ≤ fromSeq → fromSeq ≤ toSeq → toSeq ≤ chain.length →
        verifyMemChain chain env.protocol fromSeq toSeq = .intact) ∧
    ∀ s, s = after (append env) empty calls → ∀ e : Entry,
      (∀ call err, (s.append env call).2 = .error err → (s.append env call).1 = s) ∧
      (∀ x ∈ (s.chainOf e.tenantID).entries, x.eventID = e.eventID →
        ∃ err, s.append env (some e) = (s, .error err)) ∧
      ∀ stored, (s.append env (some e)).2 = .ok stored →
        ((s.append env (some e)).1.chainOf e.tenantID).entries =
          (s.chainOf e.tenantID).entries ++ [stored] ∧
        ∀ u ≠ e.tenantID, (s.append env (some e)).1.chains.lookup u = s.chains.lookup u := by
  have hrun := tracks_run env calls
  refine ⟨?_, ?_⟩
  · rintro t chain rfl
    rw [hrun.entries]
    refine ⟨fun k e he ↦ ?_, hrun.chained.distinct t, fun fromSeq toSeq hfrom hto hlen ↦ ?_⟩
    · obtain ⟨hmem, htenant⟩ := mem_ownChain.1 (mem_of_getElem? he)
      exact ⟨hrun.chained.dense t k e he, hrun.chained.linked t k e he,
        hrun.chained.hashed e hmem, htenant⟩
    · refine (verifyMemChain_reports env.protocol _ hfrom hto).intact_of_all fun k _ hk ↦ ?_
      exact memPasses_of_wellChained hrun.chained t (by omega)
  · rintro s rfl e
    generalize after (append env) empty calls = s at *
    refine ⟨fun call err herr ↦ ?_, fun x hx heq ↦ ?_, fun stored hok ↦ ?_⟩
    · obtain ⟨err', h⟩ | ⟨e, -, -, hanswer, -⟩ := append_cases env s call
      · rw [h]
      · rw [hanswer] at herr
        cases herr
    · obtain h | ⟨e', he', hnew, -⟩ := append_cases env s (some e)
      · exact h
      · cases he'
        rw [hrun.entries] at hx
        have hmem := hrun.fingerprints _ x hx
        rw [LedgerEnv.contentFingerprint, heq] at hmem
        exact absurd hmem hnew
    · obtain ⟨err, h⟩ | ⟨e', he', -, hanswer, hchain, hother⟩ := append_cases env s (some e)
      · rw [h] at hok
        cases hok
      · cases he'
        rw [hanswer] at hok
        cases hok
        exact ⟨congrArg MemChain.entries hchain, hother⟩

end MemStore

end GoCell.Audit
