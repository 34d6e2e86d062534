import GoCell.Audit.Chains

namespace GoCell.Audit

open Foundation Kernel

structure VerifyResult where
  valid : Bool
  firstInvalidSeq : ℤ
  err : Option Err
  deriving DecidableEq

namespace VerifyResult

def intact : VerifyResult := ⟨true, -1, none⟩

def tampered (seq : ℤ) : VerifyResult := ⟨false, seq, none⟩

def failed (seq : ℤ) (e : Err) : VerifyResult := ⟨false, seq, some e⟩

end VerifyResult

open VerifyResult

def errVerifyRange : Err := validationFailed "audit ledger: Verify requires 1 <= fromSeq <= toSeq"

def errMissingEntry (details : List (String × DetailValue)) : Err :=
  ⟨.notFound, .auditLedgerNotFound, "audit ledger: entry not found during Verify", details⟩

/-- The loop of `verifyMemChain` over `n` entries from the index `idx` on. -/
def verifyMemLoop (p : Protocol) (entries : List Entry) : ℕ → ℕ → VerifyResult
  | _, 0 => intact
  | idx, n + 1 =>
    match entries[idx]? with
    | none => failed (idx + 1) (errMissingEntry [])
    | some e =>
      if e.prevHash ≠ linkBefore Entry.hash [] entries idx then tampered (idx + 1)
      else if e.hash ≠ p.computeHash e.prevHash e then tampered (idx + 1)
      else verifyMemLoop p entries (idx + 1) n

def verifyMemChain (entries : List Entry) (p : Protocol) (fromSeq toSeq : ℤ) : VerifyResult :=
  if fromSeq < 1 ∨ toSeq < fromSeq then failed fromSeq errVerifyRange
  else verifyMemLoop p entries (fromSeq - 1).toNat (toSeq - fromSeq + 1).toNat

/-- The loop of `verifyRangeExec` over the rows that the query returns. -/
def verifyRangeLoop (p : Protocol) (toSeq : ℤ) : ℤ → Bytes → List Entry → VerifyResult
  | expectedSeq, _, [] =>
    if expectedSeq ≤ toSeq then
      failed expectedSeq (errMissingEntry [("missingSeqNo", .int expectedSeq)])
    else intact
  | expectedSeq, prevHash, e :: rows =>
    if e.seqNo ≠ expectedSeq then tampered expectedSeq
    else if e.prevHash ≠ prevHash then tampered e.seqNo
    else if e.hash ≠ p.computeHash e.prevHash e then tampered e.seqNo
    else verifyRangeLoop p toSeq (expectedSeq + 1) e.hash rows

/-- A result that says which of the positions from `lo` up to `hi` is the first that does not
pass. -/
def Reports (Passes : ℕ → Prop) (lo hi : ℕ) (v : VerifyResult) : Prop :=
  ((∀ k, lo ≤ k → k < hi → Passes k) ∧ v = intact) ∨
    ∃ k, lo ≤ k ∧ k < hi ∧ (∀ i, lo ≤ i → i < k → Passes i) ∧ ¬Passes k ∧
      v.valid = false ∧ v.firstInvalidSeq = k + 1

section Reports

variable {Passes : ℕ → Prop} {lo hi : ℕ} {v : VerifyResult}

theorem reports_empty (h : hi ≤ lo) : Reports Passes lo hi intact :=
  .inl ⟨fun k hlo hhi ↦ absurd hhi (by omega), rfl⟩

theorem Reports.fail (hlt : lo < hi) (h : ¬Passes lo) (hvalid : v.valid = false)
    (hseq : v.firstInvalidSeq = lo + 1) : Reports Passes lo hi v :=
  .inr ⟨lo, le_rfl, hlt, fun i hlo hi ↦ absurd hi (by omega), h, hvalid, hseq⟩

theorem Reports.pass (h : Passes lo) (hrest : Reports Passes (lo + 1) hi v) :
    Reports Passes lo hi v := by
  have hfront : ∀ {n : ℕ}, (∀ k, lo + 1 ≤ k → k < n → Passes k) →
      ∀ k, lo ≤ k → k < n → Passes k := by
    intro n hall k hlo hk
    obtain rfl | hlt := Nat.eq_or_lt_of_le hlo
    · exact h
    · exact hall k hlt hk
  obtain ⟨hall, rfl⟩ | ⟨k, hlo, hhi, hbefore, hk, hvalid, hseq⟩ := hrest
  · exact .inl ⟨hfront hall, rfl⟩
  · exact .inr ⟨k, by omega, hhi, hfront hbefore, hk, hvalid, hseq⟩

theorem Reports.intact_of_all (h : Reports Passes lo hi v)
    (hall : ∀ k, lo ≤ k → k < hi → Passes k) : v = intact := by
  obtain ⟨-, rfl⟩ | ⟨k, hlo, hhi, -, hk, -⟩ := h
  · rfl
  · exact absurd (hall k hlo hhi) hk

end Reports

variable (p : Protocol)

def hashes (e : Entry) : Prop := e.hash = p.computeHash e.prevHash e

variable (entries : List Entry)

def memPasses : ℕ → Prop :=
  PassesAt Entry.prevHash Entry.hash [] (fun _ e ↦ hashes p e) entries

/-- What `verifyRangeExec` checks at a position of the rows it reads. -/
def rangePasses (rows : List Entry) : ℕ → Prop :=
  PassesAt Entry.prevHash Entry.hash [] (fun k e ↦ e.seqNo = k + 1 ∧ hashes p e) rows

theorem verifyMemLoop_reports (idx n : ℕ) :
    Reports (memPasses p entries) idx (idx + n) (verifyMemLoop p entries idx n) := by
  induction n generalizing idx with
  | zero => exact reports_empty (by omega)
  | succ n ih =>
    unfold verifyMemLoop
    have hlt : idx < idx + (n + 1) := by omega
    split
    · next hnone =>
      refine .fail hlt ?_ rfl rfl
      rintro ⟨e, he, -⟩
      rw [hnone] at he
      cases he
    · next e he =>
      have hsame : ∀ {x : Entry}, entries[idx]? = some x → x = e :=
        fun hx ↦ Option.some.inj (hx.symm.trans he)
      split
      · next hprev =>
        refine .fail hlt ?_ rfl rfl
        rintro ⟨x, hx, hlink, -⟩
        exact hprev (hsame hx ▸ hlink)
      · next hprev =>
        split
        · next hhash =>
          refine .fail hlt ?_ rfl rfl
          rintro ⟨x, hx, -, hseal⟩
          exact hhash (hsame hx ▸ hseal)
        · next hhash =>
          refine .pass ⟨e, he, not_not.1 hprev, not_not.1 hhash⟩ ?_
          have hrest := ih (idx + 1)
          rwa [show idx + 1 + n = idx + (n + 1) by omega] at hrest

theorem verifyMemChain_reports {fromSeq toSeq : ℤ} (hfrom : 1 ≤ fromSeq) (hto : fromSeq ≤ toSeq) :
    Reports (memPasses p entries) (fromSeq - 1).toNat toSeq.toNat
      (verifyMemChain entries p fromSeq toSeq) := by
  rw [verifyMemChain, if_neg (by omega)]
  have hloop := verifyMemLoop_reports p entries (fromSeq - 1).toNat (toSeq - fromSeq + 1).toNat
  rwa [show (fromSeq - 1).toNat + (toSeq - fromSeq + 1).toNat = toSeq.toNat by omega] at hloop

theorem verifyRangeLoop_reports (toSeq : ℤ) (rows pre post : List Entry)
    (hrows : rows = pre ++ post) :
    Reports (rangePasses p rows) pre.length (max rows.length toSeq.toNat)
      (verifyRangeLoop p toSeq (pre.length + 1) (linkBefore Entry.hash [] rows pre.length)
        post) := by
  induction post generalizing pre with
  | nil =>
    rw [List.append_nil] at hrows
    subst hrows
    unfold verifyRangeLoop
    split
    · refine .fail (by omega) ?_ rfl rfl
      rintro ⟨e, he, -⟩
      simp at he
    · exact reports_empty (by omega)
  | cons e post ih =>
    have hrow : rows[pre.length]? = some e := by simp [hrows]
    have hlt : pre.length < max rows.length toSeq.toNat := by
      have := (List.getElem?_eq_some_iff.1 hrow).1
      omega
    have hsame : ∀ {x : Entry}, rows[pre.length]? = some x → x = e :=
      fun hx ↦ Option.some.inj (hx.symm.trans hrow)
    unfold verifyRangeLoop
    split
    · next hseq =>
      refine .fail hlt ?_ rfl rfl
      rintro ⟨x, hx, -, hdense, -⟩
      exact hseq (hsame hx ▸ hdense)
    · next hseq =>
      rw [not_not] at hseq
      split
      · next hprev =>
        refine .fail hlt ?_ rfl hseq
        rintro ⟨x, hx, hlink, -⟩
        exact hprev (hsame hx ▸ hlink)
      · next hprev =>
        split
        · next hhash =>
          refine .fail hlt ?_ rfl hseq
          rintro ⟨x, hx, -, -, hseal⟩
          exact hhash (hsame hx ▸ hseal)
        · next hhash =>
          refine .pass ⟨e, hrow, not_not.1 hprev, hseq, not_not.1 hhash⟩ ?_
          have hrest := ih (pre ++ [e]) (by rw [hrows, List.append_assoc]; rfl)
          simp only [List.length_append, List.length_singleton] at hrest
          rw [linkBefore_succ hrow] at hrest
          exact_mod_cast hrest

end GoCell.Audit
