import GoCell.Kernel.Strings
import GoCell.Kernel.Timestamps

namespace GoCell.Saga

open Foundation Kernel List

def sagaJournalEventIDPrefix : Bytes := asciiBytes "saga-journal:"

def eventID (globalSeq : ℤ) (instanceID : Bytes) : Bytes :=
  sagaJournalEventIDPrefix ++ (decimal globalSeq ++ 0x40 :: instanceID)

def eventIDError (message : String) : Err :=
  validationFailed s!"sagaprojection.ParseSagaJournalEventID: {message}"

def parseSagaJournalEventID (eventID : Bytes) : Except Err (ℤ × Bytes) := do
  require (sagaJournalEventIDPrefix.isPrefixOf eventID)
    (eventIDError "missing saga-journal EventID prefix")
  match cutLast 0x40 (eventID.drop sagaJournalEventIDPrefix.length) with
  | none => .error (eventIDError "missing @ separator")
  | some (seq, instanceID) =>
    require (instanceID ≠ []) (eventIDError "empty instanceID suffix")
    match parseInt seq with
    | none => .error (eventIDError "globalSeq is not a base-10 int64")
    | some globalSeq =>
      require (0 < globalSeq) (eventIDError "globalSeq must be positive")
      return (globalSeq, instanceID)

theorem parseSagaJournalEventID_ok {s instanceID : Bytes} {globalSeq : ℤ} :
    parseSagaJournalEventID s = .ok (globalSeq, instanceID) ↔
      ∃ seq, s = sagaJournalEventIDPrefix ++ (seq ++ 0x40 :: instanceID) ∧ 0x40 ∉ instanceID ∧
        instanceID ≠ [] ∧ parseInt seq = some globalSeq ∧ 0 < globalSeq := by
  unfold parseSagaJournalEventID
  rw [check_ok, require_ok, isPrefixOf_iff_prefix]
  constructor
  · rintro ⟨⟨rest, rfl⟩, h⟩
    rw [drop_left] at h
    split at h
    · cases h
    · next seq instanceID' hcut =>
      rw [check_ok, require_ok, decide_eq_true_eq] at h
      obtain ⟨hne, h⟩ := h
      split at h
      · cases h
      · next globalSeq' hparse =>
        rw [check_ok, require_ok, decide_eq_true_eq] at h
        obtain ⟨hpos, heq⟩ := h
        obtain ⟨rfl, rfl⟩ := Prod.mk.inj (Except.ok.inj heq)
        obtain ⟨hrest, hsep⟩ := cutLast_some hcut
        exact ⟨seq, by rw [hrest], hsep, hne, hparse, hpos⟩
  · rintro ⟨seq, rfl, hsep, hne, hparse, hpos⟩
    refine ⟨prefix_append _ _, ?_⟩
    rw [drop_left, cutLast_append hsep]
    simp only [hparse]
    rw [check_ok, check_ok, require_ok, require_ok]
    exact ⟨decide_eq_true hne, decide_eq_true hpos, rfl⟩

theorem at_notMem_of_isSafeID {id : String} (h : isSafeID id = true) : 0x40 ∉ asciiBytes id := by
  rw [isSafeID, Bool.and_eq_true, all_eq_true] at h
  intro hmem
  obtain ⟨c, hc, heq⟩ := mem_map.1 hmem
  have hsafe := h.2 c hc
  have hnat : c.toNat = 0x40 := by
    have hbyte := congrArg UInt8.toNat heq
    rw [UInt8.toNat_ofNat', Nat.mod_eq_of_lt (lt_trans (ascii_of_isSafeChar hsafe) (by decide))]
      at hbyte
    exact hbyte
  obtain rfl : c = '@' := Char.toNat_inj.1 hnat
  exact absurd hsafe (by decide)

/-- A formatted id is read back, and an accepted string is the format of what it is read as iff its
number has neither a sign nor a leading zero. -/
theorem eventID_round_trip_iff (globalSeq : ℤ) (id : String) (s instanceID : Bytes) :
    (0 < globalSeq → InInt64 globalSeq → isSafeID id = true →
      parseSagaJournalEventID (eventID globalSeq (asciiBytes id)) =
        .ok (globalSeq, asciiBytes id)) ∧
    (parseSagaJournalEventID s = .ok (globalSeq, instanceID) → (eventID globalSeq instanceID = s ↔
        ∃ c ∈ (s.drop sagaJournalEventIDPrefix.length).head?, isLeadingDigit c = true)) := by
  constructor
  · intro hpos hint hsafe
    refine parseSagaJournalEventID_ok.2
      ⟨decimal globalSeq, rfl, at_notMem_of_isSafeID hsafe, ?_, parseInt_decimal hint, hpos⟩
    rw [isSafeID, Bool.and_eq_true, decide_eq_true_eq] at hsafe
    intro hempty
    rw [asciiBytes, map_eq_nil_iff, String.toList_eq_nil_iff] at hempty
    exact hsafe.1 hempty
  · intro h
    obtain ⟨seq, rfl, -, -, hparse, hpos⟩ := parseSagaJournalEventID_ok.1 h
    have hseq : seq ≠ [] := by
      rintro rfl
      cases hparse
    rw [eventID, append_cancel_left_eq, append_cancel_right_eq,
      decimal_parseInt_iff hparse hpos, drop_left, head?_append_of_ne_nil _ hseq]

theorem eventID_round_trip_sample :
    parseSagaJournalEventID (eventID 17 (asciiBytes "order-3")) = .ok (17, asciiBytes "order-3") ∧
      eventID 5 (asciiBytes "a") = asciiBytes "saga-journal:5@a" :=
  ⟨(eventID_round_trip_iff 17 "order-3" [] []).1 (by decide) (by decide) (by decide),
    ((eventID_round_trip_iff 5 "" (asciiBytes "saga-journal:5@a") (asciiBytes "a")).2 rfl).2
      ⟨0x35, rfl, rfl⟩⟩

/-- A sign or a leading zero is accepted and not given back. -/
theorem eventID_two_spellings :
    ¬∀ (s s' instanceID : Bytes) (globalSeq : ℤ),
      parseSagaJournalEventID s = .ok (globalSeq, instanceID) →
        parseSagaJournalEventID s' = .ok (globalSeq, instanceID) → s = s' := by
  intro h
  have heq := h (asciiBytes "saga-journal:+5@a") (asciiBytes "saga-journal:005@a")
    (asciiBytes "a") 5
    rfl rfl
  exact absurd heq (by decide)

end GoCell.Saga
