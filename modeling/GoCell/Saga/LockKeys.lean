import GoCell.Foundation.Separators
import GoCell.Kernel.Timestamps

namespace GoCell.Saga

open Foundation Kernel List

/-- The text `"%d:%s"` of a byte string and its length. -/
def lengthPrefixed (s : Bytes) : Bytes := decimalNat s.length ++ 0x3a :: s

def leaderElectLockKey (definitionID instanceID : Bytes) : Bytes :=
  asciiBytes "saga:" ++ (lengthPrefixed definitionID ++ 0x3a :: instanceID)

def tailerLockKey (cellID projectionID : Bytes) : Bytes :=
  asciiBytes "saga-journal-tailer:" ++ (lengthPrefixed cellID ++ 0x3a ::
    lengthPrefixed projectionID)

theorem colon_notMem_decimalNat (n : ℕ) : 0x3a ∉ decimalNat n :=
  fun hmem ↦ absurd (isNumeric_decimalNat n _ hmem) (by decide)

theorem lengthPrefixed_append_inj {s t rest rest' : Bytes}
    (h : lengthPrefixed s ++ rest = lengthPrefixed t ++ rest') : s = t ∧ rest = rest' := by
  simp only [lengthPrefixed, append_assoc, cons_append] at h
  obtain ⟨hlength, hrest⟩ :=
    split_first (colon_notMem_decimalNat _) (colon_notMem_decimalNat _) h
  exact append_inj hrest (decimalNat_inj hlength)

theorem lock_keys_disjoint_injective :
    Function.Injective2 leaderElectLockKey ∧ Function.Injective2 tailerLockKey ∧
      ∀ definitionID instanceID cellID projectionID,
        leaderElectLockKey definitionID instanceID ≠ tailerLockKey cellID projectionID := by
  refine ⟨?_, ?_, ?_⟩
  · intro definitionID definitionID' instanceID instanceID' h
    obtain ⟨hdefinition, hrest⟩ := lengthPrefixed_append_inj (append_cancel_left h)
    exact ⟨hdefinition, (cons.inj hrest).2⟩
  · intro cellID cellID' projectionID projectionID' h
    obtain ⟨hcell, hrest⟩ := lengthPrefixed_append_inj (append_cancel_left h)
    have hprojection := congrArg (· ++ []) (cons.inj hrest).2
    exact ⟨hcell, (lengthPrefixed_append_inj hprojection).1⟩
  · intro definitionID instanceID cellID projectionID h
    -- The fifth bytes are a colon and a hyphen.
    have hfifth : some (0x3a : UInt8) = some 0x2d := congrArg (·[4]?) h
    exact absurd hfifth (by decide)

end GoCell.Saga
