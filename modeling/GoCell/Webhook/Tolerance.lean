import GoCell.Webhook.Signatures

namespace GoCell.Webhook

open Foundation Kernel

/-- The instant a number of seconds since 1970 names, before any reduction to 64 bits. -/
def instantOf (seconds : ℤ) : Time := (seconds + unixToInternal) * nanosPerSecond

theorem validateTimestamp_ok {v : Verifier} {now : Time} {timestamp : Bytes} :
    v.validateTimestamp now timestamp = .ok () ↔ ∃ tsInt, parseInt timestamp = some tsInt ∧
      let skew := timeSub now (timeUnix tsInt)
      (if skew < 0 then wrapInt64 (-skew) else skew) ≤ v.tolerance := by
  unfold Verifier.validateTimestamp
  cases parseInt timestamp with
  | none => simp
  | some tsInt => simp [require_ok]

theorem timeUnix_cases {seconds : ℤ} (h : InInt64 seconds) :
    timeUnix seconds = instantOf seconds ∨
      timeUnix seconds + 2 ^ 64 * nanosPerSecond = instantOf seconds := by
  unfold timeUnix instantOf
  by_cases hsum : InInt64 (seconds + unixToInternal)
  · exact .inl (by rw [wrapInt64_of_inInt64 hsum])
  · have hwrap : wrapInt64 (seconds + unixToInternal) + 2 ^ 64 = seconds + unixToInternal := by
      unfold InInt64 unixToInternal at *
      rw [wrapInt64_eq]
      omega
    exact .inr (by rw [← add_mul, hwrap])

theorem abs_skew {skew : ℤ} (h : |skew| < 2 ^ 63) :
    (if skew < 0 then wrapInt64 (-skew) else skew) = |skew| := by
  split
  · next hneg =>
    rw [abs_of_neg hneg] at h ⊢
    exact wrapInt64_of_inInt64 ⟨by omega, h⟩
  · next hneg => rw [abs_of_nonneg (by omega)]

theorem within_iff {now seconds tolerance : ℤ} (hseconds : InInt64 seconds)
    (htolerance : InInt64 tolerance) (hskew : let skew := timeSub now (timeUnix seconds)
      (if skew < 0 then wrapInt64 (-skew) else skew) ≤ tolerance) :
    |now - instantOf seconds| ≤ tolerance ↔ |now - instantOf seconds| < 2 ^ 63 := by
  refine ⟨fun h ↦ lt_of_le_of_lt h htolerance.2, fun h ↦ ?_⟩
  have hrange := abs_lt.1 h
  obtain heq | hwrapped := timeUnix_cases hseconds
  · have hsub : timeSub now (timeUnix seconds) = now - instantOf seconds := by
      rw [heq]
      exact if_pos ⟨hrange.1.le, hrange.2⟩
    simpa only [hsub, abs_skew h] using hskew
  · -- The wrapped instant lies so far back that the difference saturates.
    have hfar : 2 ^ 63 ≤ now - timeUnix seconds := by
      rw [← hwrapped, nanosPerSecond] at hrange
      omega
    have hafter : ¬now < timeUnix seconds := by omega
    have hsub : timeSub now (timeUnix seconds) = 2 ^ 63 - 1 :=
      (if_neg fun hin ↦ hin.2.not_ge hfar).trans (if_neg hafter)
    simp only [hsub] at hskew
    exact Int.le_trans (Int.le_sub_one_of_lt h) hskew

theorem verify_within_tolerance_iff (hmac : Bytes → Bytes → Bytes) (v : Verifier) (now : Time)
    (rawBody : Bytes) (headers : Headers) (source : Source) (htolerance : InInt64 v.tolerance)
    (hok : v.verify hmac now rawBody headers source = .ok ()) :
    ∃ seconds, parseInt headers.timestamp = some seconds ∧
      (|now - instantOf seconds| ≤ v.tolerance ↔ |now - instantOf seconds| < 2 ^ 63) := by
  obtain ⟨seconds, hparse, hskew⟩ := validateTimestamp_ok.1 (verify_ok.1 hok).2.2.1
  refine ⟨seconds, hparse, within_iff ?_ htolerance hskew⟩
  exact of_decide_eq_true (Option.filter_eq_some_iff.1 hparse).2

/-- A delivery whose timestamp lies 9223372037 seconds ahead of the clock. -/
def futureHeaders : Headers :=
  ⟨asciiBytes "evt_1", asciiBytes "9223372037", signatureSchemeV1 ++ 0x2c :: base64 (computeMAC
    sampleHMAC sampleSource.secret (asciiBytes "evt_1") (asciiBytes "9223372037") sampleObject)⟩

theorem futureHeaders_verify :
    defaultVerifier.verify sampleHMAC unixEpoch sampleObject futureHeaders sampleSource =
      .ok () := by
  rw [verify_ok]
  exact ⟨by decide, by decide, by decide, matchAnySignature_base64 _⟩

theorem verify_within_tolerance_iff_future : ∃ seconds,
    parseInt futureHeaders.timestamp = some seconds ∧
      (|unixEpoch - instantOf seconds| ≤ defaultVerifier.tolerance ↔
        |unixEpoch - instantOf seconds| < 2 ^ 63) :=
  verify_within_tolerance_iff _ _ _ _ _ _ (by decide) futureHeaders_verify

theorem far_future_timestamp_verifies : ¬∀ (hmac : Bytes → Bytes → Bytes) (v : Verifier)
    (now : Time) (rawBody : Bytes) (headers : Headers) (source : Source) (seconds : ℤ),
    InInt64 v.tolerance → v.verify hmac now rawBody headers source = .ok () →
      parseInt headers.timestamp = some seconds → |now - instantOf seconds| ≤ v.tolerance := by
  intro h
  have hlate := h _ _ _ _ _ _ 9223372037 (by decide) futureHeaders_verify (by decide)
  revert hlate
  decide

end GoCell.Webhook
