import GoCell.Foundation.Folds
import GoCell.HttpIdempotency.BufferingWriter

namespace GoCell.HttpIdempotency

open Foundation Idempotency Kernel List

namespace WriterCall

def passed : WriterCall → Bytes
  | .write b _ => b
  | .readFrom chunks _ => chunks.flatten
  | _ => []

def taken : WriterCall → Bytes
  | .write b accepted => b.take accepted
  | .readFrom chunks reads => (chunks.take reads).flatten
  | _ => []

def status : WriterCall → Option ℤ
  | .writeHeader code => if code < 200 then none else some code
  | .write _ _ => some 200
  | .readFrom _ _ => some 200
  | .header _ => none

def isBody : WriterCall → Bool
  | .write _ _ | .readFrom _ _ => true
  | .header _ | .writeHeader _ => false

/-- A `Write` or `ReadFrom` is called when `limit` bytes have been taken. -/
def calledFull (limit : ℤ) : ℕ → List WriterCall → Bool
  | _, [] => false
  | n, c :: calls => c.isBody && limit ≤ n || calledFull limit (n + c.taken.length) calls

/-- The writer below accepts every byte of a `Write` and reads the source of a `ReadFrom` to its
end. -/
def Complete : WriterCall → Prop
  | .write b accepted => b.length ≤ accepted
  | .readFrom chunks reads => (chunks.drop reads).flatten = []
  | _ => True

instance : DecidablePred Complete
  | .write _ _ => inferInstanceAs (Decidable (_ ≤ _))
  | .readFrom _ _ => inferInstanceAs (Decidable (_ = _))
  | .header _ => .isTrue trivial
  | .writeHeader _ => .isTrue trivial

theorem taken_append_rest (c : WriterCall) : ∃ rest, c.passed = c.taken ++ rest ∧
    (rest = [] ↔ c.Complete) := by
  cases c with
  | header | writeHeader => exact ⟨[], rfl, by simp [Complete]⟩
  | write b accepted =>
    refine ⟨b.drop accepted, (take_append_drop accepted b).symm, ?_⟩
    simp [Complete]
  | readFrom chunks reads =>
    refine ⟨(chunks.drop reads).flatten, ?_, Iff.rfl⟩
    simp only [passed, taken]
    rw [← flatten_append, take_append_drop]

end WriterCall

open WriterCall

variable (calls : List WriterCall)

def passedBody : Bytes := calls.flatMap passed

def passedStatus : ℤ := (calls.findSome? status).getD 200

theorem passed_eq_taken_iff : calls.flatMap taken = passedBody calls ↔ ∀ c ∈ calls, c.Complete := by
  have hle : ∀ c ∈ calls, c.taken.length ≤ c.passed.length := by
    intro c _
    obtain ⟨rest, hpassed, -⟩ := c.taken_append_rest
    rw [hpassed, length_append]
    omega
  refine eq_comm.trans ((append_flatMap_eq_flatMap_iff [] hle).trans ((and_iff_right rfl).trans ?_))
  refine forall₂_congr fun c _ ↦ ?_
  obtain ⟨rest, hpassed, hcomplete⟩ := c.taken_append_rest
  rw [hpassed, ← hcomplete]
  exact append_right_eq_self

namespace BufferingWriter

variable {w : BufferingWriter}

/-- The writer has taken `x` and kept what the limit allows; `late` says that it was called when the
buffer was full. -/
structure Holds (limit : ℤ) (x : Bytes) (late : Prop) (w : BufferingWriter) : Prop where
  maxBody : w.maxBody = limit
  buf : w.buf = x.take limit.toNat
  oversized : w.oversized = true ↔ late ∨ 0 ≤ limit ∧ limit < x.length
  full : late → limit ≤ x.length
  empty : limit < 0 → late ∨ x = []

variable {limit : ℤ} {x : Bytes} {late : Prop}

section

variable (h : w.Holds limit x late)
include h

theorem Holds.fits (hw : w.oversized = false) : w.buf = x := by
  rw [← Bool.not_eq_true, h.oversized, not_or] at hw
  refine h.buf.trans (take_of_length_le ?_)
  by_cases hlimit : limit < 0
  · rw [(h.empty hlimit).resolve_left hw.1]
    exact Nat.zero_le _
  · omega

theorem Holds.committed : w.commit.Holds limit x late := by
  unfold commit
  split
  · exact h
  · exact { h with }

theorem Holds.header (code : ℤ) : (w.writeHeaderHook code).Holds limit x late := by
  unfold writeHeaderHook
  split
  · exact h
  · split
    · exact h
    · exact { h with }

theorem Holds.append (p : Bytes) :
    (w.appendToBuffer p).Holds limit (x ++ p) (late ∨ limit ≤ x.length) := by
  obtain rfl := h.maxBody
  have hlength : (x ++ p).length = x.length + p.length := length_append
  have hfull : late ∨ w.maxBody ≤ x.length → w.maxBody ≤ (x ++ p).length := by
    rintro (hlate | hle)
    · have := h.full hlate
      omega
    · omega
  have hempty : w.maxBody < 0 → (late ∨ w.maxBody ≤ x.length) ∨ x ++ p = [] :=
    fun _ ↦ .inl (.inr (by omega))
  have hkept (hle : w.maxBody ≤ x.length) : w.buf = (x ++ p).take w.maxBody.toNat := by
    rw [h.buf, take_append_of_le_length (by omega)]
  unfold appendToBuffer available
  split
  · next hw =>
    have hle : w.maxBody ≤ x.length := (h.oversized.1 hw).elim h.full fun hlt ↦ hlt.2.le
    exact ⟨rfl, hkept hle, by simp [hw, hle], hfull, hempty⟩
  · next hw =>
    have hbuf := h.fits (by simpa using hw)
    rw [hbuf]
    split
    · next hroom =>
      have hle : w.maxBody ≤ x.length := by omega
      exact ⟨rfl, hbuf ▸ hkept hle, by simp [hle], hfull, hempty⟩
    · next hroom =>
      have hx : x.length ≤ w.maxBody.toNat := by omega
      split
      · next hp =>
        have hall : (x ++ p).length ≤ w.maxBody.toNat := by omega
        refine ⟨rfl, (take_of_length_le hall).symm, ?_, hfull, hempty⟩
        have hlate : ¬late := fun hlate ↦ hw (h.oversized.2 (.inl hlate))
        simp only [hw, hlate, false_or, Bool.false_eq_true, false_iff]
        omega
      · next hp =>
        refine ⟨rfl, ?_, iff_of_true rfl (.inr (by omega)), hfull, hempty⟩
        have hrest : w.maxBody.toNat - x.length = (w.maxBody - x.length).toNat := by omega
        rw [take_append, take_of_length_le hx, hrest]

theorem Holds.teeReads (hlimit : 0 ≤ limit) (chunks : List Bytes) :
    (chunks.foldl teeRead w).Holds limit (x ++ chunks.flatten) late := by
  induction chunks generalizing w x with
  | nil => simpa using h
  | cons chunk chunks ih =>
    rw [foldl_cons, flatten_cons, ← append_assoc]
    refine ih ?_
    unfold teeRead
    split
    · next hempty => simpa [hempty] using h
    · next hne =>
      have hpos := length_pos_iff.2 hne
      obtain ⟨hmax, hbuf, hover, hfull, -⟩ := h.append chunk
      refine ⟨hmax, hbuf, hover.trans ?_, fun hlate ↦ hfull (.inl hlate), by omega⟩
      rw [length_append]
      grind

theorem Holds.step (c : WriterCall) :
    (w.call c).Holds limit (x ++ c.taken) (late ∨ c.isBody = true ∧ limit ≤ x.length) := by
  cases c with
  | header hdr =>
    have hheader : Holds limit x late { w with header := hdr } :=
      { h with }
    simpa [isBody, taken, call] using hheader
  | writeHeader code =>
    simpa [isBody, taken, call] using h.header code
  | write b accepted =>
    simpa [isBody, taken, call, writeHook] using
      h.committed.append (b.take accepted)
  | readFrom chunks reads =>
    simp only [isBody, call, readFromHook, true_and]
    split
    · next hfull =>
      have heq : { w.commit with oversized := true } =
          w.commit.appendToBuffer (WriterCall.readFrom chunks reads).taken := by
        unfold appendToBuffer
        split
        · next hover => rw [← hover]
        · next hover => rw [if_pos (hfull.resolve_left hover)]
      rw [heq]
      exact h.committed.append _
    · next hroom =>
      rw [not_or, available, h.committed.maxBody] at hroom
      have hbuf := h.committed.fits (by simpa using hroom.1)
      rw [hbuf] at hroom
      have hlt : ¬limit ≤ x.length := by omega
      simpa [hlt, taken] using h.committed.teeReads (by omega) (chunks.take reads)

theorem Holds.steps (calls : List WriterCall) :
    (calls.foldl call w).Holds limit (x ++ calls.flatMap taken)
      (late ∨ calledFull limit x.length calls = true) := by
  induction calls generalizing w x late with
  | nil => simpa [calledFull] using h
  | cons c calls ih => simpa [calledFull, or_assoc] using ih (h.step c)

end

theorem run_holds (maxBody : ℤ) (calls : List WriterCall) :
    (run maxBody calls).Holds maxBody (calls.flatMap taken)
      (calledFull maxBody 0 calls = true) := by
  have hstart : Holds maxBody [] False { maxBody := maxBody } := by
    refine ⟨rfl, take_nil.symm, ?_, nofun, fun _ ↦ .inr rfl⟩
    simp
  simpa [run] using hstart.steps calls

/-- With a writer below that takes everything, the buffer holds the first bytes up to the limit. The
flag is exact unless `Write` or `ReadFrom` is called on a full buffer and brings nothing. -/
theorem oversized_exact_iff (maxBody : ℤ) (calls : List WriterCall) (h : ∀ c ∈ calls, c.Complete) :
    (run maxBody calls).buf = (passedBody calls).take maxBody.toNat ∧
      (((run maxBody calls).oversized = true ↔ maxBody < (passedBody calls).length) ↔
        (calledFull maxBody 0 calls = true → maxBody < (passedBody calls).length) ∧
          (maxBody < 0 → calledFull maxBody 0 calls = true)) := by
  have hholds := run_holds maxBody calls
  rw [(passed_eq_taken_iff calls).2 h] at hholds
  refine ⟨hholds.buf, ?_⟩
  rw [hholds.oversized]
  constructor
  · intro hexact
    refine ⟨fun hfull ↦ hexact.1 (.inl hfull), fun hneg ↦ ?_⟩
    exact (hexact.2 (by omega)).resolve_right fun hlt ↦ by omega
  · rintro ⟨hfull, hneg⟩
    refine ⟨fun hover ↦ hover.elim hfull And.right, fun hlt ↦ ?_⟩
    by_cases hlimit : maxBody < 0
    · exact .inl (hneg hlimit)
    · exact .inr ⟨by omega, hlt⟩

theorem oversized_exact_filled :
    (run 4 [.write (asciiBytes "ab") 2, .readFrom [asciiBytes "cd"] 1]).buf = asciiBytes "abcd" ∧
      (run 4 [.write (asciiBytes "ab") 2, .readFrom [asciiBytes "cd"] 1]).oversized = false := by
  obtain ⟨hbuf, hflag⟩ := oversized_exact_iff 4
    [.write (asciiBytes "ab") 2, .readFrom [asciiBytes "cd"] 1] (by decide)
  refine ⟨hbuf.trans (by decide), Bool.eq_false_iff.2 fun hover ↦ ?_⟩
  exact absurd ((hflag.2 (by decide)).1 hover) (by decide)

theorem empty_write_oversized :
    ¬∀ (maxBody : ℤ) (calls : List WriterCall), (∀ c ∈ calls, c.Complete) →
      ((run maxBody calls).oversized = true ↔ maxBody < (passedBody calls).length) := by
  intro h
  exact absurd (h 4 [.write (asciiBytes "abcd") 4, .write [] 0] (by decide)) (by decide)

theorem appendToBuffer_committed (p : Bytes) : (w.appendToBuffer p).didCommit = w.didCommit ∧
      (w.appendToBuffer p).statusCode = w.statusCode := by
  unfold appendToBuffer
  repeat' split
  all_goals exact ⟨rfl, rfl⟩

theorem foldl_teeRead_committed (chunks : List Bytes) :
    (chunks.foldl teeRead w).didCommit = w.didCommit ∧
      (chunks.foldl teeRead w).statusCode = w.statusCode := by
  induction chunks generalizing w with
  | nil => exact ⟨rfl, rfl⟩
  | cons chunk chunks ih =>
    rw [foldl_cons]
    have hread : (w.teeRead chunk).didCommit = w.didCommit ∧
        (w.teeRead chunk).statusCode = w.statusCode := by
      unfold teeRead
      split
      · exact ⟨rfl, rfl⟩
      · exact appendToBuffer_committed chunk
    rw [ih.1, ih.2]
    exact hread

theorem commit_committed : w.commit.didCommit = true ∧ w.commit.statusCode = w.statusCode := by
  unfold commit
  split
  · next h => exact ⟨h, rfl⟩
  · exact ⟨rfl, rfl⟩

theorem statusCode_of_body (hw : w.didCommit = false → w.statusCode = 200) :
    w.statusCode = if w.didCommit then w.statusCode else 200 := by
  split
  · rfl
  · next h => exact hw (by simpa using h)

theorem call_committed (c : WriterCall) (hw : w.didCommit = false → w.statusCode = 200) :
    (w.call c).didCommit = (w.didCommit || c.status.isSome) ∧
      (w.call c).statusCode = if w.didCommit then w.statusCode else c.status.getD 200 := by
  have hbody := statusCode_of_body hw
  cases c with
  | header hdr => exact ⟨(Bool.or_false _).symm, hbody⟩
  | writeHeader code =>
    simp only [call, writeHeaderHook, status]
    split
    · exact ⟨(Bool.or_false _).symm, hbody⟩
    · split
      · next hcommit => simp [hcommit]
      · next hcommit => simp [hcommit]
  | write b accepted =>
    obtain ⟨hcommit, hstatus⟩ := appendToBuffer_committed (w := w.commit) (b.take accepted)
    rw [commit_committed.1] at hcommit
    rw [commit_committed.2] at hstatus
    exact ⟨hcommit.trans (Bool.or_true _).symm, hstatus.trans hbody⟩
  | readFrom chunks reads =>
    simp only [call, readFromHook, status, Option.isSome_some, Bool.or_true, Option.getD_some]
    split
    · exact ⟨commit_committed.1, commit_committed.2.trans hbody⟩
    · obtain ⟨hcommit, hstatus⟩ := foldl_teeRead_committed (w := w.commit) (chunks.take reads)
      exact ⟨hcommit.trans commit_committed.1, (hstatus.trans commit_committed.2).trans hbody⟩

theorem foldl_call_committed (calls : List WriterCall)
    (hw : w.didCommit = false → w.statusCode = 200) :
    (calls.foldl call w).statusCode =
      if w.didCommit then w.statusCode else passedStatus calls := by
  induction calls generalizing w with
  | nil => exact statusCode_of_body hw
  | cons c calls ih =>
    obtain ⟨hcommit, hstatus⟩ := call_committed c hw
    rw [foldl_cons]
    have hnext : (w.call c).didCommit = false → (w.call c).statusCode = 200 := by
      intro h
      rw [hcommit, Bool.or_eq_false_iff] at h
      rw [hstatus, h.1]
      simp only [Bool.false_eq_true, if_false]
      cases hc : c.status with
      | none => rfl
      | some code => simp [hc] at h
    rw [ih hnext, hcommit, hstatus]
    unfold passedStatus
    cases w.didCommit <;> cases hc : c.status <;> simp [hc]

end BufferingWriter

theorem toRecord_eq {maxBody : ℤ} {calls : List WriterCall} {now : Time} {resp : RecordedResponse}
    (h : (BufferingWriter.run maxBody calls).toRecord now = some resp) :
    resp.status = passedStatus calls ∧ resp.body = calls.flatMap taken := by
  unfold BufferingWriter.toRecord at h
  split at h
  · next hrecord =>
    cases h
    simp only [Bool.and_eq_true, Bool.not_eq_true'] at hrecord
    have hbuf := (BufferingWriter.run_holds maxBody calls).fits hrecord.2
    have hstatus := BufferingWriter.foldl_call_committed (w := { maxBody := maxBody }) calls
      fun _ ↦ rfl
    exact ⟨hstatus, hbuf⟩
  · cases h

/-- A recorded response has the status that the handler passed, and every replay returns it. Its
body is complete exactly when the writer below took everything. -/
theorem recorded_body_complete_iff {maxBody : ℤ} {calls : List WriterCall} {now : Time}
    {resp : RecordedResponse} (h : (BufferingWriter.run maxBody calls).toRecord now = some resp) :
    resp.status = passedStatus calls ∧ (resp.body = passedBody calls ↔ ∀ c ∈ calls, c.Complete) ∧
      ∀ (s s' : MemStore) (i : ℕ) (r : MemReceipt) (recordedAt stamp : Time) (doneTTL : Duration),
        s.receipts[i]? = some r →
        s.record recordedAt stamp (.lease i) resp doneTTL = (s', .ok ()) →
        ∀ (t : Time) (token : Option Bytes) (k : IdempotencyKey) (fingerprint : Bytes)
          (leaseTTL : Duration) (rec : RecordedResponse), k.flat = r.composed →
          (s'.claim t token k fingerprint leaseTTL).2 = .ok (.done rec) →
          rec.status = resp.status ∧ rec.body = resp.body := by
  obtain ⟨hstatus, hbody⟩ := toRecord_eq h
  refine ⟨hstatus, ?_, ?_⟩
  · rw [hbody]
    exact passed_eq_taken_iff calls
  · intro s s' i r recordedAt stamp doneTTL hr hrecord t token k fingerprint leaseTTL rec hk hclaim
    obtain ⟨e, -, -, hentries⟩ := MemStore.record_ok hr hrecord
    obtain ⟨e', he', hresponse⟩ := MemStore.claim_done hclaim
    rw [hentries, hk, Function.update_self] at he'
    cases he'
    cases hresponse
    exact ⟨rfl, rfl⟩

def wholeResponse : List WriterCall :=
  [.writeHeader 201, .write (asciiBytes "ok") 2, .readFrom [asciiBytes "!"] 1]

theorem recorded_body_complete_whole :
    ∃ resp, (BufferingWriter.run 262144 wholeResponse).toRecord 1 = some resp ∧
      resp.status = 201 ∧ resp.body = asciiBytes "ok!" := by
  have hrecord : (BufferingWriter.run 262144 wholeResponse).toRecord 1 =
      some ⟨201, asciiBytes "ok!", [], 1⟩ := by decide
  have hcomplete := recorded_body_complete_iff hrecord
  exact ⟨_, hrecord, hcomplete.1.trans (by decide), (hcomplete.2.1.2 (by decide)).trans (by decide)⟩

def cutOff : List WriterCall := [.write (asciiBytes "0123456789") 4]

def orderKey : IdempotencyKey := deriveKey "" "alice" "POST" "/orders" "k1"

def cutOffStore : MemStore :=
  let s := (MemStore.claim {} 0 (some (asciiBytes "t1")) orderKey (asciiBytes "f") 100).1
  (s.record 1 1 (.lease 0) ⟨200, asciiBytes "0123", [], 1⟩ 1000).1

theorem truncated_response_replayed :
    (BufferingWriter.run 262144 cutOff).toRecord 1 = some ⟨200, asciiBytes "0123", [], 1⟩ ∧
      passedBody cutOff = asciiBytes "0123456789" ∧
      (cutOffStore.claim 2 (some (asciiBytes "t2")) orderKey (asciiBytes "f") 100).2 =
        .ok (.done ⟨200, asciiBytes "0123", [], 1⟩) := by
  decide

def headerIdempotencyReplayed : Bytes := asciiBytes "Idempotency-Replayed"

/-- What a header map, given by its entries, holds under `name`. -/
def Header.values (h : Header) (name : Bytes) : List Bytes :=
  h.flatMap fun kv ↦ if kv.1 = name then kv.2 else []

section

variable (canonical : Bytes → Bytes)

/-- `Header.Add`; `canonical` is `CanonicalMIMEHeaderKey`. -/
def addHeader (name : Bytes) (w : Bytes → List Bytes) (v : Bytes) : Bytes → List Bytes :=
  Function.update w (canonical name) (w (canonical name) ++ [v])

/-- The header map with which `replayResponse` writes `h` when `outer` is already on the writer. -/
def replayHeader (outer : Bytes → List Bytes) (h : Header) : Bytes → List Bytes :=
  Function.update (h.foldl (fun w kv ↦ kv.2.foldl (addHeader canonical kv.1) w) outer)
    headerIdempotencyReplayed [asciiBytes "true"]

/-- The writer holds nothing under `name` before the replay and no other recorded name is turned
into it; a name that is not canonical is not replayed, so it has to be there before. -/
def ReplaysOnly (outer : Bytes → List Bytes) (h : Header) (name : Bytes) : Prop :=
  outer name = (if canonical name = name then [] else h.values name) ∧
    ∀ kv ∈ h, kv.1 ≠ name → canonical kv.1 = name → kv.2 = []

variable {canonical} {outer : Bytes → List Bytes} {h : Header} {name : Bytes}

theorem foldl_addHeader (k : Bytes) (vv : List Bytes) :
    vv.foldl (addHeader canonical k) outer name =
      outer name ++ if canonical k = name then vv else [] := by
  induction vv generalizing outer with
  | nil => simp
  | cons v vv ih =>
    rw [foldl_cons, ih, addHeader]
    by_cases hk : canonical k = name
    · simp [← hk]
    · simp [hk, Function.update_of_ne (Ne.symm hk)]

theorem foldl_replayed : h.foldl (fun w kv ↦ kv.2.foldl (addHeader canonical kv.1) w) outer name =
    outer name ++ h.flatMap fun kv ↦ if canonical kv.1 = name then kv.2 else [] := by
  induction h generalizing outer with
  | nil => exact (append_nil _).symm
  | cons kv h ih => rw [foldl_cons, ih, foldl_addHeader, flatMap_cons, append_assoc]

theorem values_filterSensitiveHeaders (hname : name ∉ sensitiveResponseHeaders.map asciiBytes) :
    (filterSensitiveHeaders h).values name = h.values name := by
  unfold filterSensitiveHeaders Header.values
  induction h with
  | nil => rfl
  | cons kv h ih =>
    by_cases hkv : kv.1 = name
    · rw [filter_cons_of_pos (by simpa [hkv] using hname), flatMap_cons, flatMap_cons, ih]
    · rw [filter_cons, flatMap_cons, ← ih]
      split <;> simp [hkv]

variable (hcanon : ∀ k, canonical (canonical k) = canonical k)
include hcanon

theorem replayHeader_eq_values_iff (hname : name ≠ headerIdempotencyReplayed) :
    replayHeader canonical outer h name = h.values name ↔ ReplaysOnly canonical outer h name := by
  rw [replayHeader, Function.update_of_ne hname, foldl_replayed, ReplaysOnly]
  by_cases hk : canonical name = name
  · have hle : ∀ kv ∈ h, (if kv.1 = name then kv.2 else []).length ≤
        (if canonical kv.1 = name then kv.2 else []).length := by
      intro kv _
      by_cases hkv : kv.1 = name
      · simp [hkv, hk]
      · simp [hkv]
    have hnil := append_flatMap_eq_flatMap_iff (outer name) hle
    refine hnil.trans (and_congr (by rw [if_pos hk]) (forall₂_congr fun kv _ ↦ ?_))
    by_cases hkv : kv.1 = name
    · simp [hkv, hk]
    · simp [hkv]
  · have hnone : ∀ k, canonical k ≠ name := fun k heq ↦ hk (heq ▸ hcanon k)
    have hempty : (h.flatMap fun _ ↦ ([] : List Bytes)) = [] := flatMap_eq_nil_iff.2 fun _ _ ↦ rfl
    simp [hnone, hempty]

/-- A recorded name comes out with exactly its values when the replay puts nothing else under it;
the replay has the other headers of the original response when this holds for every name. -/
theorem replayed_header_exact_iff (outer : Bytes → List Bytes) (rec : RecordedResponse) :
    ((∀ kv ∈ rec.header, replayHeader canonical outer rec.header kv.1 = rec.header.values kv.1) ↔
        ∀ kv ∈ rec.header, if kv.1 = headerIdempotencyReplayed then
          rec.header.values kv.1 = [asciiBytes "true"]
        else ReplaysOnly canonical outer rec.header kv.1) ∧
      ∀ (w : BufferingWriter) (now : Time), w.toRecord now = some rec →
        ((∀ name ∉ headerIdempotencyReplayed :: sensitiveResponseHeaders.map asciiBytes,
            replayHeader canonical outer rec.header name = w.capturedHeader.values name) ↔
          ∀ name ∉ headerIdempotencyReplayed :: sensitiveResponseHeaders.map asciiBytes,
            ReplaysOnly canonical outer rec.header name) := by
  constructor
  · refine forall₂_congr fun kv _ ↦ ?_
    split
    · next hname =>
      rw [hname, replayHeader, Function.update_self]
      exact eq_comm
    · next hname => exact replayHeader_eq_values_iff hcanon hname
  · intro w now hrecord
    obtain ⟨-, ⟨⟩⟩ := Option.ite_none_right_eq_some.1 hrecord
    refine forall₂_congr fun name hname ↦ ?_
    rw [mem_cons, not_or] at hname
    rw [← replayHeader_eq_values_iff hcanon hname.1, values_filterSensitiveHeaders hname.2]

end

def requestID : Header := [(asciiBytes "X-Request-Id", [asciiBytes "r-1"])]

theorem replayed_header_exact_unset :
    replayHeader id (fun _ ↦ []) requestID (asciiBytes "X-Request-Id") = [asciiBytes "r-1"] := by
  have hexact := (replayed_header_exact_iff (fun k ↦ (rfl : id (id k) = id k)) (fun _ ↦ [])
    ⟨200, [], requestID, 1⟩).1
  refine (hexact.2 ?_ _ mem_cons_self).trans (by decide)
  exact forall_mem_singleton.2 ⟨rfl, by decide⟩

theorem outer_header_doubled :
    ¬∀ (canonical : Bytes → Bytes) (outer : Bytes → List Bytes) (rec : RecordedResponse),
      (∀ k, canonical (canonical k) = canonical k) →
      ∀ kv ∈ rec.header, replayHeader canonical outer rec.header kv.1 = rec.header.values kv.1 :=
  fun h ↦ absurd (h id requestID.values ⟨200, [], requestID, 1⟩ (fun _ ↦ rfl) _ mem_cons_self)
    (by decide)

end GoCell.HttpIdempotency
