import GoCell.Outbox.CommandDispatch

namespace GoCell.Outbox

open Foundation Kernel Idempotency

variable {ρ : Type}

/-- The settlement that a result asks for: its receipt is committed if the dispatch succeeded and
released otherwise. -/
def CommandResult.owed (res : CommandResult ρ) : List (Settlement × ρ) :=
  match res.receipt with
  | none => []
  | some receipt => [(if res.err.isNone then .commit else .release, receipt)]

/-- What `Claim` hands out while a command is dispatched: a receipt with the settlement that the
answer of the handler asks for, or nothing unless the claim was acquired. -/
def acquired (a : Answers ρ) (key : String) (deadline : Option Time) : List (Settlement × ρ) :=
  match a.claim key commandLeaseTTL (doneTTL a.dispatchNow deadline) with
  | .ok (.acquired, receipt) =>
    [(if (a.dispatch (deadline.map fun d ↦ (key, d))).isNone then .commit else .release, receipt)]
  | _ => []

namespace CommandRelay

/-- The receipts that are obtained with `ClaimAcquired` while an entry is published. -/
def obtained (r : CommandRelay) (x : RelayEntry × Answers ρ) : List (Settlement × ρ) :=
  if x.1.routingTopic ∈ r.commands then
    match commandIdentity r.parseTime x.1 with
    | .ok (key, deadline) => acquired x.2 key deadline
    | .error _ => []
  else []

def storeMark (r : CommandRelay) (a : Answers ρ) (res : CommandResult ρ) : StoreMark :=
  let newAttempts := res.entry.attempts + 1
  match res.err with
  | none => .published res.entry.entry.id res.entry.leaseID
  | some err =>
    if err.permanent = true ∨ r.maxAttempts ≤ newAttempts then
      .dead res.entry.entry.id res.entry.leaseID newAttempts (r.sanitizeError err.message)
    else
      .retry res.entry.entry.id res.entry.leaseID newAttempts
        (a.now + r.retryDelay newAttempts a.rand) (r.sanitizeError err.message)

/-- The write-back of a result is answered with an error: by the `Commit` of its receipt or by the
store. -/
def answeredError (r : CommandRelay) (x : CommandResult ρ × Answers ρ) : Bool :=
  (x.1.err.isNone && x.1.receipt.isSome && !x.2.commit.isOk) ||
    !(x.2.mark (r.storeMark x.2 x.1)).isOk

def writeBackFails (r : CommandRelay) (x : RelayEntry × Answers ρ) : Bool :=
  r.answeredError (r.publishOne x.1 x.2, x.2)

section

variable (r : CommandRelay)
include r

theorem owed_publishOne (x : RelayEntry × Answers ρ) :
    (r.publishOne x.1 x.2).owed = r.obtained x := by
  obtain ⟨e, a⟩ := x
  unfold publishOne obtained
  split
  · rw [dispatchCommand]
    cases commandIdentity r.parseTime e with
    | error err => rfl
    | ok identity =>
      obtain ⟨key, deadline⟩ := identity
      simp only [dispatchClaimed, acquired]
      split <;> next heq => rw [heq]; rfl
  · cases a.marshal with
    | none | some => rfl

variable (a : Answers ρ)

theorem writeBackOne_calls (res : CommandResult ρ)
    (stats : PollStats) : (r.writeBackOne a res stats).1 = res.owed := by
  obtain ⟨entry, err, receipt, isCommand⟩ := res
  cases err <;> cases receipt <;> rfl

theorem handleFailedEntry_isOk {res : CommandResult ρ}
    {err : PublishError} (h : res.err = some err) (stats : PollStats) :
    (r.handleFailedEntry a res err stats).isOk = (a.mark (r.storeMark a res)).isOk := by
  unfold handleFailedEntry storeMark
  simp only [h]
  split
  · cases a.mark _ <;> rfl
  · cases a.mark _ <;> rfl

theorem publishedEntry_isOk {res : CommandResult ρ} (h : res.err = none) (stats : PollStats) :
    (publishedEntry a res stats).isOk = (a.mark (r.storeMark a res)).isOk := by
  unfold publishedEntry storeMark
  simp only [h]
  cases a.mark _ <;> rfl

theorem writeBackOne_isOk (res : CommandResult ρ) (stats : PollStats) :
    (r.writeBackOne a res stats).2.isOk = !r.answeredError (res, a) := by
  have hfailed := fun err (h : res.err = some err) ↦ r.handleFailedEntry_isOk a h stats
  have hpublished := fun h : res.err = none ↦ r.publishedEntry_isOk a h stats
  unfold writeBackOne answeredError
  cases herr : res.err with
  | some err =>
    cases res.receipt <;> simp [hfailed err herr]
  | none =>
    cases res.receipt with
    | none => simp [hpublished herr]
    | some =>
      cases a.commit with
      | error e => rfl
      | ok u => exact (hpublished herr).trans (by simp [Except.isOk, Except.toBool])

/-- The settlement calls are what each result asks for, up to the first write-back that fails. -/
theorem writeBackResults_calls (results : List (CommandResult ρ × Answers ρ)) (stats : PollStats) :
    (r.writeBackResults results stats).1 =
      (takeThrough r.answeredError results).flatMap fun x ↦ x.1.owed := by
  induction results generalizing stats with
  | nil => rfl
  | cons x rest ih =>
    obtain ⟨res, a⟩ := x
    have hcalls := r.writeBackOne_calls a res stats
    have hok := r.writeBackOne_isOk a res stats
    rw [writeBackResults, takeThrough]
    rcases hone : r.writeBackOne a res stats with ⟨calls, outcome⟩
    rw [hone] at hcalls hok
    cases outcome with
    | error err =>
      have hfails : r.answeredError (res, a) = true := by
        simpa [Except.isOk, Except.toBool] using hok
      rw [if_pos hfails]
      simpa using hcalls
    | ok stats =>
      have hfails : ¬r.answeredError (res, a) = true := by
        simpa [Except.isOk, Except.toBool] using hok
      rw [if_neg hfails, List.flatMap_cons, ← ih stats, ← hcalls]

theorem owed_publishBatch (batch : List (RelayEntry × Answers ρ)) :
    (r.publishBatch batch).flatMap (fun x ↦ x.1.owed) = batch.flatMap r.obtained := by
  rw [publishBatch, List.flatMap_map]
  exact List.flatMap_congr fun x _ ↦ r.owed_publishOne x

theorem settlements_prefix (batch : List (RelayEntry × Answers ρ)) :
    (r.writeBackResults (r.publishBatch batch) {}).1 <+: batch.flatMap r.obtained := by
  rw [writeBackResults_calls, ← owed_publishBatch]
  exact List.IsPrefix.flatMap (isPrefix_takeThrough r.answeredError (r.publishBatch batch)) _

end

/-- Every receipt of a batch is settled exactly once and the right way iff no entry with a receipt
comes after one whose write-back is answered with an error. -/
theorem receipts_settled_iff (r : CommandRelay) (batch : List (RelayEntry × Answers ρ)) :
    (r.writeBackResults (r.publishBatch batch) {}).1 = batch.flatMap r.obtained ↔
      batch.Pairwise fun x y ↦ r.writeBackFails x = true → r.obtained y = [] := by
  rw [writeBackResults_calls, ← owed_publishBatch, flatMap_takeThrough_eq_iff, publishBatch,
    List.pairwise_map]
  simp only [owed_publishOne, writeBackFails]

theorem writeBackOne_fakeStore (r : CommandRelay) (a : Answers ρ) (store : FakeStore)
    (res : CommandResult ρ) (stats : PollStats)
    (hmark : ∀ m, a.mark m = .ok (store.mark a.now m).2) :
    (r.writeBackOne a res stats).2 = (r.toRelay.writeBackOne a.now a.rand a.commit store
        ⟨res.entry, res.err, res.receipt.isSome, res.isCommand⟩ stats).map Prod.snd := by
  obtain ⟨entry, err, receipt, isCommand⟩ := res
  have hfailed : ∀ err, r.handleFailedEntry a ⟨entry, some err, receipt, isCommand⟩ err stats =
      (r.toRelay.handleFailedEntry a.now a.rand store
        ⟨entry, some err, receipt.isSome, isCommand⟩ err stats).map Prod.snd := by
    intro err
    unfold handleFailedEntry Relay.handleFailedEntry
    simp only [hmark]
    split
    · rfl
    · rfl
  cases err with
  | some err => cases receipt <;> exact hfailed err
  | none =>
    cases receipt with
    | none =>
      simp only [writeBackOne, publishedEntry, hmark]
      rfl
    | some =>
      simp only [writeBackOne, publishedEntry, hmark]
      cases hcommit : a.commit with
      | error | ok => rfl

def singleCommand : CommandRelay where
  batchSize := 10
  maxAttempts := 5
  claimTTL := 60000000000
  baseRetryDelay := 1000000000
  maxRetryDelay := 60000000000
  reclaimBatchSize := 100
  sanitizeError := id
  commands := ["command.device.reboot"]
  parseTime := fun _ ↦ none

def rebootEntry (id : String) : RelayEntry where
  claimed := ⟨⟨id, 0⟩, 0, "lease"⟩
  routingTopic := "command.device.reboot"
  aggregateID := id
  tenantID := ""
  metadata := fun key ↦ if key = commandIDMetadataKey then "evt" else ""

/-- The claim is acquired with the receipt `receipt`, the handler succeeds and so does `Commit`. -/
def acquiredAnswers (receipt : ℕ) (mark : Except Err Bool) : Answers ℕ where
  dispatchNow := 0
  claim := fun _ _ _ ↦ .ok (.acquired, receipt)
  dispatch := fun _ ↦ none
  marshal := none
  publish := none
  commit := .ok ()
  now := 0
  rand := 0
  mark := fun _ ↦ mark

/-- The store fails on the first of two dispatched commands: the receipt of the second one is
neither committed nor released. -/
theorem second_receipt_unsettled :
    let batch := [(rebootEntry "d1",
      acquiredAnswers 1 (.error ⟨.internal, .adapterPGQuery, "", []⟩)),
      (rebootEntry "d2", acquiredAnswers 2 (.ok true))]
    batch.flatMap singleCommand.obtained = [(.commit, 1), (.commit, 2)] ∧
      (singleCommand.writeBackResults (singleCommand.publishBatch batch) {}).1 =
        [(.commit, 1)] := by
  decide

end CommandRelay

end GoCell.Outbox
