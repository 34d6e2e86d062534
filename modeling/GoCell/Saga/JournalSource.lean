import GoCell.Foundation.FirstFailure
import GoCell.Kernel.JsonText
import GoCell.Saga.JournalEquivalence
import GoCell.Saga.Tailer

namespace GoCell.Saga

open Foundation Kernel List Option GlobalEvent

/-- The envelope that a carrier holds as JSON; `payload` is empty where it is left out. -/
structure SagaEventEnvelope where
  kind : EventKind
  stepName : SafeID
  payload : Bytes
  deriving DecidableEq

structure SagaProjectionEvent where
  globalSeq : ℕ
  instanceID : SafeID
  payload : SagaEventEnvelope
  occurredAt : Time
  deriving DecidableEq

/-- What `Replay` returns besides nil; `ε` are the errors of the callback. -/
inductive ReplayError (ε : Type)
  | canceled (err : Err)
  | loadSince (after limit : ℤ) (err : Err)
  | marshal (globalSeq : ℕ) (kind : EventKind)
  | callback (err : ε)
  deriving DecidableEq

/-- `none` if the payload cannot be marshaled. -/
def toCarrier (ge : GlobalEvent) : Option SagaProjectionEvent := do
  let payload ← if ge.event.payload = [] then some [] else compact ge.event.payload
  return ⟨ge.globalSeq, ge.instanceID, ⟨ge.event.kind, ge.event.stepName, payload⟩,
    ge.event.createdAt⟩

section Replay

variable {ε : Type} (fn : List SagaProjectionEvent → SagaProjectionEvent → Option ε)

/-- The loop over a batch; `fn` is the callback, whose answer may depend on the calls before. -/
def deliver : List GlobalEvent → ℤ → List SagaProjectionEvent →
    ℤ × List SagaProjectionEvent × Option (ReplayError ε)
  | [], cursor, calls => (cursor, calls, none)
  | ge :: batch, cursor, calls =>
    match toCarrier ge with
    | none => (cursor, calls, some (.marshal ge.globalSeq ge.event.kind))
    | some e =>
      match fn calls e with
      | some err => (cursor, calls ++ [e], some (.callback err))
      | none => deliver batch ge.globalSeq (calls ++ [e])

/-- `Replay` over a reader, with the calls of the callback; `ctxErr` is the error of the context and
`none` tells that the fuel has run out. -/
def replay (gr : ℤ → ℤ → Except Err (List GlobalEvent))
    (ctxErr : List SagaProjectionEvent → Option Err) :
    ℕ → ℤ → List SagaProjectionEvent → Option (List SagaProjectionEvent × Option (ReplayError ε))
  | 0, _, _ => none
  | fuel + 1, cursor, calls =>
    match ctxErr calls with
    | some err => some (calls, some (.canceled err))
    | none =>
      match gr cursor replayBatchSize with
      | .error err => some (calls, some (.loadSince cursor replayBatchSize err))
      | .ok batch =>
        match deliver fn batch cursor calls with
        | (_, calls, some err) => some (calls, some err)
        | (cursor, calls, none) =>
          if batch.length < replayBatchSize then some (calls, none)
          else replay gr ctxErr fuel cursor calls

end Replay

def Serves (gr : ℤ → ℤ → Except Err (List GlobalEvent)) (log : List GlobalEvent) : Prop :=
  Ascending GlobalEvent.globalSeq log ∧ ∀ afterGlobalSeq limit : ℕ, 0 < limit →
      gr afterGlobalSeq limit = .ok (loadSince log afterGlobalSeq limit)

def Carried (log : List GlobalEvent) (events : List SagaProjectionEvent) : Prop :=
  List.Forall₂ (fun ge e ↦ toCarrier ge = some e) log events

section

variable {ε : Type} (fn : List SagaProjectionEvent → SagaProjectionEvent → Option ε)
  {log batch rest : List GlobalEvent} {events : List SagaProjectionEvent}

theorem deliver_spec (hlog : Ascending globalSeq log) {n : ℕ}
    (hbatch : since globalSeq log n = batch ++ rest) (hevents : Carried batch events)
    (calls : List SagaProjectionEvent) :
    ∃ n' : ℕ, deliver fn batch n calls =
        (↑n', (callEach fn calls events).1, (callEach fn calls events).2.map .callback) ∧
      ((callEach fn calls events).2 = none → since globalSeq log n' = rest) := by
  induction hevents generalizing n calls with
  | nil => exact ⟨n, rfl, fun _ ↦ hbatch⟩
  | @cons ge e batch events hcarrier hevents ih =>
    have hnext := (upTo_next hlog hbatch).2
    rw [callEach]
    simp only [deliver, hcarrier]
    cases hfn : fn calls e with
    | some err => exact ⟨n, rfl, fun h ↦ by cases h⟩
    | none => exact ih hnext (calls ++ [e])

theorem replay_eq {gr : ℤ → ℤ → Except Err (List GlobalEvent)} (hgr : Serves gr log) {n fuel : ℕ}
    (hevents : Carried (since globalSeq log n) events)
    (hfuel : events.length < replayBatchSize * fuel) (calls : List SagaProjectionEvent) :
    replay fn gr (fun _ ↦ none) fuel n calls =
      some ((callEach fn calls events).1, (callEach fn calls events).2.map .callback) := by
  induction fuel generalizing n events calls with
  | zero => omega
  | succ fuel ih =>
    have hpage := hgr.2 n replayBatchSize (by decide)
    have hsplit := take_append_drop replayBatchSize (since globalSeq log n)
    have hsplit' := take_append_drop replayBatchSize events
    have hbatch : Carried ((since globalSeq log n).take replayBatchSize)
        (events.take replayBatchSize) := forall₂_take _ hevents
    have hrest : Carried ((since globalSeq log n).drop replayBatchSize)
        (events.drop replayBatchSize) := forall₂_drop _ hevents
    have hlength := hevents.length_eq
    obtain ⟨n', hdeliver, hcursor⟩ := deliver_spec fn hgr.1 hsplit.symm hbatch calls
    have hcalls := callEach_append fn calls (events.take replayBatchSize)
      (events.drop replayBatchSize)
    rw [hsplit'] at hcalls
    simp only [replay, hpage, loadSince, hdeliver]
    cases hcall : callEach fn calls (events.take replayBatchSize) with
    | mk calls' err =>
      rw [hcall] at hcalls hcursor
      cases err with
      | some err => simp only [hcalls, map_some]
      | none =>
        simp only [map_none]
        rw [length_take, hlength]
        by_cases hshort : events.length < replayBatchSize
        · -- a short page is the last one
          have hnil : events.drop replayBatchSize = [] := drop_eq_nil_of_le hshort.le
          simp only [hnil, callEach] at hcalls
          rw [if_pos (by omega), hcalls]
          rfl
        · rw [← hcursor rfl] at hrest
          have hleft : (events.drop replayBatchSize).length < replayBatchSize * fuel := by
            rw [length_drop, Nat.mul_succ] at *
            omega
          rw [if_neg (by omega), ih hrest hleft calls', hcalls]

theorem replay_terminates {gr : ℤ → ℤ → Except Err (List GlobalEvent)} (hgr : Serves gr log)
    {n : ℕ} (hevents : Carried (since globalSeq log n) events) :
    ∃ calls err, CalledUntil fn events calls err ∧ ∃ enough, ∀ fuel, enough ≤ fuel →
        replay fn gr (fun _ ↦ none) fuel n [] = some (calls, err.map .callback) := by
  refine ⟨_, _, callEach_calledUntil fn events, events.length + 1, fun fuel hfuel ↦ ?_⟩
  refine replay_eq fn hgr hevents ?_ []
  rw [replayBatchSize]
  omega

end

theorem isSome_toCarrier {ge : GlobalEvent}
    (h : validateObjectOrNull ge.event.payload = .ok ()) : (toCarrier ge).isSome = true := by
  unfold toCarrier
  by_cases hempty : ge.event.payload = []
  · rw [if_pos hempty]
    rfl
  · have hvalid : jsonValid ge.event.payload = true := by
      rw [validateObjectOrNull, if_neg (by simpa using hempty)] at h
      simp only [bind_ok, require_ok] at h
      obtain ⟨_, hvalid, -⟩ := h
      exact hvalid
    obtain ⟨payload, hcompact⟩ := isSome_iff_exists.1
      ((isSome_compact ge.event.payload).trans hvalid)
    rw [if_neg hempty, hcompact]
    rfl

theorem exists_carried {log : List GlobalEvent}
    (h : ∀ ge ∈ log, validateObjectOrNull ge.event.payload = .ok ()) :
    ∃ events, Carried log events := by
  induction log with
  | nil => exact ⟨[], .nil⟩
  | cons ge log ih =>
    obtain ⟨e, he⟩ := isSome_iff_exists.1 (isSome_toCarrier (h ge mem_cons_self))
    obtain ⟨events, hevents⟩ := ih fun ge' hge' ↦ h ge' (mem_cons_of_mem ge hge')
    exact ⟨e :: events, .cons he hevents⟩

theorem validateForAppend_payload {e : Event} {u : Unit} (h : e.validateForAppend = .ok u) :
    validateObjectOrNull e.payload = .ok () := by
  simp only [Event.validateForAppend, bind_ok, require_ok] at h
  obtain ⟨_, -, _, -, _, -, _, -, hpayload⟩ := h
  exact hpayload

namespace MemJournal

theorem call_globalLog (m : MemJournal) (c : Time × Call) :
    (m.call c).1.globalLog = m.globalLog ∨ ∃ ge, (m.call c).1.globalLog = m.globalLog ++ [ge] ∧
        validateObjectOrNull ge.event.payload = .ok () := by
  obtain ⟨now, c⟩ := c
  cases c with
  | enqueue inst =>
    left
    rcases m.enqueue_cases inst with ⟨e, h⟩ | ⟨-, -, h⟩ <;> simp only [call, h]
    rfl
  | append id leaseID event =>
    rcases m.append_cases now id leaseID event with ⟨e, h⟩ | ⟨row, inst, -, -, hvalid, -, h⟩
    · exact .inl (by simp only [call, h])
    · exact .inr ⟨_, by simp only [call, h]; rfl, validateForAppend_payload hvalid⟩
  | load id => exact .inl rfl
  | claimPending uuid batchSize leaseDuration =>
    left
    rcases m.claimPending_cases now uuid batchSize leaseDuration with
      ⟨e, h⟩ | h | ⟨leaseID, -, -, h⟩ <;> simp only [call, h]
    rfl
  | heartbeat id leaseID leaseDuration =>
    left
    rcases m.heartbeat_cases now id leaseID leaseDuration with
      ⟨r, h, -⟩ | ⟨row, -, -, -, h⟩ <;> simp only [call, h]
    rfl
  | markTerminal id leaseID final =>
    rcases m.markTerminal_cases now id leaseID final with
      ⟨r, h, -⟩ | ⟨row, kind, inst, -, -, -, -, h⟩
    · exact .inl (by simp only [call, h])
    · exact .inr ⟨_, by simp only [call, h]; rfl, rfl⟩

theorem payloads_valid (calls : List (Time × Call)) :
    ∀ ge ∈ (after call {} calls).globalLog, validateObjectOrNull ge.event.payload = .ok () := by
  refine after_invariant
    (fun m : MemJournal ↦ ∀ ge ∈ m.globalLog, validateObjectOrNull ge.event.payload = .ok ())
    ?_ calls {} ?_
  · intro m c hm ge hge
    rcases m.call_globalLog c with h | ⟨ge', h, hvalid⟩
    · exact hm ge (h ▸ hge)
    · rw [h, mem_append, mem_singleton] at hge
      rcases hge with hge | rfl
      · exact hm ge hge
      · exact hvalid
  · exact fun _ h ↦ absurd h not_mem_nil

theorem serves (calls : List (Time × Call)) :
    Serves (after call {} calls).loadSince (after call {} calls).globalLog := by
  have hsound : (after call {} calls).Sound :=
    after_invariant Sound (fun m c hm ↦ hm.call c) calls {} sound_empty
  obtain ⟨hasc, -, hload⟩ := hsound.toConsistent.globalReader
  exact ⟨hasc, hload⟩

end MemJournal

/-- A replay over a reader of events that a journal accepts, and the in-memory journal as such a
reader in every state. -/
theorem replay_delivers {ε : Type} :
    (∀ (gr : ℤ → ℤ → Except Err (List GlobalEvent)) (log : List GlobalEvent), Serves gr log →
      (∀ ge ∈ log, validateObjectOrNull ge.event.payload = .ok ()) →
      ∀ (fn : List SagaProjectionEvent → SagaProjectionEvent → Option ε) (fromOffset : ℕ),
        ∃ events, Carried (since GlobalEvent.globalSeq log fromOffset) events ∧
          ∃ calls err, CalledUntil fn events calls err ∧ ∃ enough, ∀ fuel, enough ≤ fuel →
              replay fn gr (fun _ ↦ none) fuel fromOffset [] = some (calls, err.map .callback)) ∧
    ∀ calls : List (Time × Call), ∀ m, m = after MemJournal.call {} calls →
      Serves m.loadSince m.globalLog ∧
        ∀ ge ∈ m.globalLog, validateObjectOrNull ge.event.payload = .ok () := by
  refine ⟨fun gr log hgr hvalid fn fromOffset ↦ ?_, fun calls m hm ↦ ?_⟩
  · obtain ⟨events, hevents⟩ := exists_carried fun ge hge ↦ hvalid ge (mem_since.1 hge).1
    exact ⟨events, hevents, replay_terminates fn hgr hevents⟩
  · subst hm
    exact ⟨MemJournal.serves calls, MemJournal.payloads_valid calls⟩

def sparseLog : List GlobalEvent :=
  [⟨2, "i", { kind := .stepStarted, stepName := "reserve", payload := asciiBytes "null" }⟩,
    ⟨5, "j", { kind := .sagaSucceeded }⟩]

theorem sparseLog_payloads : ∀ ge ∈ sparseLog, validateObjectOrNull ge.event.payload = .ok () := by
  simp only [sparseLog, forall_mem_cons]
  exact ⟨by decide, by decide, fun _ h ↦ absurd h not_mem_nil⟩

theorem replay_delivers_sparse :
    ∃ events, Carried (since GlobalEvent.globalSeq sparseLog 2) events ∧
      ∃ calls err, CalledUntil (fun _ _ ↦ some ()) events calls err ∧
        ∃ enough, ∀ fuel, enough ≤ fuel →
          replay (fun _ _ ↦ some ()) (fun after limit ↦
            .ok (loadSince sparseLog after.toNat limit.toNat))
            (fun _ ↦ none) fuel (2 : ℕ) [] = some (calls, err.map .callback) := by
  refine replay_delivers.1 _ sparseLog ⟨?_, fun _ _ _ ↦ rfl⟩ sparseLog_payloads
    (fun _ _ ↦ some ()) 2
  rw [Ascending]
  decide

/-- The one event of this journal is not delivered from a negative offset. -/
theorem replay_negative_offset :
    ¬∀ (calls : List (Time × Call)) (fromOffset : ℤ),
      ∀ ge ∈ (after MemJournal.call {} calls).globalLog, fromOffset < ge.globalSeq →
        ∃ fuel delivered, ∃ err : Option (ReplayError Unit),
          replay (fun _ _ ↦ none) (after MemJournal.call {} calls).loadSince (fun _ ↦ none) fuel
            fromOffset [] = some (delivered, err) ∧ ∃ e ∈ delivered,
              e.globalSeq = ge.globalSeq := by
  intro h
  have hmem : (after MemJournal.call {} (stepThenLoad "i")).globalLog =
      [⟨1, "i", { kind := .stepCompleted, stepName := "reserve", version := 1, globalSeq := 1,
                  createdAt := 3000 }⟩] := rfl
  obtain ⟨fuel, delivered, err, hreplay, e, he, -⟩ := h (stepThenLoad "i") (-1) _
    (by rw [hmem]; exact mem_singleton_self _) (by decide)
  cases fuel with
  | zero => cases hreplay
  | succ fuel =>
    obtain ⟨rfl, -⟩ := Prod.mk.inj (some.inj hreplay)
    cases he

end GoCell.Saga
