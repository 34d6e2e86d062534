import GoCell.Command.Queue
import GoCell.Foundation.KeyedRows
import GoCell.Foundation.Runs

namespace GoCell.Command

open Foundation Kernel List

structure InMemQueue where
  entries : Keyed Entry.id
  leases : Table String Time

structure ScanFilter where
  deviceID : String := ""
  statuses : List Status := []

namespace InMemQueue

def new : InMemQueue := ⟨.empty, ∅⟩

def errAlreadyExists : Failure :=
  .coded "" ⟨.conflict, .conflict, "commandtest: command already exists", []⟩

def errPendingLimit (limit : ℤ) : Failure :=
  .coded "" ⟨.rateLimited, .rateLimited, "per-device pending command limit exceeded",
    [("limit", .int limit)]⟩

def errNotFound : Failure :=
  .coded "" ⟨.notFound, .commandNotFound, "commandtest: command not found", []⟩

variable (q : InMemQueue)

def countPendingForDevice (deviceID : String) : ℕ :=
  q.entries.rows.countP fun e ↦ e.status = .pending && e.deviceID = deviceID

def hasActiveKey (key : String) : Bool :=
  q.entries.rows.any fun e ↦ !e.status.isTerminal && e.idempotencyKey = key

def storeIfNotDup (entry : Entry) (idempotencyKey : String) (maxPending : ℤ) :
    InMemQueue × Except Failure Unit :=
  if idempotencyKey ≠ "" ∧ q.hasActiveKey idempotencyKey then (q, .ok ())
  else if (q.entries.get? entry.id).isSome then (q, .error errAlreadyExists)
  else if 0 < maxPending ∧ maxPending ≤ q.countPendingForDevice entry.deviceID then
    (q, .error (errPendingLimit maxPending))
  else ({ q with entries := q.entries.add entry }, .ok ())

/-- The stored entry `e` when a call is handed `entry`: they may hold one map. -/
def seeing (entry e : Entry) : Entry :=
  { e with
    metadata :=
      if entry.callerMap ≠ none ∧ e.callerMap = entry.callerMap then entry.metadata
      else e.metadata }

/-- The queue once `Enqueue` has written the key into the map it is handed. A stored command is a
shallow copy of its entry, and shows what is written into its map. -/
def stamped (entry : Entry) (opts : EnqueueOptions) (newID : String) : InMemQueue :=
  { q with entries := q.entries.update (seeing (entry.prepared opts newID)) fun _ ↦ rfl }

def enqueue (entry : Entry) (opts : EnqueueOptions) (newID : String) :
    InMemQueue × Except Failure Unit :=
  match opts.authz with
  | some err => (q, .error (err.wrap "commandtest: authz rejected: "))
  | none =>
    let q := q.stamped entry opts newID
    -- the key is written before the entry is validated
    match (entry.prepared opts newID).validateNew with
    | .error err => (q, .error (.coded "" err))
    | .ok () =>
      q.storeIfNotDup (entry.prepared opts newID) opts.idempotencyKey opts.maxPendingPerDevice

def write (e : Entry) : InMemQueue := { q with entries := q.entries.put e }

/-- The loop of `Dequeue`: an entry that cannot be sent is passed over. -/
def send (now : Time) (lease : Duration) : List Entry → InMemQueue → InMemQueue × List Entry
  | [], q => (q, [])
  | e :: rest, q =>
    match advanceCommand e .sent now with
    | .error _ => send now lease rest q
    | .ok e' =>
      let r := send now lease rest
        { q.write e' with leases := q.leases.insert e'.id (now + lease) }
      (r.1, e'.stripInternalMetaKeys :: r.2)

def pendingOf (targetID : String) : List Entry :=
  q.entries.rows.filter fun e ↦ e.deviceID = targetID && e.status = .pending

/-- `Dequeue`; to cut a slice at a negative length is a panic. -/
def dequeue (targetID : String) (n : ℤ) (leaseDuration : Duration) (now : Time)
    (order : FIFO) : InMemQueue × Answer :=
  if n < 0 then (q, .panicked)
  else
    let r := q.send now (leaseOf leaseDuration)
      ((order.arrange (q.pendingOf targetID)).take n.toNat)
    (r.1, .commands (.ok r.2))

variable (commandID : String)

def report (now : Time) : InMemQueue × Except Failure Unit :=
  match q.entries.get? commandID with
  | none => (q, .error errNotFound)
  | some e =>
    if e.status = .delivered then (q, .ok ())
    else
      match advanceCommand e .delivered now with
      | .error err => (q, .error (.coded "commandtest: report: " err))
      | .ok e' => (q.write e', .ok ())

def ack (reason : AckReason) (now : Time) : InMemQueue × Except Failure Unit :=
  if !reason.valid then
    (q, .error (.coded "" (validationFailed "commandtest: invalid AckReason")))
  else
    match q.entries.get? commandID with
    | none => (q, .error errNotFound)
    | some e =>
      let target := reason.targetStatus
      if e.status.isTerminal then
        if e.status = target then (q, .ok ())
        else (q, .error (.coded "" (validationFailed ("commandtest: command already terminal " ++
          "with status " ++ e.status.toText ++ "; cannot ack as " ++ target.toText))))
      else
        let q := { q with leases := q.leases.erase commandID }
        match advanceCommand e target now with
        | .error err =>
          (q, .error (.coded ("commandtest: advance to " ++ target.toText ++ ": ") err))
        | .ok e' => (q.write e', .ok ())

def extendLease (extension : Duration) (now : Time) : InMemQueue × Except Failure Unit :=
  match q.entries.get? commandID with
  | none => (q, .error errNotFound)
  | some _ =>
    if (q.leases.lookup commandID).any fun expiry ↦ now ≤ expiry then
      ({ q with leases := q.leases.insert commandID (now + extension) }, .ok ())
    else (q, .error (.coded "" (validationFailed
      ("commandtest: lease expired or not acquired for command: " ++ commandID))))

def cancel (now : Time) : InMemQueue × Except Failure Unit :=
  match q.entries.get? commandID with
  | none => (q, .error errNotFound)
  | some e =>
    match advanceCommand e .canceled now with
    | .error err => (q, .error (.coded "commandtest: cancel: " err))
    | .ok e' => ({ q.write e' with leases := q.leases.erase commandID }, .ok ())

/-- `buildStatusAllowlist`: `none` stands for every status that is not terminal. -/
def buildStatusAllowlist (statuses : List Status) : Option (List Status) :=
  if statuses.isEmpty then none else some (statuses.filter fun s ↦ !s.isTerminal)

def scanActive (filter : ScanFilter) (order : FIFO) : List Entry :=
  order.arrange ((q.entries.rows.filter fun e ↦ !e.status.isTerminal &&
    (filter.deviceID = "" || e.deviceID = filter.deviceID) &&
    (buildStatusAllowlist filter.statuses).all fun l ↦ decide (e.status ∈ l)).map
      Entry.stripInternalMetaKeys)

/-- The loop of `SweepTick`, with the errors that are joined at its end. -/
def ackAll (now : Time) : List ExpiryTransition → InMemQueue → InMemQueue × List Failure
  | [], q => (q, [])
  | t :: rest, q =>
    let r := q.ack t.commandID .timeout now
    let r' := ackAll now rest r.1
    match r.2 with
    | .error err => (r'.1, err :: r'.2)
    | .ok () => r'

def sweepTick (filter : ScanFilter) (now : Time) (order : FIFO) : InMemQueue × Answer :=
  let r := q.ackAll now (sweepOnce (q.scanActive filter order) now)
  (r.1, .swept r.2)

/-- What can happen to a queue: a call of one of its methods or a pass of a sweeper. `order` is the
order in which the commands of one creation time are met. -/
inductive Operation
  | call (c : Call) (order : FIFO)
  | sweep (filter : ScanFilter) (now : Time) (order : FIFO)

/-- The map that an operation is handed and may write to. -/
def Operation.handedMap : Operation → Option ℕ
  | .call (.enqueue entry opts _) _ => if opts.authz = none then entry.callerMap else none
  | _ => none

def answered (r : InMemQueue × Except Failure Unit) : InMemQueue × Answer := (r.1, .done r.2)

def perform : Operation → InMemQueue × Answer
  | .call (.enqueue entry opts newID) _ => answered (q.enqueue entry opts newID)
  | .call (.dequeue targetID n lease now) order => q.dequeue targetID n lease now order
  | .call (.report commandID now) _ => answered (q.report commandID now)
  | .call (.ack commandID reason now) _ => answered (q.ack commandID reason now)
  | .call (.extendLease commandID extension now) _ =>
    answered (q.extendLease commandID extension now)
  | .call (.cancel commandID now) _ => answered (q.cancel commandID now)
  | .sweep filter now order => q.sweepTick filter now order

end InMemQueue

def Advanced (target : Status) (now : Time) (before after : List Entry) : Prop :=
  ∃ f : Entry → Entry, after = before.map f ∧
    ∀ e ∈ before, f e = e ∨ advanceCommand e target now = .ok (f e)

namespace Advanced

variable {target : Status} {now : Time} {l l' l'' : List Entry}

theorem refl (target : Status) (now : Time) (l : List Entry) : Advanced target now l l :=
  ⟨id, l.map_id.symm, fun _ _ ↦ .inl rfl⟩

theorem trans (h : Advanced target now l l') (h' : Advanced target now l' l'') :
    Advanced target now l l'' := by
  obtain ⟨f, rfl, hf⟩ := h
  obtain ⟨g, rfl, hg⟩ := h'
  refine ⟨g ∘ f, map_map, fun e he ↦ ?_⟩
  have hge := hg (f e) (mem_map_of_mem he)
  rw [Function.comp_apply]
  rcases hf e he with hstay | hmove
  · rwa [hstay] at hge ⊢
  · rcases hge with hstay | hagain
    · exact .inr (hstay.symm ▸ hmove)
    · have hstatus : (f e).status = target := by
        rw [(advanceCommand_ok.1 hmove).2, Entry.moved_status]
      have hself := (advanceCommand_ok.1 hagain).1.2.1
      rw [hstatus, Status.not_canTransitionTo_self] at hself
      cases hself

end Advanced

namespace InMemQueue

variable {q : InMemQueue} {target : Status} {now : Time} {e e' : Entry}

theorem write_advanced (he : e ∈ q.entries.rows) (h : advanceCommand e target now = .ok e') :
    Advanced target now q.entries.rows (q.write e').entries.rows := by
  have hid : e'.id = e.id := by rw [(advanceCommand_ok.1 h).2, Entry.moved_id]
  refine ⟨_, rfl, fun x hx ↦ ?_⟩
  split
  · next heq =>
    obtain rfl := q.entries.eq_of_key_eq hx he (heq.trans hid)
    exact .inr h
  · exact .inl rfl

theorem mem_write_of_ne {x : Entry} (hx : x ∈ q.entries.rows) (hne : x.id ≠ e.id) :
    x ∈ (q.write e).entries.rows :=
  mem_map.2 ⟨x, hx, if_neg hne⟩

theorem send_advanced (now : Time) (lease : Duration) {es : List Entry}
    (hmem : ∀ e ∈ es, e ∈ q.entries.rows) (hnodup : (es.map Entry.id).Nodup) :
    Advanced .sent now q.entries.rows (send now lease es q).1.entries.rows := by
  induction es generalizing q with
  | nil => exact .refl _ _ _
  | cons e rest ih =>
    obtain ⟨hfresh, hrest⟩ := nodup_cons.1 hnodup
    rw [send]
    split
    · exact ih (fun x hx ↦ hmem x (mem_cons_of_mem e hx)) hrest
    · next e' h =>
      have hid : e'.id = e.id := by rw [(advanceCommand_ok.1 h).2, Entry.moved_id]
      refine (write_advanced (hmem e mem_cons_self) h).trans (ih (fun x hx ↦ ?_) hrest)
      refine mem_write_of_ne (hmem x (mem_cons_of_mem e hx)) fun heq ↦ hfresh ?_
      rw [← hid, ← heq]
      exact mem_map_of_mem hx

theorem pendingOf_nodup (q : InMemQueue) (targetID : String) :
    ((q.pendingOf targetID).map Entry.id).Nodup :=
  q.entries.nodup.sublist (filter_sublist.map Entry.id)

theorem dequeue_advanced (q : InMemQueue) (targetID : String) (n : ℤ) (lease : Duration)
    (now : Time) (order : FIFO) :
    Advanced .sent now q.entries.rows (q.dequeue targetID n lease now order).1.entries.rows := by
  rw [dequeue]
  split
  · exact .refl _ _ _
  · have hperm := order.perm (q.pendingOf targetID)
    refine send_advanced now _ (fun e he ↦ ?_) ?_
    · exact (mem_filter.1 (hperm.mem_iff.1 (mem_of_mem_take he))).1
    · exact ((hperm.map Entry.id).nodup_iff.2 (q.pendingOf_nodup targetID)).sublist
        ((take_sublist _ _).map Entry.id)

theorem report_advanced (q : InMemQueue) (commandID : String) (now : Time) :
    Advanced .delivered now q.entries.rows (q.report commandID now).1.entries.rows := by
  rw [report]
  split
  · exact .refl _ _ _
  · next e he =>
    split
    · exact .refl _ _ _
    · split
      · exact .refl _ _ _
      · next h => exact write_advanced (Keyed.get?_eq_some_iff.1 he).1 h

theorem ack_advanced (q : InMemQueue) (commandID : String) (reason : AckReason) (now : Time) :
    Advanced reason.targetStatus now q.entries.rows
      (q.ack commandID reason now).1.entries.rows := by
  rw [ack]
  split
  · exact .refl _ _ _
  · split
    · exact .refl _ _ _
    · next e he =>
      dsimp only
      split
      · split <;> exact .refl _ _ _
      · split
        · exact .refl _ _ _
        · next h => exact write_advanced (Keyed.get?_eq_some_iff.1 he).1 h

theorem extendLease_entries (q : InMemQueue) (commandID : String) (extension : Duration)
    (now : Time) : (q.extendLease commandID extension now).1.entries = q.entries := by
  rw [extendLease]
  split
  · rfl
  · split <;> rfl

theorem cancel_advanced (q : InMemQueue) (commandID : String) (now : Time) :
    Advanced .canceled now q.entries.rows (q.cancel commandID now).1.entries.rows := by
  rw [cancel]
  split
  · exact .refl _ _ _
  · next e he =>
    split
    · exact .refl _ _ _
    · next h => exact write_advanced (Keyed.get?_eq_some_iff.1 he).1 h

theorem ackAll_advanced (now : Time) (ts : List ExpiryTransition) (q : InMemQueue) :
    Advanced .expired now q.entries.rows (ackAll now ts q).1.entries.rows := by
  induction ts generalizing q with
  | nil => exact .refl _ _ _
  | cons t rest ih =>
    have hfirst := q.ack_advanced t.commandID .timeout now
    rw [ackAll]
    split <;> exact hfirst.trans (ih _)

/-- The checks of `Enqueue` that have nothing to do with the idempotency key. -/
structure Admits (q : InMemQueue) (entry : Entry) (opts : EnqueueOptions) (newID : String) :
    Prop where
  authz : opts.authz = none
  validated : (entry.prepared opts newID).validateNew = .ok ()
  fresh : q.entries.get? (entry.prepared opts newID).id = none
  room : 0 < opts.maxPendingPerDevice →
    q.countPendingForDevice entry.deviceID < opts.maxPendingPerDevice

def KeyFree (q : InMemQueue) (opts : EnqueueOptions) : Prop :=
  opts.idempotencyKey = "" ∨ q.hasActiveKey opts.idempotencyKey = false

theorem storeIfNotDup_cases (q : InMemQueue) {entry : Entry} {opts : EnqueueOptions}
    {newID : String} (hauthz : opts.authz = none)
    (hvalid : (entry.prepared opts newID).validateNew = .ok ()) :
    let r := q.storeIfNotDup (entry.prepared opts newID) opts.idempotencyKey
      opts.maxPendingPerDevice
    (¬(q.Admits entry opts newID ∧ q.KeyFree opts) ∧ r.1 = q) ∨
      ((q.Admits entry opts newID ∧ q.KeyFree opts) ∧
        r.1.entries.rows = q.entries.rows ++ [entry.prepared opts newID]) := by
  dsimp only
  rw [storeIfNotDup, Entry.prepared_deviceID]
  split
  · next hkey =>
    refine .inl ⟨fun h ↦ ?_, rfl⟩
    obtain hempty | hfree := h.2
    · exact hkey.1 hempty
    · exact absurd hkey.2 (by rw [hfree]; exact Bool.false_ne_true)
  · next hkey =>
    split
    · next hid => exact .inl ⟨fun h ↦ by simp [h.1.fresh] at hid, rfl⟩
    · next hid =>
      rw [Option.not_isSome_iff_eq_none] at hid
      split
      · next hcap => exact .inl ⟨fun h ↦ absurd hcap.2 (h.1.room hcap.1).not_ge, rfl⟩
      · next hcap =>
        refine .inr ⟨⟨⟨hauthz, hvalid, hid, ?_⟩, ?_⟩, Keyed.add_rows hid⟩
        · intro hpos
          exact lt_of_not_ge fun hle ↦ hcap ⟨hpos, hle⟩
        · rw [not_and_or, not_not] at hkey
          exact hkey.imp_right fun h ↦ by simpa using h

theorem enqueue_cases (q : InMemQueue) (entry : Entry) (opts : EnqueueOptions) (newID : String) :
    (opts.authz ≠ none ∧ (q.enqueue entry opts newID).1 = q) ∨
      (opts.authz = none ∧
        let q' := q.stamped entry opts newID
        (¬(q'.Admits entry opts newID ∧ q'.KeyFree opts) ∧ (q.enqueue entry opts newID).1 = q') ∨
          ((q'.Admits entry opts newID ∧ q'.KeyFree opts) ∧
            (q.enqueue entry opts newID).1.entries.rows =
              q'.entries.rows ++ [entry.prepared opts newID])) := by
  rw [enqueue]
  split
  · next herr => exact .inl ⟨by rw [herr]; exact Option.some_ne_none _, rfl⟩
  · next hauthz =>
    refine .inr ⟨hauthz, ?_⟩
    dsimp only
    split
    · next herr =>
      refine .inl ⟨fun h ↦ ?_, rfl⟩
      rw [h.1.validated] at herr
      cases herr
    · next hvalid => exact storeIfNotDup_cases _ hauthz hvalid

theorem seeing_of_ne {entry : Entry} (h : entry.callerMap ≠ none → e.callerMap ≠ entry.callerMap) :
    seeing entry e = e := by
  rw [seeing, if_neg fun hshared ↦ h hshared.1 hshared.2]

theorem perform_advanced (q : InMemQueue) {op : Operation}
    (h : ∀ entry opts newID order, op ≠ .call (.enqueue entry opts newID) order) :
    ∃ target now, Advanced target now q.entries.rows (q.perform op).1.entries.rows := by
  cases op with
  | sweep _ now => exact ⟨_, now, ackAll_advanced now _ q⟩
  | call c order =>
    cases c with
    | enqueue entry opts newID => exact absurd rfl (h entry opts newID order)
    | dequeue targetID n lease now => exact ⟨_, now, q.dequeue_advanced targetID n lease now order⟩
    | report commandID now => exact ⟨_, now, q.report_advanced commandID now⟩
    | ack commandID reason now => exact ⟨_, now, q.ack_advanced commandID reason now⟩
    | extendLease _ _ now =>
      refine ⟨.canceled, now, ?_⟩
      rw [perform, answered, extendLease_entries]
      exact .refl _ _ _
    | cancel commandID now => exact ⟨_, now, q.cancel_advanced commandID now⟩

theorem perform_cases (q : InMemQueue) (op : Operation) :
    (∃ target now, Advanced target now q.entries.rows (q.perform op).1.entries.rows) ∨
      ∃ entry opts newID order, op = .call (.enqueue entry opts newID) order ∧ opts.authz = none ∧
        let q' := q.stamped entry opts newID
        (q.perform op).1 = q' ∨
          (q'.Admits entry opts newID ∧ (q.perform op).1.entries.rows =
            q'.entries.rows ++ [entry.prepared opts newID]) := by
  by_cases hop : ∃ entry opts newID order, op = .call (.enqueue entry opts newID) order
  · obtain ⟨entry, opts, newID, order, rfl⟩ := hop
    rcases q.enqueue_cases entry opts newID with
      ⟨-, heq⟩ | ⟨hauthz, ⟨-, heq⟩ | ⟨⟨hadmits, -⟩, hrows⟩⟩
    · refine .inl ⟨.canceled, 0, ?_⟩
      rw [perform, answered, heq]
      exact .refl _ _ _
    · exact .inr ⟨entry, opts, newID, order, rfl, hauthz, .inl heq⟩
    · exact .inr ⟨entry, opts, newID, order, rfl, hauthz, .inr ⟨hadmits, hrows⟩⟩
  · exact .inl (q.perform_advanced fun entry opts newID order heq ↦
      hop ⟨entry, opts, newID, order, heq⟩)

end InMemQueue

end GoCell.Command
