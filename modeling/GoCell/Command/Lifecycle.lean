import GoCell.Command.InMemQueue

namespace GoCell.Command

open Foundation Kernel Option

/-- What the timestamps and the counter of a command that became `Sent` for `sent` times say. -/
structure Entry.Consistent (sent : ℕ) (e : Entry) : Prop where
  completedAt : e.completedAt.isSome = e.status.isTerminal
  attempt : e.attempt = sent
  sentAt : e.sentAt.isSome = true ↔ 0 < sent
  pending : e.status = .pending → sent = 0

variable {e : Entry} {target : Status}

theorem Entry.Consistent.moved {sent : ℕ} (h : e.Consistent sent)
    (hcan : e.status.canTransitionTo target = true) (now : Time) :
    (e.moved target now).Consistent (sent + if target = .sent then 1 else 0) := by
  have hcompleted : e.completedAt.isSome = false := by
    rw [h.completedAt]
    exact Status.not_terminal_of_canTransitionTo hcan
  cases target with
  | sent =>
    refine ⟨hcompleted, ?_, ?_, nofun⟩
    · change e.attempt + 1 = _
      rw [h.attempt]
      rfl
    · exact iff_of_true rfl (Nat.succ_pos sent)
  | delivered => exact ⟨hcompleted, h.attempt, h.sentAt, nofun⟩
  | succeeded | failed | expired | canceled => exact ⟨rfl, h.attempt, h.sentAt, nofun⟩
  | pending | other => cases hs : e.status <;> simp [hs, Status.canTransitionTo,
      Status.validTransitions] at hcan

theorem Entry.New.consistent (h : e.New) : e.Consistent 0 where
  completedAt := by
    rw [h.completedAt, h.status]
    rfl
  attempt := h.attempt
  sentAt := by simp [h.sentAt]
  pending _ := rfl

variable {q q' : InMemQueue} {now : Time} {counts : String → ℕ}

namespace InMemQueue

def statusOf (q : InMemQueue) (id : String) : Option Status := (q.entries.get? id).map Entry.status

def becameSent (id : String) (q q' : InMemQueue) : Bool :=
  q'.statusOf id = some .sent && q.statusOf id ≠ some .sent

/-- How often a command became `Sent` in a run; an operation moves a command at most once. -/
def sentCount (id : String) : InMemQueue → List Operation → ℕ
  | _, [] => 0
  | q, op :: ops =>
    (if becameSent id q (q.perform op).1 then 1 else 0) + sentCount id (q.perform op).1 ops

theorem sentCount_concat (id : String) (q : InMemQueue) (ops : List Operation) (op : Operation) :
    sentCount id q (ops ++ [op]) = sentCount id q ops +
      if becameSent id (after perform q ops) (after perform q (ops ++ [op])) then 1 else 0 := by
  induction ops generalizing q with
  | nil =>
    rw [List.nil_append, sentCount, sentCount, sentCount, Nat.add_zero, Nat.zero_add]
    rfl
  | cons a ops ih =>
    rw [List.cons_append, sentCount, sentCount, ih, Nat.add_assoc]
    rfl

/-- The commands agree with the number of times that each of them became `Sent`. -/
structure Tracks (q : InMemQueue) (counts : String → ℕ) : Prop where
  absent : ∀ id, q.entries.get? id = none → counts id = 0
  present : ∀ id e, q.entries.get? id = some e → e.Consistent (counts id)

theorem advanced_get? (h : Advanced target now q.entries.rows q'.entries.rows) (id : String) :
    (q.entries.get? id = none ∧ q'.entries.get? id = none) ∨
      ∃ e e', q.entries.get? id = some e ∧ q'.entries.get? id = some e' ∧
        (e' = e ∨ advanceCommand e target now = .ok e') := by
  obtain ⟨f, hrows, hf⟩ := h
  have hkeep : ∀ e ∈ q.entries.rows, (f e).id = e.id := by
    intro e he
    rcases hf e he with hstay | hmove
    · rw [hstay]
    · rw [(advanceCommand_ok.1 hmove).2, Entry.moved_id]
  rw [Keyed.get?_of_map hrows hkeep]
  cases he : q.entries.get? id with
  | none => exact .inl ⟨rfl, rfl⟩
  | some e => exact .inr ⟨e, f e, rfl, rfl, hf e (Keyed.get?_eq_some_iff.1 he).1⟩

theorem becameSent_eq_false {id : String} (h : q'.statusOf id ≠ some .sent) :
    becameSent id q q' = false := by
  simp [becameSent, h]

theorem becameSent_moved {id : String}
    (he : q.entries.get? id = some e) (he' : q'.entries.get? id = some (e.moved target now))
    (hcan : e.status.canTransitionTo target = true) :
    becameSent id q q' = decide (target = .sent) := by
  have hstatus : target = .sent → e.status ≠ .sent := by
    rintro rfl heq
    rw [heq, Status.not_canTransitionTo_self] at hcan
    cases hcan
  simp only [becameSent, statusOf, he, he', map_some, some.injEq, Entry.moved_status]
  by_cases htarget : target = .sent
  · simp [htarget, hstatus htarget]
  · simp [htarget]

theorem Tracks.advanced
    (h : q.Tracks counts) (hadv : Advanced target now q.entries.rows q'.entries.rows) :
    q'.Tracks fun id ↦ counts id + if becameSent id q q' then 1 else 0 := by
  constructor
  · intro id hnone'
    rcases advanced_get? hadv id with ⟨hnone, -⟩ | ⟨e, e', -, he', -⟩
    · rw [h.absent id hnone, becameSent_eq_false (by simp [statusOf, hnone'])]
      rfl
    · cases hnone'.symm.trans he'
  · intro id e' he'
    rcases advanced_get? hadv id with ⟨-, hnone'⟩ | ⟨e, e'', he, he'', hmove⟩
    · cases hnone'.symm.trans he'
    · cases he'.symm.trans he''
      have hold := h.present id e he
      rcases hmove with rfl | hmove
      · have hstay : becameSent id q q' = false := by simp [becameSent, statusOf, he, he']
        rw [hstay]
        exact hold
      · obtain ⟨⟨-, hcan, -⟩, rfl⟩ := advanceCommand_ok.1 hmove
        rw [becameSent_moved he he' hcan]
        simpa only [decide_eq_true_eq] using hold.moved hcan now

theorem stored_get? (hfresh : q.entries.get? e.id = none)
    (hrows : q'.entries.rows = q.entries.rows ++ [e]) (id : String) :
    q'.entries.get? id = if id = e.id then some e else q.entries.get? id := by
  rw [Keyed.get?, hrows, List.find?_append]
  split
  · next hid =>
    subst hid
    rw [Keyed.get?] at hfresh
    simp [hfresh]
  · next hid =>
    have hne : e.id ≠ id := fun heq ↦ hid heq.symm
    simp [Keyed.get?, hne]

theorem Tracks.stored (h : q.Tracks counts) (hnew : e.New) (hfresh : q.entries.get? e.id = none)
    (hrows : q'.entries.rows = q.entries.rows ++ [e]) :
    q'.Tracks fun id ↦ counts id + if becameSent id q q' then 1 else 0 := by
  have hsent : ∀ id, becameSent id q q' = false := by
    intro id
    simp only [becameSent, statusOf, stored_get? hfresh hrows]
    split
    · simp [hnew.status]
    · simp
  simp only [hsent, Bool.false_eq_true, if_false, Nat.add_zero]
  constructor
  · intro id hnone
    rw [stored_get? hfresh hrows] at hnone
    split at hnone
    · cases hnone
    · exact h.absent id hnone
  · intro id x hx
    rw [stored_get? hfresh hrows] at hx
    split at hx
    · next hid =>
      cases hx
      rw [hid, h.absent _ hfresh]
      exact hnew.consistent
    · exact h.present id x hx

section Stamped

variable (q : InMemQueue) (entry : Entry) (opts : EnqueueOptions) (newID : String)

theorem stamped_get? (id : String) : (q.stamped entry opts newID).entries.get? id =
    (q.entries.get? id).map (seeing (entry.prepared opts newID)) :=
  Keyed.get?_of_map (f := seeing (entry.prepared opts newID)) rfl (fun _ _ ↦ rfl) id

theorem stamped_statusOf (id : String) :
    (q.stamped entry opts newID).statusOf id = q.statusOf id := by
  rw [statusOf, statusOf, stamped_get?, map_map]
  rfl

theorem stamped_countPending (deviceID : String) :
    (q.stamped entry opts newID).countPendingForDevice deviceID =
      q.countPendingForDevice deviceID := by
  change List.countP _ (q.entries.rows.map _) = _
  rw [List.countP_map]
  rfl

variable {q entry opts newID}

theorem Tracks.stamped (h : q.Tracks counts) : (q.stamped entry opts newID).Tracks counts := by
  constructor
  · intro id hnone
    rw [stamped_get?, map_eq_none_iff] at hnone
    exact h.absent id hnone
  · intro id e he
    rw [stamped_get?, map_eq_some_iff] at he
    obtain ⟨x, hx, rfl⟩ := he
    obtain ⟨hcompleted, hattempt, hsent, hpending⟩ := h.present id x hx
    exact ⟨hcompleted, hattempt, hsent, hpending⟩

end Stamped

theorem Tracks.perform (h : q.Tracks counts) (op : Operation) :
    (q.perform op).1.Tracks fun id ↦
      counts id + if becameSent id q (q.perform op).1 then 1 else 0 := by
  rcases q.perform_cases op with ⟨target, now, hadv⟩ | ⟨entry, opts, newID, order, -, -, hcases⟩
  · exact h.advanced hadv
  · have hsent : ∀ id q', becameSent id q q' = becameSent id (q.stamped entry opts newID) q' := by
      intro id q'
      rw [becameSent, becameSent, stamped_statusOf]
    rcases hcases with heq | ⟨hadmits, hrows⟩
    · have hstay : ∀ id q', becameSent id q' q' = false := by simp [becameSent]
      simpa only [heq, hsent, hstay, Bool.false_eq_true, if_false, Nat.add_zero] using h.stamped
    · simp only [hsent]
      exact h.stamped.stored (Entry.validateNew_ok hadmits.validated) hadmits.fresh hrows

theorem tracks_after (ops : List Operation) :
    (after perform new ops).Tracks fun id ↦ sentCount id new ops := by
  induction ops using List.reverseRecOn with
  | nil => exact ⟨fun _ _ ↦ rfl, fun _ _ he ↦ by cases he⟩
  | append_singleton ops op ih =>
    have hstep := ih.perform op
    have hlast : after InMemQueue.perform new (ops ++ [op]) =
        ((after InMemQueue.perform new ops).perform op).1 := List.foldl_concat _ _ _ _
    simp only [sentCount_concat, hlast]
    exact hstep

/-- The operation is not handed the map that the command holds. -/
def Spares (e : Entry) (op : Operation) : Prop :=
  op.handedMap ≠ none → e.callerMap ≠ op.handedMap

theorem mem_perform_of_isTerminal (hterminal : e.status.isTerminal = true)
    (he : e ∈ q.entries.rows) (op : Operation) :
    ∃ m, { e with metadata := m } ∈ (q.perform op).1.entries.rows ∧
      (Spares e op → m = e.metadata) := by
  rcases q.perform_cases op with
    ⟨target, now, f, hrows, hf⟩ | ⟨entry, opts, newID, order, rfl, hauthz, hcases⟩
  · refine ⟨e.metadata, ?_, fun _ ↦ rfl⟩
    rw [hrows]
    refine List.mem_map.2 ⟨e, he, ?_⟩
    rcases hf e he with hstay | hmove
    · exact hstay
    · have hactive := Status.not_terminal_of_canTransitionTo (advanceCommand_ok.1 hmove).1.2.1
      rw [hactive] at hterminal
      cases hterminal
  · have hmem : seeing (entry.prepared opts newID) e ∈ (q.stamped entry opts newID).entries.rows :=
      List.mem_map_of_mem he
    refine ⟨(seeing (entry.prepared opts newID) e).metadata, ?_, fun hspares ↦ ?_⟩
    · rcases hcases with heq | ⟨-, hrows⟩
      · rw [heq]
        exact hmem
      · rw [hrows]
        exact List.mem_append_left _ hmem
    · rw [Spares, Operation.handedMap, if_pos hauthz] at hspares
      rw [seeing_of_ne (by rwa [Entry.prepared_callerMap])]

theorem ack_of_isTerminal {id : String} {reason : AckReason}
    (he : q.entries.get? id = some e) (hterminal : e.status.isTerminal = true)
    (h : (q.ack id reason now).2 = .ok ()) : reason.targetStatus = e.status := by
  rw [ack] at h
  split at h
  · cases h
  · simp only [he, hterminal, if_true] at h
    split at h
    · next heq => exact heq.symm
    · cases h

theorem countPending_advanced_le
    (h : Advanced target now q.entries.rows q'.entries.rows) (deviceID : String) :
    q'.countPendingForDevice deviceID ≤ q.countPendingForDevice deviceID := by
  obtain ⟨f, hrows, hf⟩ := h
  rw [countPendingForDevice, hrows, List.countP_map]
  refine List.countP_mono_left fun e he hpending ↦ ?_
  rcases hf e he with hstay | hmove
  · rwa [Function.comp_apply, hstay] at hpending
  · obtain ⟨⟨htarget, -⟩, hmoved⟩ := advanceCommand_ok.1 hmove
    simp [hmoved, htarget] at hpending

def LimitedTo (deviceID : String) (limit : ℤ) : Operation → Prop
  | .call (.enqueue entry opts _) _ => entry.deviceID = deviceID → opts.maxPendingPerDevice = limit
  | _ => True

theorem countPending_perform_le {deviceID : String} {limit : ℤ} (hpos : 0 < limit)
    {op : Operation} (hop : LimitedTo deviceID limit op)
    (h : q.countPendingForDevice deviceID ≤ limit) :
    (q.perform op).1.countPendingForDevice deviceID ≤ limit := by
  rcases q.perform_cases op with
    ⟨target, now, hadv⟩ | ⟨entry, opts, newID, order, rfl, -, heq | ⟨hadmits, hrows⟩⟩
  · have hle := countPending_advanced_le hadv deviceID
    omega
  · rwa [heq, stamped_countPending]
  · rw [← stamped_countPending q entry opts newID] at h
    rw [countPendingForDevice, hrows, List.countP_append, List.countP_singleton,
      Entry.prepared_deviceID]
    change _ ≤ limit at h
    by_cases hdevice : entry.deviceID = deviceID
    · have hlimit := hop hdevice
      have hroom := hadmits.room (by omega)
      rw [hlimit, hdevice, countPendingForDevice] at hroom
      split <;> omega
    · rw [countPendingForDevice] at h
      simpa [hdevice] using h

theorem terminal_after (hterminal : e.status.isTerminal = true) (he : e ∈ q.entries.rows)
    (more : List Operation) :
    (∃ m, (after perform q more).entries.get? e.id = some { e with metadata := m }) ∧
      ((∀ op ∈ more, Spares e op) → (after perform q more).entries.get? e.id = some e) := by
  constructor
  · obtain ⟨m, hm⟩ := after_invariant
      (fun q : InMemQueue ↦ ∃ m, { e with metadata := m } ∈ q.entries.rows) (fun q op ⟨m, hm⟩ ↦ by
        obtain ⟨m', hm', -⟩ :=
          mem_perform_of_isTerminal (e := { e with metadata := m }) hterminal hm op
        exact ⟨m', hm'⟩) more q ⟨e.metadata, he⟩
    exact ⟨m, Keyed.get?_eq_some_iff.2 ⟨hm, rfl⟩⟩
  · intro hspares
    refine Keyed.get?_eq_some_iff.2 ⟨?_, rfl⟩
    refine after_invariant_of_mem perform (fun q : InMemQueue ↦ e ∈ q.entries.rows) more q
      (fun q op hop hmem ↦ ?_) he
    obtain ⟨m, hm, hsame⟩ := mem_perform_of_isTerminal hterminal hmem op
    rwa [hsame (hspares op hop)] at hm

/-- The life of the commands of a queue, in every state that its operations can reach. A command
that has ended changes only in its metadata, and not even there as long as no `Enqueue` is handed
its map. -/
theorem command_lifecycle (ops : List Operation) :
    (∀ e ∈ (after perform new ops).entries.rows,
      (e.completedAt.isSome = true ↔ e.status.isTerminal = true) ∧
      e.attempt = sentCount e.id new ops ∧
      (e.sentAt.isSome = true ↔ 0 < sentCount e.id new ops) ∧
      (e.status.isTerminal = true → ∀ more,
        (∃ m, (after perform new (ops ++ more)).entries.get? e.id =
          some { e with metadata := m }) ∧
        ((∀ op ∈ more, Spares e op) →
          (after perform new (ops ++ more)).entries.get? e.id = some e)) ∧
      (e.status.isTerminal = true → ∀ reason now,
        ((after perform new ops).ack e.id reason now).2 = .ok () →
          reason.targetStatus = e.status)) ∧
    ∀ deviceID limit, 0 < limit → (∀ op ∈ ops, LimitedTo deviceID limit op) →
      (after perform new ops).countPendingForDevice deviceID ≤ limit := by
  constructor
  · intro e he
    have hget : (after perform new ops).entries.get? e.id = some e :=
      Keyed.get?_eq_some_iff.2 ⟨he, rfl⟩
    have hstate := (tracks_after ops).present e.id e hget
    refine ⟨by rw [hstate.completedAt], hstate.attempt, hstate.sentAt, ?_, ?_⟩
    · intro hterminal more
      have hafter : after perform new (ops ++ more) = after perform (after perform new ops) more :=
        List.foldl_append
      rw [hafter]
      exact terminal_after hterminal he more
    · intro hterminal reason now hack
      exact ack_of_isTerminal hget hterminal hack
  · intro deviceID limit hpos hlimited
    refine after_invariant_of_mem perform (fun q ↦ q.countPendingForDevice deviceID ≤ limit) ops new
      (fun q op hop h ↦ countPending_perform_le hpos (hlimited op hop) h) ?_
    exact hpos.le

/-- A reboot whose metadata are kept in a map of the caller. -/
def reboot (id : String) : Entry where
  id := id
  deviceID := "dev"
  commandType := "reboot"
  payload := [1]
  callerMap := some 0
  createdAt := 1

/-- A command that was canceled gets the key of a later one that is handed its map. -/
theorem canceled_command_rewritten :
    ¬∀ (ops more : List Operation) (e : Entry), e ∈ (after perform new ops).entries.rows →
      e.status.isTerminal = true →
        (after perform new (ops ++ more)).entries.get? e.id = some e := by
  intro h
  let order : FIFO := insertionArrangement Entry.createdAt
  let ops : List Operation :=
    [.call (.enqueue (reboot "a") {} "") order, .call (.cancel "a" 2) order]
  let more : List Operation :=
    [.call (.enqueue (reboot "b") { idempotencyKey := "again" } "") order]
  have hcanceled : ((after perform new ops).entries.get? "a").map
      (fun e ↦ (e.status, e.idempotencyKey)) = some (.canceled, "") := by decide +kernel
  have hlater : ((after perform new (ops ++ more)).entries.get? "a").map Entry.idempotencyKey =
      some "again" := by decide +kernel
  obtain ⟨e, he, hshown⟩ := map_eq_some_iff.1 hcanceled
  obtain ⟨hstatus, hkey⟩ := Prod.mk.inj hshown
  obtain ⟨hmem, hid⟩ := Keyed.get?_eq_some_iff.1 he
  have hsame := h ops more e hmem (by rw [hstatus]; rfl)
  rw [hid] at hsame
  rw [hsame, map_some, hkey] at hlater
  exact absurd hlater (by decide)

end InMemQueue

end GoCell.Command
