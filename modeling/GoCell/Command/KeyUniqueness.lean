import GoCell.Command.InMemQueue

namespace GoCell.Command

open Foundation Kernel

def Entry.Holds (e : Entry) (key : String) : Prop :=
  e.status.isTerminal = false ∧ e.idempotencyKey = key

instance (e : Entry) (key : String) : Decidable (e.Holds key) := inferInstanceAs (Decidable (_ ∧ _))

namespace InMemQueue

def KeysUnique (q : InMemQueue) : Prop :=
  ∀ x ∈ q.entries.rows, ∀ y ∈ q.entries.rows, ∀ key, key ≠ "" → x.Holds key → y.Holds key → x = y

variable {q : InMemQueue}

theorem hasActiveKey_eq_false {key : String} :
    q.hasActiveKey key = false ↔ ∀ e ∈ q.entries.rows, ¬e.Holds key := by
  simp [hasActiveKey, Entry.Holds]

/-- An entry that brings a key of its own is not enqueued without a key while another command holds
that key. -/
def BringsFreeKey (q : InMemQueue) : Operation → Prop
  | .call (.enqueue entry opts newID) _ =>
    opts.idempotencyKey = "" → q.Admits entry opts newID → entry.idempotencyKey ≠ "" →
      q.hasActiveKey entry.idempotencyKey = false
  | _ => True

/-- No stored command holds the map that the operation is handed. -/
def OwnMap (q : InMemQueue) (op : Operation) : Prop :=
  op.handedMap ≠ none → ∀ e ∈ q.entries.rows, e.callerMap ≠ op.handedMap

instance (q : InMemQueue) (op : Operation) : Decidable (q.OwnMap op) :=
  inferInstanceAs (Decidable (_ → _))

theorem OwnMap.stamped_eq {entry : Entry} {opts : EnqueueOptions} {newID : String}
    {order : FIFO} (h : q.OwnMap (.call (.enqueue entry opts newID) order))
    (hauthz : opts.authz = none) : q.stamped entry opts newID = q := by
  rw [OwnMap, Operation.handedMap, if_pos hauthz] at h
  have hsame : ∀ e ∈ q.entries.rows, seeing (entry.prepared opts newID) e = e := by
    refine fun e he ↦ seeing_of_ne ?_
    rw [Entry.prepared_callerMap]
    exact fun hne ↦ h hne e he
  exact congrArg (fun t ↦ { q with entries := t }) (Keyed.update_eq_self hsame)

theorem KeysUnique.advanced {q q' : InMemQueue} {target : Status} {now : Time} (h : q.KeysUnique)
    (hadv : Advanced target now q.entries.rows q'.entries.rows) : q'.KeysUnique := by
  obtain ⟨f, hrows, hf⟩ := hadv
  have hheld : ∀ e ∈ q.entries.rows, ∀ key, (f e).Holds key → e.Holds key := by
    intro e he key hkey
    rcases hf e he with hstay | hmove
    · rwa [hstay] at hkey
    · obtain ⟨⟨-, hcan, -⟩, hmoved⟩ := advanceCommand_ok.1 hmove
      refine ⟨Status.not_terminal_of_canTransitionTo hcan, ?_⟩
      rw [← hkey.2, hmoved, Entry.idempotencyKey, Entry.idempotencyKey, Entry.moved_metadata]
  intro x hx y hy key hne hxkey hykey
  rw [hrows] at hx hy
  obtain ⟨a, ha, rfl⟩ := List.mem_map.1 hx
  obtain ⟨b, hb, rfl⟩ := List.mem_map.1 hy
  rw [h a ha b hb key hne (hheld a ha key hxkey) (hheld b hb key hykey)]

theorem KeysUnique.stored_iff {q q' : InMemQueue} {e : Entry} (h : q.KeysUnique)
    (hactive : e.status.isTerminal = false) (hfresh : q.entries.get? e.id = none)
    (hrows : q'.entries.rows = q.entries.rows ++ [e]) :
    q'.KeysUnique ↔ (e.idempotencyKey ≠ "" → q.hasActiveKey e.idempotencyKey = false) := by
  have hmem : ∀ x, x ∈ q'.entries.rows ↔ x ∈ q.entries.rows ∨ x = e := by
    intro x
    rw [hrows, List.mem_append, List.mem_singleton]
  constructor
  · intro hunique hne
    refine hasActiveKey_eq_false.2 fun x hx hheld ↦ ?_
    have heq := hunique x ((hmem x).2 (.inl hx)) e ((hmem e).2 (.inr rfl)) _ hne hheld
      ⟨hactive, rfl⟩
    exact Keyed.get?_eq_none_iff.1 hfresh x hx (congrArg Entry.id heq)
  · intro hfree x hx y hy key hne hxkey hykey
    -- the new command shares its key with no stored one
    have hnew : ∀ z ∈ q.entries.rows, e.Holds key → ¬z.Holds key := by
      intro z hz hekey hzkey
      have hkey : e.idempotencyKey = key := hekey.2
      subst hkey
      exact hasActiveKey_eq_false.1 (hfree hne) z hz hzkey
    rcases (hmem x).1 hx with hx | rfl
    · rcases (hmem y).1 hy with hy | rfl
      · exact h x hx y hy key hne hxkey hykey
      · exact absurd hxkey (hnew x hx hykey)
    · rcases (hmem y).1 hy with hy | rfl
      · exact absurd hykey (hnew y hy hxkey)
      · rfl

theorem prepared_idempotencyKey (entry : Entry) (opts : EnqueueOptions) (newID : String) :
    (entry.prepared opts newID).idempotencyKey =
      if opts.idempotencyKey = "" then entry.idempotencyKey else opts.idempotencyKey := by
  rw [Entry.idempotencyKey, Entry.prepared_lookup]
  split <;> rfl

theorem keysUnique_perform_iff (h : q.KeysUnique) {op : Operation}
    (hown : q.OwnMap op) : (q.perform op).1.KeysUnique ↔ q.BringsFreeKey op := by
  by_cases hop : ∃ entry opts newID order, op = .call (.enqueue entry opts newID) order
  · obtain ⟨entry, opts, newID, order, rfl⟩ := hop
    change (q.enqueue entry opts newID).1.KeysUnique ↔ _
    rcases q.enqueue_cases entry opts newID with ⟨hauthz, heq⟩ | ⟨hauthz, hcases⟩
    · refine iff_of_true ?_ fun _ hadmits ↦ absurd hadmits.authz hauthz
      rw [heq]
      exact h
    rw [hown.stamped_eq hauthz] at hcases
    rcases hcases with ⟨hrejected, heq⟩ | ⟨⟨hadmits, hfree⟩, hrows⟩
    · -- nothing was stored, and an entry without a request key is stored when it is admitted
      refine iff_of_true ?_ fun hempty hadmits ↦ absurd ⟨hadmits, .inl hempty⟩ hrejected
      rw [heq]
      exact h
    · have hpending := (Entry.validateNew_ok hadmits.validated).status
      rw [h.stored_iff (by rw [hpending]; rfl) hadmits.fresh hrows, prepared_idempotencyKey]
      rcases hfree with hempty | hfree
      · rw [if_pos hempty]
        exact ⟨fun hkey _ _ ↦ hkey, fun hkey ↦ hkey hempty hadmits⟩
      · split
        · next hempty => exact ⟨fun hkey _ _ ↦ hkey, fun hkey ↦ hkey hempty hadmits⟩
        · next hne => exact iff_of_true (fun _ ↦ hfree) fun hempty ↦ absurd hempty hne
  · obtain ⟨target, now, hadv⟩ := q.perform_advanced fun entry opts newID order heq ↦
      hop ⟨entry, opts, newID, order, heq⟩
    refine iff_of_true (h.advanced hadv) ?_
    cases op with
    | sweep => trivial
    | call c order =>
      cases c with
      | enqueue entry opts newID => exact absurd ⟨entry, opts, newID, order, rfl⟩ hop
      | dequeue | report | ack | extendLease | cancel => trivial

theorem keysUnique_new : new.KeysUnique := by
  intro x hx
  cases hx

/-- Where no `Enqueue` is handed the map of a stored command, the keys of the unfinished commands
stay unique exactly when every entry that is enqueued without a key, and brings one in its own
metadata, brings one that is free. -/
theorem active_keys_unique_iff (ops : List Operation)
    (hown : ∀ pre op, pre ++ [op] <+: ops → (after perform new pre).OwnMap op) :
    (∀ pre, pre <+: ops → (after perform new pre).KeysUnique) ↔
      ∀ pre op, pre ++ [op] <+: ops → (after perform new pre).BringsFreeKey op :=
  after_forall_iff (P := KeysUnique) ops
    (fun pre op hpre h ↦ keysUnique_perform_iff h (hown pre op hpre)) keysUnique_new

/-- A command for the device `dev`. -/
def certRenewal (id : String) (metadata : Metadata) (callerMap : Option ℕ) : Entry where
  id := id
  deviceID := "dev"
  commandType := "cert-renew"
  payload := [1]
  metadata := metadata
  callerMap := callerMap
  createdAt := 1

def enqueueRenewal (id : String) (metadata : Metadata) (callerMap : Option ℕ) (key : String) :
    Operation :=
  .call (.enqueue (certRenewal id metadata callerMap) { idempotencyKey := key } "")
    (insertionArrangement Entry.createdAt)

/-- The second request is a repetition of the first; the third one follows its end. -/
def renewedTwice : List Operation :=
  [enqueueRenewal "a" ∅ (some 0) "renew", enqueueRenewal "b" ∅ (some 1) "renew",
    .call (.cancel "a" 2) (insertionArrangement Entry.createdAt),
    enqueueRenewal "c" ∅ (some 1) "renew"]

theorem active_keys_unique_renewedTwice :
    (∀ pre op, pre ++ [op] <+: renewedTwice → (after perform new pre).OwnMap op) ∧
      (after perform new renewedTwice).entries.rows.map (fun e ↦ (e.id, e.status)) =
        [("a", .canceled), ("c", .pending)] ∧
      ∀ pre, pre <+: renewedTwice → (after perform new pre).KeysUnique := by
  have hown : ∀ pre op, pre ++ [op] <+: renewedTwice → (after perform new pre).OwnMap op :=
    forall_prefix_cons (by decide +kernel) <| forall_prefix_cons (by decide +kernel) <|
      forall_prefix_cons (by decide +kernel) <| forall_prefix_cons (by decide +kernel)
      forall_prefix_nil
  refine ⟨hown, by decide +kernel, (active_keys_unique_iff renewedTwice hown).2 ?_⟩
  have hkeyed : ∀ (q : InMemQueue) (id : String) (m : Option ℕ),
      q.BringsFreeKey (enqueueRenewal id ∅ m "renew") := fun q id m hempty ↦
    absurd hempty (by decide)
  exact forall_prefix_cons (hkeyed _ _ _) <| forall_prefix_cons (hkeyed _ _ _) <|
    forall_prefix_cons trivial <| forall_prefix_cons (hkeyed _ _ _) forall_prefix_nil

theorem not_keysUnique (key : String) (hkey : key ≠ "")
    (h : 1 < (q.entries.rows.filter fun e ↦ e.Holds key).length) : ¬q.KeysUnique := by
  intro hunique
  have hnodup := (List.Nodup.of_map _ q.entries.nodup).filter fun e ↦ e.Holds key
  have hmem : ∀ e ∈ q.entries.rows.filter fun e ↦ e.Holds key,
    e ∈ q.entries.rows ∧ e.Holds key := by
    intro e he
    simpa using he
  match hfilter : q.entries.rows.filter fun e ↦ e.Holds key with
  | [] | [_] => simp [hfilter] at h
  | x :: y :: rest =>
    rw [hfilter] at hnodup hmem
    obtain ⟨hx, hxkey⟩ := hmem x List.mem_cons_self
    obtain ⟨hy, hykey⟩ := hmem y (by simp)
    exact (List.nodup_cons.1 hnodup).1 (by simp [hunique x hx y hy key hkey hxkey hykey])

/-- Two commands that bring one key are both stored when the requests name no key, and two commands
that hold one map both get the key of a third one that is handed it. -/
theorem active_duplicate_stored : (¬∀ ops : List Operation,
      (∀ pre op, pre ++ [op] <+: ops → (after perform new pre).OwnMap op) →
        (after perform new ops).KeysUnique) ∧
      ¬∀ ops : List Operation,
        (∀ pre op, pre ++ [op] <+: ops → (after perform new pre).BringsFreeKey op) →
          (after perform new ops).KeysUnique := by
  constructor
  · intro h
    let keyed : Metadata := AList.singleton idempotencyKeyField "renew"
    refine not_keysUnique "renew" (by decide) ?_
      (h [enqueueRenewal "a" keyed none "", enqueueRenewal "b" keyed none ""] ?_)
    · decide +kernel
    · exact forall_prefix_cons (fun hne ↦ absurd rfl hne) <|
        forall_prefix_cons (fun hne ↦ absurd rfl hne) forall_prefix_nil
  · intro h
    refine not_keysUnique "renew" (by decide) ?_
      (h [enqueueRenewal "a" ∅ (some 0) "", enqueueRenewal "b" ∅ (some 0) "",
        enqueueRenewal "c" ∅ (some 0) "renew"] ?_)
    · decide +kernel
    · exact forall_prefix_cons (fun _ _ hne ↦ absurd rfl hne) <|
        forall_prefix_cons (fun _ _ hne ↦ absurd rfl hne) <|
        forall_prefix_cons (fun hempty ↦ absurd hempty (by decide)) forall_prefix_nil

end InMemQueue

end GoCell.Command
