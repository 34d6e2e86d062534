import GoCell.Audit.MemQuery
import GoCell.Foundation.Separators
import GoCell.Query.PagedQuery

namespace GoCell.Audit

open Foundation Kernel Query List Option

namespace MemStore

variable {s s' : MemStore} {t : Bytes} {vis : RowVisibility}

/-- An order of the chains that a tenant reads, its own one and the one without a tenant, whether
they are there or not. -/
def Order (t : Bytes) (order : List Bytes) : Prop :=
  order.Nodup ∧ ∀ k, k ∈ order ↔ tenantMatches k t = true

theorem entries_of_notMem {k : Bytes} (h : k ∉ s.chains) : (s.chainOf k).entries = [] := by
  rw [chainOf, AList.lookup_eq_none.2 h]
  rfl

theorem flatMap_present (ks : List Bytes) :
    (ks.filter (· ∈ s.chains)).flatMap (fun k ↦ (s.chainOf k).entries) =
      ks.flatMap fun k ↦ (s.chainOf k).entries := by
  induction ks with
  | nil => rfl
  | cons k ks ih =>
    by_cases hk : k ∈ s.chains
    · rw [filter_cons_of_pos (by simpa using hk), flatMap_cons, flatMap_cons, ih]
    · rw [filter_cons_of_neg (by simpa using hk), flatMap_cons, entries_of_notMem hk, ih,
        nil_append]

theorem flatMap_scan (ks : List Bytes) :
    (scan s.chains ks).flatMap (fun c ↦ c.2.entries) =
      ks.flatMap fun k ↦ (s.chainOf k).entries := by
  induction ks with
  | nil => rfl
  | cons k ks ih =>
    rw [flatMap_cons, ← ih, chainOf]
    unfold scan
    cases hk : s.chains.lookup k with
    | none | some => simp [hk]

theorem filter_scan (p : Bytes → Bool) (ks : List Bytes) :
    (scan s.chains ks).filter (fun c ↦ p c.1) = scan s.chains (ks.filter p) := by
  induction ks with
  | nil => rfl
  | cons k ks ih =>
    unfold scan at ih ⊢
    cases hk : s.chains.lookup k with
    | none | some => by_cases hp : p k = true <;> simp [hk, hp, ih]

theorem matching_eq (iteration : List Bytes) :
    s.matching iteration t =
      (iteration.filter fun k ↦ tenantMatches k t).flatMap fun k ↦ (s.chainOf k).entries := by
  rw [matching, filter_scan (fun k ↦ tenantMatches k t), flatMap_scan]

theorem matching_of_iteration {iteration : List Bytes} (h : s.Iteration iteration) :
    ∃ order, Order t order ∧
      s.matching iteration t = order.flatMap fun k ↦ (s.chainOf k).entries := by
  let missing := [t, []].dedup.filter fun k ↦ k ∉ iteration
  have hmissing : ∀ k ∈ missing, (s.chainOf k).entries = [] := by
    intro k hk
    refine entries_of_notMem fun hmem ↦ ?_
    exact of_decide_eq_true (mem_filter.1 hk).2 ((h.2 k).2 hmem)
  refine ⟨(iteration.filter fun k ↦ tenantMatches k t) ++ missing, ⟨?_, fun k ↦ ?_⟩, ?_⟩
  · refine List.Nodup.append (h.1.filter _) ((nodup_dedup _).filter _) fun k hk hk' ↦ ?_
    exact of_decide_eq_true (mem_filter.1 hk').2 (mem_filter.1 hk).1
  · by_cases hk : k ∈ iteration <;> simp [missing, hk, tenantMatches]
  · have hnil : missing.flatMap (fun k ↦ (s.chainOf k).entries) = [] :=
      flatMap_eq_nil_iff.2 hmissing
    rw [flatMap_append, hnil, append_nil, matching_eq]

theorem iteration_of_order {order : List Bytes} (h : Order t order) (s : MemStore) :
    ∃ iteration, s.Iteration iteration ∧
      s.matching iteration t = order.flatMap fun k ↦ (s.chainOf k).entries := by
  refine ⟨order.filter (· ∈ s.chains) ++ s.chains.keys.filter (fun k ↦ !tenantMatches k t),
    ⟨?_, fun k ↦ ?_⟩, ?_⟩
  · refine List.Nodup.append (h.1.filter _) (s.chains.keys_nodup.filter _) fun k hk hk' ↦ ?_
    have hmatch := (h.2 k).1 (mem_filter.1 hk).1
    have hnot := (mem_filter.1 hk').2
    rw [hmatch] at hnot
    cases hnot
  · have hkeys : k ∈ s.chains.keys ↔ k ∈ s.chains := Iff.rfl
    by_cases hk : k ∈ s.chains <;> by_cases hmatch : tenantMatches k t = true <;>
      simp [hk, hkeys, h.2 k, hmatch]
  · have hown : (order.filter (· ∈ s.chains)).filter (fun k ↦ tenantMatches k t) =
        order.filter (· ∈ s.chains) := by
      rw [filter_eq_self]
      exact fun k hk ↦ (h.2 k).1 (mem_filter.1 hk).1
    have hothers : (s.chains.keys.filter fun k ↦ !tenantMatches k t).filter
        (fun k ↦ tenantMatches k t) = [] := by
      rw [filter_eq_nil_iff]
      intro k hk hmatch
      have hnot := (mem_filter.1 hk).2
      rw [hmatch] at hnot
      cases hnot
    rw [matching_eq, filter_append, hown, hothers, append_nil, flatMap_present]

def SameVisible (t : Bytes) (vis : RowVisibility) (s s' : MemStore) : Prop :=
  ∀ k, tenantMatches k t = true → (s.chainOf k).entries.filter (fun e ↦ vis.allows e.actorID) =
      (s'.chainOf k).entries.filter fun e ↦ vis.allows e.actorID

def IDsApart (t : Bytes) (vis : RowVisibility) (s : MemStore) : Prop :=
  ∀ k k', tenantMatches k t = true → tenantMatches k' t = true →
    ∀ e ∈ (s.chainOf k).entries, ∀ e' ∈ (s.chainOf k').entries, e.id = e'.id →
      vis.allows e.actorID = vis.allows e'.actorID

theorem flatMap_congr_order {order : List Bytes} (horder : Order t order)
    {f g : Bytes → List Entry} (h : ∀ k, tenantMatches k t = true → f k = g k) :
    order.flatMap f = order.flatMap g :=
  flatMap_congr fun k hk ↦ h k ((horder.2 k).1 hk)

theorem query_congr {iteration iteration' : List Bytes}
    (h : (s.matching iteration t).filter (fun e ↦ vis.allows e.actorID) =
      (s'.matching iteration' t).filter fun e ↦ vis.allows e.actorID)
    (sf : SortFunc) (tt : TimeText) (filters : AuditFilters) (params : ListParams) :
    s.query sf tt iteration t vis filters params =
      s'.query sf tt iteration' t vis filters params := by
  unfold query
  rw [← List.filter_filter, ← List.filter_filter, h]

theorem find?_filter_of_agree {α : Type} {p q : α → Bool} {l : List α}
    (h : ∀ a ∈ l, ∀ b ∈ l, p a = true → p b = true → q a = q b) :
    (l.filter q).find? p = (l.find? p).filter q := by
  induction l with
  | nil => rfl
  | cons a l ih =>
    have hrest := ih fun b hb c hc ↦ h b (mem_cons_of_mem a hb) c (mem_cons_of_mem a hc)
    by_cases hp : p a = true
    · by_cases hq : q a = true
      · simp [hp, hq, filter_some]
      · have hnone : (l.filter q).find? p = none := by
          rw [find?_eq_none]
          intro b hb hpb
          obtain ⟨hb, hqb⟩ := mem_filter.1 hb
          rw [h a mem_cons_self b (mem_cons_of_mem a hb) hp hpb] at hq
          exact hq hqb
        simp [hp, hq, hnone, filter_some]
    · by_cases hq : q a = true
      · rw [filter_cons_of_pos hq, find?_cons_of_neg hp, find?_cons_of_neg hp, hrest]
      · rw [filter_cons_of_neg hq, find?_cons_of_neg hp, hrest]

theorem find?_visible (hids : IDsApart t vis s) (iteration : List Bytes) (id : Bytes) :
    ((s.matching iteration t).find? fun e ↦ e.id = id).filter (fun e ↦ vis.allows e.actorID) =
      ((s.matching iteration t).filter fun e ↦ vis.allows e.actorID).find? fun e ↦ e.id = id := by
  refine (find?_filter_of_agree fun e he e' he' hid hid' ↦ ?_).symm
  rw [matching_eq] at he he'
  obtain ⟨k, hk, he⟩ := mem_flatMap.1 he
  obtain ⟨k', hk', he'⟩ := mem_flatMap.1 he'
  refine hids k k' (mem_filter.1 hk).2 (mem_filter.1 hk').2 e he e' he' ?_
  exact (of_decide_eq_true hid).trans (of_decide_eq_true hid').symm

theorem getByID_eq (iteration : List Bytes) (id : Bytes) :
    s.getByID iteration t vis id = (do
      validateQueryTenant t
      validateVisibility vis
      match ((s.matching iteration t).find? fun e ↦ e.id = id).filter
        fun e ↦ vis.allows e.actorID with
      | none => .error (.err errEntryNotFound)
      | some e => .ok e) := by
  unfold getByID
  congr 1
  funext _
  congr 1
  funext _
  cases (s.matching iteration t).find? fun e ↦ e.id = id with
  | none => rfl
  | some e =>
    cases hallows : vis.allows e.actorID with
    | false | true => simp [hallows, filter_some]

theorem getByID_of_invalid {f : Failure} (h : validateQueryTenant t = .error f)
    (iteration : List Bytes) (id : Bytes) : s.getByID iteration t vis id = .error f := by
  rw [getByID, h]
  rfl

section Answers

variable (sf : SortFunc) (env : Query.Env) (t : Bytes) (vis : RowVisibility)

def pageAnswers (filters : AuditFilters) (cfg : PagedQueryConfig Entry) (s : MemStore) :
    Set (Except Failure (PageResult Entry)) :=
  {page | ∃ iteration, s.Iteration iteration ∧ page = executePagedQuery env
    { cfg with fetch := s.query sf env.times iteration t vis filters }}

def queryAnswers (filters : AuditFilters) (params : ListParams) (s : MemStore) :
    Set (Except Failure (List Entry)) :=
  {answer | ∃ iteration, s.Iteration iteration ∧
    answer = s.query sf env.times iteration t vis filters params}

def getByIDAnswers (id : Bytes) (s : MemStore) : Set (Except Failure Entry) :=
  {answer | ∃ iteration, s.Iteration iteration ∧ answer = s.getByID iteration t vis id}

end Answers

section

variable (h : SameVisible t vis s s')
include h

theorem SameVisible.symm : SameVisible t vis s' s :=
  fun k hk ↦ (h k hk).symm

theorem SameVisible.iteration {iteration : List Bytes} (hiteration : s.Iteration iteration) :
    ∃ iteration', s'.Iteration iteration' ∧
      (s.matching iteration t).filter (fun e ↦ vis.allows e.actorID) =
        (s'.matching iteration' t).filter (fun e ↦ vis.allows e.actorID) ∧
      ((∀ k, tenantMatches k t = true → (s.chainOf k).entries = (s'.chainOf k).entries) →
        s.matching iteration t = s'.matching iteration' t) := by
  obtain ⟨order, horder, hmatching⟩ := matching_of_iteration (t := t) hiteration
  obtain ⟨iteration', hiteration', hmatching'⟩ := iteration_of_order horder s'
  rw [hmatching]
  refine ⟨iteration', hiteration', ?_, fun hfull ↦ ?_⟩
  · rw [hmatching', filter_flatMap, filter_flatMap]
    exact flatMap_congr_order horder h
  · rw [hmatching']
    exact flatMap_congr_order horder hfull

theorem SameVisible.queryAnswers_subset (sf : SortFunc)
    (env : Query.Env) (filters : AuditFilters) (params : ListParams) :
    s.queryAnswers sf env t vis filters params ⊆ s'.queryAnswers sf env t vis filters params := by
  rintro answer ⟨iteration, hiteration, rfl⟩
  obtain ⟨iteration', hiteration', hsame, -⟩ := h.iteration hiteration
  exact ⟨iteration', hiteration', query_congr hsame sf env.times filters params⟩

theorem SameVisible.pageAnswers_subset (sf : SortFunc)
    (env : Query.Env) (filters : AuditFilters) (cfg : PagedQueryConfig Entry) :
    s.pageAnswers sf env t vis filters cfg ⊆ s'.pageAnswers sf env t vis filters cfg := by
  rintro page ⟨iteration, hiteration, rfl⟩
  obtain ⟨iteration', hiteration', hsame, -⟩ := h.iteration hiteration
  refine ⟨iteration', hiteration', ?_⟩
  rw [show s.query sf env.times iteration t vis filters =
    s'.query sf env.times iteration' t vis filters from
      funext (query_congr hsame sf env.times filters)]

end

theorem entryIDs_run (env : LedgerEnv) (calls : List (Option Entry)) :
    ∀ e ∈ appended (answers (append env) empty calls),
      e.id = env.deterministicEntryID env.protocol.namespaceID e.tenantID e.eventID := by
  refine log_run (R := fun _ log ↦ ∀ e ∈ log,
    e.id = env.deterministicEntryID env.protocol.namespaceID e.tenantID e.eventID)
    (fun s log call h ↦ ?_) calls fun e he ↦ absurd he not_mem_nil
  obtain ⟨err, herr⟩ | ⟨e, rfl, -, hanswer, -⟩ := append_cases env s call
  · rw [herr, show appended [(.error err : Except Err Entry)] = [] from rfl, append_nil]
    exact h
  · rw [hanswer]
    exact forall_mem_append.2 ⟨h, forall_mem_singleton.2 rfl⟩

/-- The digest of `deterministicEntryID` does not collide on what it hashes for the entries of a
log. -/
def CollisionFree (env : LedgerEnv) (log : List Entry) : Prop :=
  ∀ e ∈ log, ∀ e' ∈ log,
    env.entryDigest (env.protocol.namespaceID ++ 0 :: (e.tenantID ++ 0 :: e.eventID)) =
      env.entryDigest (env.protocol.namespaceID ++ 0 :: (e'.tenantID ++ 0 :: e'.eventID)) →
    e.tenantID ++ 0 :: e.eventID = e'.tenantID ++ 0 :: e'.eventID

instance (env : LedgerEnv) (log : List Entry) : Decidable (CollisionFree env log) := by
  unfold CollisionFree
  infer_instance

/-- A state that `Append` reaches from the empty store without a collision. -/
def Reached (env : LedgerEnv) (s : MemStore) : Prop :=
  ∃ calls, s = after (append env) empty calls ∧
    CollisionFree env (appended (answers (append env) empty calls))

section Reached

variable {env : LedgerEnv} {k k' : Bytes} {e e' : Entry}

/-- The tenant ends at the first NUL byte, so that the hashed text has the tenant and the event. -/
theorem Reached.eq_of_id_eq (h : Reached env s) (he : e ∈ (s.chainOf k).entries)
    (he' : e' ∈ (s.chainOf k').entries) (hk : 0x00 ∉ k) (hk' : 0x00 ∉ k') (hid : e.id = e'.id) :
    e = e' := by
  obtain ⟨calls, rfl, hfree⟩ := h
  have hrun := tracks_run env calls
  have hids := entryIDs_run env calls
  rw [hrun.entries] at he he'
  obtain ⟨hlog, rfl⟩ := mem_ownChain.1 he
  obtain ⟨hlog', rfl⟩ := mem_ownChain.1 he'
  rw [hids e hlog, hids e' hlog'] at hid
  obtain ⟨htenant, hevent⟩ := split_first hk hk' (hfree e hlog e' hlog' hid)
  rw [← htenant] at he'
  exact inj_on_of_nodup_map (hrun.chained.distinct _) he he' hevent

theorem nul_notMem_of_matches (h : validateQueryTenant t = .ok ())
    (hk : tenantMatches k t = true) : 0x00 ∉ k := by
  rw [tenantMatches, Bool.or_eq_true, decide_eq_true_eq, decide_eq_true_eq] at hk
  obtain rfl | rfl := hk
  · unfold validateQueryTenant at h
    split at h
    · next hk => simp [hk]
    · refine nul_notMem_of_validateTenantID ?_
      unfold plainError at h
      revert h
      cases validateTenantID k with
      | error | ok => simp [Except.mapError]
  · exact not_mem_nil

theorem Reached.idsApart (h : Reached env s) (ht : validateQueryTenant t = .ok ()) :
    IDsApart t vis s := by
  intro k k' hk hk' e he e' he' hid
  rw [h.eq_of_id_eq he he' (nul_notMem_of_matches ht hk) (nul_notMem_of_matches ht hk') hid]

end Reached

theorem SameVisible.getByIDAnswers_subset {env : LedgerEnv} (h : SameVisible t vis s s')
    (hstates : (∀ k, tenantMatches k t = true → (s.chainOf k).entries = (s'.chainOf k).entries) ∨
      Reached env s ∧ Reached env s') (id : Bytes) :
    s.getByIDAnswers t vis id ⊆ s'.getByIDAnswers t vis id := by
  rintro answer ⟨iteration, hiteration, rfl⟩
  obtain ⟨iteration', hiteration', hsame, hfull⟩ := h.iteration hiteration
  refine ⟨iteration', hiteration', ?_⟩
  cases ht : validateQueryTenant t with
  | error f => rw [getByID_of_invalid ht, getByID_of_invalid ht]
  | ok =>
    rw [getByID_eq, getByID_eq]
    obtain heq | ⟨hs, hs'⟩ := hstates
    · rw [hfull heq]
    · rw [find?_visible (hs.idsApart ht), find?_visible (hs'.idsApart ht), hsame]

/-- The answers to a tenant depend only on what it may see of its own chain and of the one without a
tenant. For `GetByID`, which stops at the first entry with the id, the chains agree in full or
`Append` has filled the stores. -/
theorem tenant_isolation (hsame : SameVisible t vis s s') :
    (∀ sf env filters params, s.queryAnswers sf env t vis filters params =
      s'.queryAnswers sf env t vis filters params) ∧
    (∀ sf env filters cfg, s.pageAnswers sf env t vis filters cfg =
      s'.pageAnswers sf env t vis filters cfg) ∧
    ∀ env : LedgerEnv,
      (∀ k, tenantMatches k t = true → (s.chainOf k).entries = (s'.chainOf k).entries) ∨
        Reached env s ∧ Reached env s' →
      ∀ id, s.getByIDAnswers t vis id = s'.getByIDAnswers t vis id := by
  refine ⟨fun sf env filters params ↦ ?_, fun sf env filters cfg ↦ ?_, fun env hstates id ↦ ?_⟩
  · exact Set.Subset.antisymm (hsame.queryAnswers_subset sf env filters params)
      (hsame.symm.queryAnswers_subset sf env filters params)
  · exact Set.Subset.antisymm (hsame.pageAnswers_subset sf env filters cfg)
      (hsame.symm.pageAnswers_subset sf env filters cfg)
  · have hstates' := hstates.imp (fun h k hk ↦ (h k hk).symm) And.symm
    exact Set.Subset.antisymm (hsame.getByIDAnswers_subset hstates id)
      (hsame.symm.getByIDAnswers_subset hstates' id)

def acme : String := "11111111-1111-4111-8111-111111111111"

def globex : String := "22222222-2222-4222-8222-222222222222"

def acmeCalls : List (Option Entry) := [some (loginEntry "ev-1" "u-1" acme unixEpoch)]

/-- Two entries of another tenant, and one of the tenant that its user `u-1` does not see. -/
def sharedCalls : List (Option Entry) :=
  acmeCalls ++ [some (loginEntry "ev-1" "u-1" globex unixEpoch),
    some (loginEntry "ev-2" "u-1" globex unixEpoch), some (loginEntry "ev-3" "u-2" acme unixEpoch)]

theorem tenant_isolation_acme :
    ((after (append checksumEnv) empty sharedCalls).chains.keys.map fun k ↦
        ((after (append checksumEnv) empty sharedCalls).chainOf k).entries.length) = [2, 2] ∧
      ∀ id, (after (append checksumEnv) empty acmeCalls).getByIDAnswers (asciiBytes acme)
          ⟨.self, asciiBytes "u-1"⟩ id =
        (after (append checksumEnv) empty sharedCalls).getByIDAnswers (asciiBytes acme)
          ⟨.self, asciiBytes "u-1"⟩ id := by
  refine ⟨by decide +kernel, (tenant_isolation fun k hk ↦ ?_).2.2 checksumEnv
    (.inr ⟨⟨acmeCalls, rfl, by decide +kernel⟩, sharedCalls, rfl, by decide +kernel⟩)⟩
  rw [tenantMatches, Bool.or_eq_true, decide_eq_true_eq, decide_eq_true_eq] at hk
  obtain rfl | rfl := hk <;> decide +kernel

/-- Where the digest does not collide on what is hashed and no tenant has a NUL byte, an id names
one entry of all chains. -/
theorem entryIDs_unique (env : LedgerEnv) (calls : List (Option Entry))
    (hfree : CollisionFree env (appended (answers (append env) empty calls)))
    (hnul : ∀ e ∈ appended (answers (append env) empty calls), 0x00 ∉ e.tenantID) (k k' : Bytes) :
    ∀ e ∈ ((after (append env) empty calls).chainOf k).entries,
      ∀ e' ∈ ((after (append env) empty calls).chainOf k').entries, e.id = e'.id → e = e' := by
  intro e he e' he'
  have hentries := (tracks_run env calls).entries
  have hk : ∀ {k e}, e ∈ ((after (append env) empty calls).chainOf k).entries → 0x00 ∉ k := by
    intro k e he
    rw [hentries] at he
    obtain ⟨hlog, rfl⟩ := mem_ownChain.1 he
    exact hnul e hlog
  exact Reached.eq_of_id_eq ⟨calls, rfl, hfree⟩ he he' (hk he) (hk he')

theorem entryIDs_unique_shared :
    ((after (append checksumEnv) empty sharedCalls).chainOf (asciiBytes acme)).entries.length = 2 ∧
      ∀ e ∈ ((after (append checksumEnv) empty sharedCalls).chainOf (asciiBytes acme)).entries,
        ∀ e' ∈ ((after (append checksumEnv) empty sharedCalls).chainOf (asciiBytes globex)).entries,
          e.id = e'.id → e = e' :=
  ⟨by decide +kernel, entryIDs_unique checksumEnv sharedCalls (by decide +kernel)
    (by decide +kernel) _ _⟩

end MemStore

end GoCell.Audit
