import GoCell.HttpIdempotency.MemStore

namespace GoCell.HttpIdempotency.MemStore

open Idempotency Kernel List Function

variable (s : MemStore)

def owner (i : ℕ) : Option (String × Bytes) :=
  (s.receipts[i]?).map fun r ↦ (r.composed, r.token)

/-- Tokens identify receipts, and an entry with a token belongs to the last receipt of its key. -/
structure Fenced (s : MemStore) : Prop where
  tokens : ∀ {i j c c' token}, s.owner i = some (c, token) → s.owner j = some (c', token) → i = j
  ne_nil : ∀ {i c token}, s.owner i = some (c, token) → token ≠ []
  newest : ∀ {c e}, s.entries c = some e → e.leaseToken ≠ [] →
    ∃ i, s.owner i = some (c, e.leaseToken) ∧ ∀ j token, s.owner j = some (c, token) → j ≤ i

def FreshToken (token : Bytes) : Prop :=
  token ≠ [] ∧ ∀ r ∈ s.receipts, r.token ≠ token

instance (s : MemStore) (token : Bytes) : Decidable (s.FreshToken token) :=
  inferInstanceAs (Decidable (_ ∧ _))

def Idle (now : Time) (c : String) : Prop :=
  ∀ e, s.entries c = some e → e.replay now = none ∧ e.leased now = false

/-- The receipt has the lease of the key: until `expiry` the entry has its token. -/
def Backs (now : Time) (ref : ReceiptRef) (c : String) (fingerprint : Bytes)
    (expiry : Time) : Prop :=
  ∃ i token, ref = .lease i ∧ s.owner i = some (c, token) ∧
    (now < expiry → ∃ e, s.entries c = some e ∧ e.leaseToken = token) ∧
    ∀ e, s.entries c = some e → e.leaseToken = token →
      e.leaseExpiry = expiry ∧ e.fingerprint = fingerprint

def Unleased (entry : MemEntry → Option MemEntry) : Prop :=
  ∀ e e', entry e = some e' → e'.leaseToken = []

section

variable {s : MemStore} {now t expiry : Time} {c : String} {i j : ℕ} {k : IdempotencyKey}
  {token : Option Bytes} {fingerprint fp : Bytes} {leaseTTL : Duration} {ref ref' : ReceiptRef}
  {again : Except Err Unit} {entry : MemEntry → Option MemEntry} {e : MemEntry}

theorem owner_lt {x : String × Bytes} (h : s.owner i = some x) : i < s.receipts.length := by
  obtain ⟨r, hr, -⟩ := Option.map_eq_some_iff.1 h
  exact (List.getElem?_eq_some_iff.1 hr).1

theorem token_of_owner {b : Bytes} (h : s.owner i = some (c, b)) :
    ∃ r ∈ s.receipts, r.token = b := by
  obtain ⟨r, hr, heq⟩ := Option.map_eq_some_iff.1 h
  cases heq
  exact ⟨r, mem_of_getElem? hr, rfl⟩

theorem claim_cases (s : MemStore) (now : Time) (token : Option Bytes) (k : IdempotencyKey)
    (fingerprint : Bytes) (leaseTTL : Duration) :
    ((s.claim now token k fingerprint leaseTTL).1 = s ∧
      ∀ ref, (s.claim now token k fingerprint leaseTTL).2 ≠ .ok (.acquired ref)) ∨
    s.Idle now k.flat ∧
      s.claim now token k fingerprint leaseTTL =
        s.acquire now token k.flat fingerprint leaseTTL := by
  unfold claim
  split
  · exact .inl ⟨rfl, fun _ h ↦ by cases h⟩
  split
  · next hnone => exact .inr ⟨fun e he ↦ absurd (hnone.symm.trans he) (by simp), rfl⟩
  next e he =>
  split
  · exact .inl ⟨rfl, fun _ h ↦ by cases h⟩
  split
  · exact .inl ⟨rfl, fun _ h ↦ by cases h⟩
  next hreplay =>
  split
  · exact .inl ⟨rfl, fun _ h ↦ by cases h⟩
  · next hleased =>
    refine .inr ⟨fun e' he' ↦ ?_, rfl⟩
    obtain rfl : e = e' := Option.some.inj (he.symm.trans he')
    exact ⟨hreplay, by simpa using hleased⟩

theorem claim_of_idle (hns : k.ns ≠ "") (hkey : k.key ≠ "") (h : s.Idle now k.flat) :
    s.claim now token k fingerprint leaseTTL = s.acquire now token k.flat fingerprint leaseTTL := by
  simp only [claim, hns, hkey, or_self, if_false]
  cases he : s.entries k.flat with
  | none => rfl
  | some e =>
    obtain ⟨hreplay, hleased⟩ := h e he
    simp [MemEntry.mismatch, hreplay, hleased]

theorem claim_of_live (hns : k.ns ≠ "") (hkey : k.key ≠ "") (he : s.entries k.flat = some e)
    {recorded : Option RecordedResponse} (hreplay : e.replay now = recorded)
    (hlive : (recorded.isSome || e.leased now) = true) :
    s.claim now token k fingerprint leaseTTL =
      (s, if fpMismatch e.fingerprint fingerprint then .error (.mismatch e.fingerprint)
          else .ok (recorded.elim .busy .done)) := by
  simp only [claim, hns, hkey, or_self, if_false, he, MemEntry.mismatch, hreplay, hlive,
    Bool.true_and]
  split
  · rfl
  · cases recorded with
    | some rec => rfl
    | none => exact if_pos hlive

theorem owner_acquire_some (token : Bytes) :
    (s.acquire now (some token) c fingerprint leaseTTL).1.owner i =
      if i = s.receipts.length then some (c, token) else s.owner i := by
  unfold owner acquire
  dsimp only
  rw [getElem?_append, getElem?_singleton]
  split
  · next h => rw [if_neg (by omega)]
  · next h =>
    split
    · next hi => rw [if_pos (by omega)]; rfl
    · next hi =>
      rw [if_neg (by omega), getElem?_eq_none (by omega)]

theorem owner_acquire_of_owner {x : String × Bytes} (h : s.owner i = some x) :
    (s.acquire now token c fingerprint leaseTTL).1.owner i = some x := by
  cases token with
  | none => exact h
  | some token =>
    rw [owner_acquire_some, if_neg (owner_lt h).ne]
    exact h

theorem entries_acquire_of_ne {c' : String} (h : c' ≠ c) :
    (s.acquire now token c fingerprint leaseTTL).1.entries c' = s.entries c' := by
  cases token with
  | none | some => exact update_of_ne h _ _

theorem entries_acquire_none :
    (s.acquire now none c fingerprint leaseTTL).1.entries c = none := update_self _ _ _

theorem entries_acquire_some (token : Bytes) :
    (s.acquire now (some token) c fingerprint leaseTTL).1.entries c =
      some { leaseToken := token, leaseExpiry := now + leaseTTL, fingerprint := fingerprint } :=
  update_self _ _ _

theorem Fenced.acquire (h : s.Fenced) (hfresh : ∀ b ∈ token, s.FreshToken b) :
    (s.acquire now token c fingerprint leaseTTL).1.Fenced := by
  cases token with
  | none =>
    refine ⟨h.tokens, h.ne_nil, fun {c' e} he htoken ↦ ?_⟩
    by_cases hc : c' = c
    · rw [hc, entries_acquire_none] at he
      cases he
    · rw [entries_acquire_of_ne hc] at he
      exact h.newest he htoken
  | some b =>
    obtain ⟨hb, hfresh⟩ := hfresh b rfl
    have fresh_owner : ∀ {i c'}, s.owner i ≠ some (c', b) := by
      intro i c' ho
      obtain ⟨r, hr, hrb⟩ := token_of_owner ho
      exact hfresh r hr hrb
    refine ⟨?_, ?_, ?_⟩
    · intro i j c₁ c₂ token hi hj
      rw [owner_acquire_some] at hi hj
      split at hi <;> split at hj
      · omega
      · cases hi
        exact absurd hj fresh_owner
      · cases hj
        exact absurd hi fresh_owner
      · exact h.tokens hi hj
    · intro i c₁ token hi
      rw [owner_acquire_some] at hi
      split at hi
      · cases hi
        exact hb
      · exact h.ne_nil hi
    · intro c' e he htoken
      by_cases hc : c' = c
      · subst hc
        rw [entries_acquire_some] at he
        cases he
        refine ⟨s.receipts.length, by rw [owner_acquire_some, if_pos rfl], fun j token hj ↦ ?_⟩
        rw [owner_acquire_some] at hj
        split at hj
        · omega
        · exact (owner_lt hj).le
      · rw [entries_acquire_of_ne hc] at he
        obtain ⟨i, hi, hlast⟩ := h.newest he htoken
        refine ⟨i, owner_acquire_of_owner hi, fun j token hj ↦ ?_⟩
        rw [owner_acquire_some] at hj
        split at hj
        · cases hj
          exact absurd rfl hc
        · exact hlast j token hj

theorem Fenced.claim (h : s.Fenced) (hfresh : ∀ b ∈ token, s.FreshToken b) :
    (s.claim now token k fingerprint leaseTTL).1.Fenced := by
  obtain ⟨heq, -⟩ | ⟨-, heq⟩ := claim_cases s now token k fingerprint leaseTTL
  · rw [heq]
    exact h
  · rw [heq]
    exact h.acquire hfresh

@[simp] theorem owner_settle : (s.settle ref again entry).1.owner = s.owner := by
  unfold settle
  split
  · rfl
  split
  · rfl
  next i _ r hr =>
  split
  · rfl
  have hset : (fun j ↦ ((s.receipts.set i { r with settled := true })[j]?).map fun r ↦
      (r.composed, r.token)) = s.owner := by
    funext j
    unfold owner
    rw [getElem?_set]
    split
    · next hij =>
      subst hij
      rw [if_pos (List.getElem?_eq_some_iff.1 hr).1, hr]
      rfl
    · rfl
  split <;> exact hset

theorem settle_cases (s : MemStore) (ref : ReceiptRef) (again : Except Err Unit)
    (entry : MemEntry → Option MemEntry) :
    (s.settle ref again entry).1.entries = s.entries ∨
    ∃ i c e, ref = .lease i ∧ s.owner i = some (c, e.leaseToken) ∧ s.entries c = some e ∧
      (s.settle ref again entry).1.entries = update s.entries c (entry e) ∧
      (s.settle ref again entry).2 = .ok () := by
  unfold settle
  split
  · exact .inl rfl
  split
  · exact .inl rfl
  next i _ r hr =>
  split
  · exact .inl rfl
  split
  · exact .inl rfl
  · next e he =>
    obtain ⟨hentry, htoken⟩ := held_eq_some.1 he
    refine .inr ⟨i, r.composed, e, rfl, ?_, hentry, rfl, rfl⟩
    rw [owner, hr, htoken]
    rfl

theorem entries_settle_of_error (h : (s.settle ref again entry).2 ≠ .ok ()) :
    (s.settle ref again entry).1.entries = s.entries := by
  obtain heq | ⟨i, c, e, -, -, -, -, hok⟩ := settle_cases s ref again entry
  · exact heq
  · exact absurd hok h

theorem Fenced.settle (h : s.Fenced) (hentry : Unleased entry) :
    (s.settle ref again entry).1.Fenced := by
  refine ⟨?_, ?_, ?_⟩
  · rw [owner_settle]
    exact h.tokens
  · rw [owner_settle]
    exact h.ne_nil
  · rw [owner_settle]
    intro c' e' he' htoken
    obtain heq | ⟨i, c, e, -, -, -, heq, -⟩ := settle_cases s ref again entry
    · rw [heq] at he'
      exact h.newest he' htoken
    · rw [heq] at he'
      by_cases hc : c' = c
      · subst hc
        rw [update_self] at he'
        exact absurd (hentry e e' he') htoken
      · rw [update_of_ne hc] at he'
        exact h.newest he' htoken

theorem Fenced.entries_settle (h : s.Fenced) (he : s.entries c = some e)
    (htoken : e.leaseToken = []) : (s.settle ref again entry).1.entries c = some e := by
  obtain heq | ⟨i, c', e', -, ho, he', heq, -⟩ := settle_cases s ref again entry
  · rw [heq]
    exact he
  · have hne : c ≠ c' := by
      intro hc
      subst hc
      obtain rfl : e = e' := Option.some.inj (he.symm.trans he')
      exact h.ne_nil ho htoken
    rw [heq, update_of_ne hne]
    exact he

theorem entries_claim {rec : RecordedResponse} (he : s.entries c = some e)
    (hreplay : e.replay now = some rec) :
    (s.claim now token k fingerprint leaseTTL).1.entries c = some e := by
  obtain ⟨heq, -⟩ | ⟨hidle, heq⟩ := claim_cases s now token k fingerprint leaseTTL
  · rw [heq]
    exact he
  · have hne : c ≠ k.flat := by
      intro hc
      subst hc
      rw [(hidle e he).1] at hreplay
      cases hreplay
    rw [heq, entries_acquire_of_ne hne]
    exact he

theorem Fenced.entries_settle_replaced {r r' : MemReceipt} (h : s.Fenced) (hij : i < j)
    (hi : s.receipts[i]? = some r) (hj : s.receipts[j]? = some r') (hc : r.composed = r'.composed) :
    (s.settle (.lease i) again entry).1.entries = s.entries := by
  obtain heq | ⟨i', c, e, href, ho, he, -⟩ := settle_cases s (.lease i) again entry
  · exact heq
  · cases href
    obtain ⟨i', hi', hlast⟩ := h.newest he (h.ne_nil ho)
    have hci : r.composed = c := by
      rw [owner, hi] at ho
      exact (Prod.mk.inj (Option.some.inj ho)).1
    have hoj : s.owner j = some (c, r'.token) := by
      rw [owner, hj, ← hci, hc]
      rfl
    have hle := hlast j r'.token hoj
    have hii := h.tokens ho hi'
    omega

theorem Backs.later (h : s.Backs now ref c fp expiry) (hle : now ≤ t) :
    s.Backs t ref c fp expiry := by
  obtain ⟨i, token, href, ho, hlive, hentry⟩ := h
  exact ⟨i, token, href, ho, fun ht ↦ hlive (lt_of_le_of_lt hle ht), hentry⟩

theorem Backs.not_idle (hf : s.Fenced) (h : s.Backs now ref c fp expiry) (hnow : now < expiry) :
    ¬ s.Idle now c := by
  intro hidle
  obtain ⟨i, token, -, ho, hlive, hentry⟩ := h
  obtain ⟨e, he, htoken⟩ := hlive hnow
  have hleased : e.leased now = true := by
    unfold MemEntry.leased
    rw [(hentry e he htoken).1, htoken]
    simp [hf.ne_nil ho, hnow]
  rw [(hidle e he).2] at hleased
  cases hleased

theorem Backs.claim (hf : s.Fenced) (hfresh : ∀ b ∈ token, s.FreshToken b)
    (h : s.Backs now ref c fp expiry) :
    (s.claim now token k fingerprint leaseTTL).1.Backs now ref c fp expiry := by
  obtain ⟨heq, -⟩ | ⟨hidle, heq⟩ := claim_cases s now token k fingerprint leaseTTL
  · rw [heq]
    exact h
  have hexpired : c = k.flat → ¬ now < expiry := fun hc hnow ↦ h.not_idle hf hnow (hc ▸ hidle)
  obtain ⟨i, b, href, ho, hlive, hentry⟩ := h
  rw [heq]
  refine ⟨i, b, href, owner_acquire_of_owner ho, fun hnow ↦ ?_, fun e he hb ↦ ?_⟩
  · rw [entries_acquire_of_ne fun hc ↦ hexpired hc hnow]
    exact hlive hnow
  · by_cases hc : c = k.flat
    · -- the entry of the new lease has another token
      subst hc
      cases token with
      | none =>
        rw [entries_acquire_none] at he
        cases he
      | some b' =>
        rw [entries_acquire_some] at he
        cases he
        obtain ⟨r, hr, hrb⟩ := token_of_owner ho
        exact absurd (hrb.trans hb.symm) ((hfresh b' rfl).2 r hr)
    · rw [entries_acquire_of_ne hc] at he
      exact hentry e he hb

theorem Backs.settle (hf : s.Fenced) (hu : Unleased entry) (hne : ref' ≠ ref)
    (h : s.Backs now ref c fp expiry) :
    (s.settle ref' again entry).1.Backs now ref c fp expiry := by
  obtain ⟨i, b, href, ho, hlive, hentry⟩ := h
  obtain heq | ⟨j, c', e', href', ho', he', heq, -⟩ := settle_cases s ref' again entry
  · refine ⟨i, b, href, by rw [owner_settle]; exact ho, ?_, ?_⟩
    · rw [heq]
      exact hlive
    · rw [heq]
      exact hentry
  refine ⟨i, b, href, by rw [owner_settle]; exact ho, ?_, ?_⟩
  · intro hnow
    obtain ⟨e, he, hb⟩ := hlive hnow
    have hc : c ≠ c' := by
      intro hc
      subst hc
      obtain rfl : e = e' := Option.some.inj (he.symm.trans he')
      obtain rfl := hf.tokens ho (hb ▸ ho')
      exact hne (href'.trans href.symm)
    exact ⟨e, by rw [heq, update_of_ne hc]; exact he, hb⟩
  · intro e he hb
    rw [heq] at he
    by_cases hc : c = c'
    · subst hc
      rw [update_self] at he
      exact absurd (hb.symm.trans (hu e' e he)) (hf.ne_nil ho)
    · rw [update_of_ne hc] at he
      exact hentry e he hb

theorem backs_acquired (h : (s.claim now token k fingerprint leaseTTL).2 = .ok (.acquired ref)) :
    ref = .lease s.receipts.length ∧
      (s.claim now token k fingerprint leaseTTL).1.Backs now ref k.flat fingerprint
        (now + leaseTTL) := by
  obtain ⟨-, hne⟩ | ⟨-, heq⟩ := claim_cases s now token k fingerprint leaseTTL
  · exact absurd h (hne ref)
  rw [heq] at h ⊢
  cases token with
  | none => cases h
  | some b =>
    cases h
    refine ⟨rfl, s.receipts.length, b, rfl, by rw [owner_acquire_some, if_pos rfl], ?_, ?_⟩
    · intro _
      exact ⟨_, entries_acquire_some b, rfl⟩
    · intro e he _
      rw [entries_acquire_some] at he
      cases he
      exact ⟨rfl, rfl⟩

theorem unleased_record {resp : RecordedResponse} {stamp doneExpiry : Time} :
    Unleased fun e ↦ some { recorded := some { resp with recordedAt := stamp },
                            doneExpiry := doneExpiry, fingerprint := e.fingerprint } := by
  intro e e' he
  cases he
  rfl

theorem unleased_release : Unleased fun _ ↦ none := by
  intro e e' he
  cases he

end

end GoCell.HttpIdempotency.MemStore
