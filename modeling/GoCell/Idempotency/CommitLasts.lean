import GoCell.Foundation.Runs
import GoCell.Foundation.Tables
import GoCell.Idempotency.InMemClaimer

namespace GoCell.Idempotency.InMemClaimer

open Foundation Kernel Option Function

/-- The key is done until `expiry` at least, by the token of the receipt `i`, which is settled.
Every receipt has the token that was drawn for it. -/
structure DoneUntil (rand : ℕ → Option String) (key : String) (i : ℕ) (expiry : ℤ)
    (c : InMemClaimer) : Prop where
  minted : ∀ (j : ℕ) r, c.receipts[j]? = some r → rand j = some r.token
  entry : ∃ token, rand i = some token ∧
    ∃ e : ℤ, c.entries key = some ⟨.done, token, e⟩ ∧ expiry ≤ e
  settled : ∃ r, c.receipts[i]? = some r ∧ r.used = true

/-- An `Extend` does not move the end of an entry of the key to before `expiry`. -/
def Keeps (key : String) (expiry : ℤ) (c : InMemClaimer) (x : Call) : Prop :=
  ∀ j ttl r, x.op = .extend (.lease j) ttl → c.receipts[j]? = some r → r.key = key →
    (c.held r).isSome = true → expiry ≤ (x.now + ttl : ℤ)

section

variable {rand : ℕ → Option String} {key : String} {i : ℕ} {expiry : ℤ} {c : InMemClaimer}

theorem claim_cases (c : InMemClaimer) (now : Time) (rand : Option String) (key : String)
    (leaseTTL doneTTL : Duration) :
    (c.claim now rand key leaseTTL doneTTL).1 = c ∨
      (∀ e, c.entries key = some e → e.expiresAt ≤ now) ∧
        ((c.claim now rand key leaseTTL doneTTL).1 = c.setEntry key none ∨
          ∃ token entry, rand = some token ∧ (c.claim now rand key leaseTTL doneTTL).1 =
            { c.setEntry key (some entry) with
              receipts := c.receipts ++
                [{ key := key, token := token, doneTTL := doneTTL }] }) := by
  unfold claim
  cases hentry : c.entries key with
  | none =>
    cases rand with
    | none => exact .inl rfl
    | some token =>
      refine .inr ⟨fun _ h ↦ ?_, .inr ⟨token, _, rfl, rfl⟩⟩
      cases h
  | some =>
    dsimp only
    split
    · exact .inl rfl
    · next hexpired =>
      refine .inr ⟨fun e he ↦ some.inj he ▸ not_lt.1 hexpired, ?_⟩
      cases rand with
      | none => exact .inl rfl
      | some token =>
        refine .inr ⟨token, ⟨.acquired, token, now + leaseTTL⟩, rfl, ?_⟩
        simp only [acquire, setEntry, update_idem]

theorem minted_claim (h : ∀ (j : ℕ) r, c.receipts[j]? = some r → rand j = some r.token) (now : Time)
    (key : String) (leaseTTL doneTTL : Duration) :
    ∀ (j : ℕ) r, (c.claim now (rand c.receipts.length) key leaseTTL doneTTL).1.receipts[j]? =
      some r → rand j = some r.token := by
  rcases c.claim_cases now (rand c.receipts.length) key leaseTTL doneTTL with
    hc | ⟨-, hc | ⟨token, entry, htoken, hc⟩⟩ <;> rw [hc]
  · exact h
  · exact h
  · intro j r hr
    obtain hr | ⟨rfl, rfl⟩ := getElem?_concat_cases hr
    · exact h j r hr
    · exact htoken

theorem minted_setReceipt (h : ∀ (j : ℕ) r, c.receipts[j]? = some r → rand j = some r.token) {j : ℕ}
    {r r' : InMemReceipt} (hr : c.receipts[j]? = some r) (htoken : r'.token = r.token) :
    ∀ (k : ℕ) s, (c.setReceipt j r').receipts[k]? = some s → rand k = some s.token := by
  intro k s hs
  obtain ⟨rfl, rfl⟩ | ⟨-, hs⟩ := getElem?_set_cases hs
  · exact htoken ▸ h j r hr
  · exact h k s hs

theorem DoneUntil.claim (h : DoneUntil rand key i expiry c) {now : ℤ} (hnow : now < expiry)
    (key' : String) (leaseTTL doneTTL : Duration) :
    DoneUntil rand key i expiry
      (c.claim now (rand c.receipts.length) key' leaseTTL doneTTL).1 := by
  obtain ⟨token, htoken, e, hentry, hexpiry⟩ := h.entry
  obtain ⟨r, hr, hused⟩ := h.settled
  refine ⟨minted_claim h.minted now key' leaseTTL doneTTL, ⟨token, htoken, e, ?_, hexpiry⟩, ?_⟩
  · -- an entry of the key is live, so that it is not touched
    rcases c.claim_cases now (rand c.receipts.length) key' leaseTTL doneTTL with
      hc | ⟨hexpired, hc⟩
    · rw [hc, hentry]
    · have hne : key ≠ key' := by
        rintro rfl
        have hle : e ≤ now := hexpired _ hentry
        omega
      rcases hc with hc | ⟨_, _, -, hc⟩ <;> rw [hc] <;>
        exact (update_of_ne hne _ _).trans hentry
  · rcases c.claim_cases now (rand c.receipts.length) key' leaseTTL doneTTL with
      hc | ⟨-, hc | ⟨_, _, -, hc⟩⟩ <;> rw [hc]
    · exact ⟨r, hr, hused⟩
    · exact ⟨r, hr, hused⟩
    · exact ⟨r, (List.getElem?_append_left (List.getElem?_eq_some_iff.1 hr).1).trans hr, hused⟩

theorem DoneUntil.settle (hrand : ∀ i j token, rand i = some token → rand j = some token → i = j)
    (h : DoneUntil rand key i expiry c) (how : Settlement) (now : Time) (ref : ReceiptRef) :
    DoneUntil rand key i expiry (c.settle how now ref).1 := by
  obtain ⟨token, htoken, e, hentry, hexpiry⟩ := h.entry
  obtain ⟨r, hr, hused⟩ := h.settled
  cases ref with
  | nonAcquired => exact h
  | lease j =>
    simp only [InMemClaimer.settle]
    cases hrj : c.receipts[j]? with
    | none => exact h
    | some rj =>
      dsimp only
      split
      · exact h
      · next hfresh =>
        -- another receipt than the settled one has another token
        have hji : j ≠ i := by
          rintro rfl
          exact hfresh (some.inj (hrj.symm.trans hr) ▸ hused)
        have hsettled : ∀ r', ∃ r, (c.setReceipt j r').receipts[i]? = some r ∧ r.used = true :=
          fun r' ↦ ⟨r, (List.getElem?_set_ne hji).trans hr, hused⟩
        cases hheld : c.held rj with
        | none =>
          exact ⟨minted_setReceipt h.minted hrj rfl, ⟨token, htoken, e, hentry, hexpiry⟩,
            hsettled _⟩
        | some entry =>
          have hkey : key ≠ rj.key := by
            rintro rfl
            obtain ⟨hmem, heq⟩ := filter_eq_some_iff.1 hheld
            cases hentry.symm.trans hmem
            have hsame : token = rj.token := of_decide_eq_true heq
            exact hji (hrand j i token (hsame ▸ h.minted j rj hrj) htoken)
          exact ⟨minted_setReceipt h.minted hrj rfl,
            ⟨token, htoken, e, (update_of_ne hkey _ _).trans hentry, hexpiry⟩, hsettled _⟩

theorem DoneUntil.extend (h : DoneUntil rand key i expiry c) {now : Time} {ref : ReceiptRef}
    {ttl : Duration} (hkeeps : Keeps key expiry c ⟨now, .extend ref ttl⟩) :
    DoneUntil rand key i expiry (c.extend now ref ttl).1 := by
  obtain ⟨token, htoken, e, hentry, hexpiry⟩ := h.entry
  cases ref with
  | nonAcquired => exact h
  | lease j =>
    simp only [InMemClaimer.extend]
    cases hrj : c.receipts[j]? with
    | none => exact h
    | some rj =>
      dsimp only
      cases hheld : c.held rj with
      | none => exact h
      | some entry =>
        refine ⟨h.minted, ⟨token, htoken, ?_⟩, h.settled⟩
        by_cases hkey : key = rj.key
        · obtain rfl := some.inj
            (hentry.symm.trans (hkey ▸ (filter_eq_some_iff.1 hheld).1))
          refine ⟨now + ttl, ?_, hkeeps j ttl rj rfl hrj hkey.symm (by rw [hheld]; rfl)⟩
          rw [hkey]
          exact update_self _ _ _
        · exact ⟨e, (update_of_ne hkey _ _).trans hentry, hexpiry⟩

theorem DoneUntil.call (hrand : ∀ i j token, rand i = some token → rand j = some token → i = j)
    (h : DoneUntil rand key i expiry c) {x : Call} (hnow : (x.now : ℤ) < expiry)
    (hkeeps : Keeps key expiry c x) :
    DoneUntil rand key i expiry ((claimer rand).call c x).1 := by
  obtain ⟨now, op⟩ := x
  cases op with
  | claim key' leaseTTL doneTTL => exact h.claim hnow key' leaseTTL doneTTL
  | settle how ref => cases how <;> exact h.settle hrand _ now ref
  | extend => exact h.extend hkeeps

theorem minted_after (calls : List Call) :
    ∀ (j : ℕ) r, (after (claimer rand).call {} calls).receipts[j]? = some r →
      rand j = some r.token := by
  refine after_invariant
    (fun c : InMemClaimer ↦ ∀ (j : ℕ) r, c.receipts[j]? = some r → rand j = some r.token)
    ?_ calls {} (fun _ _ h ↦ by cases h)
  rintro c ⟨now, op⟩ h
  cases op with
  | claim key leaseTTL doneTTL => exact minted_claim h now key leaseTTL doneTTL
  | settle how ref =>
    have hsettle : ∀ how, ∀ (j : ℕ) r, (c.settle how now ref).1.receipts[j]? = some r →
        rand j = some r.token := by
      intro how
      unfold InMemClaimer.settle
      split
      · exact h
      · split
        · exact h
        · next r hr =>
          split
          · exact h
          · split <;> exact minted_setReceipt h hr rfl
    cases how <;> exact hsettle _
  | extend =>
    simp only [Claimer.call, claimer, InMemClaimer.extend]
    split
    · exact h
    · split
      · exact h
      · split <;> exact h

/-- The commit that settles a receipt starts the time in which the key is done. -/
theorem doneUntil_commit (hminted : ∀ (j : ℕ) r, c.receipts[j]? = some r → rand j = some r.token)
    {now : Time} {r : InMemReceipt} (hr : c.receipts[i]? = some r) (hfresh : r.used = false)
    (hok : (c.commit now (.lease i)).2 = .ok ()) :
    DoneUntil rand r.key i (now + r.doneTTL : ℤ) (c.commit now (.lease i)).1 := by
  simp only [commit, InMemClaimer.settle, hr, hfresh, Bool.false_eq_true, if_false] at hok ⊢
  split at hok
  · cases hok
  · next e hheld =>
    have htoken : e.token = r.token := of_decide_eq_true (filter_eq_some_iff.1 hheld).2
    refine ⟨minted_setReceipt hminted hr rfl,
      ⟨r.token, hminted i r hr, now + r.doneTTL, ?_, le_rfl⟩, _, List.getElem?_set_self ?_, rfl⟩
    · rw [← htoken]
      exact update_self _ _ _
    · exact (List.getElem?_eq_some_iff.1 hr).1

end

/-- After a `Commit` that settles its receipt, the key is done for its time to live as long as no
`Extend` of a receipt that holds it ends earlier. -/
theorem commit_lasts (rand : ℕ → Option String)
    (hrand : ∀ i j token, rand i = some token → rand j = some token → i = j) (earlier : List Call)
    (c : InMemClaimer) (hc : c = after (claimer rand).call {} earlier) (t : Time) (i : ℕ)
    (r : InMemReceipt) (hr : c.receipts[i]? = some r) (hfresh : r.used = false)
    (hok : (c.commit t (.lease i)).2 = .ok ()) (later : List Call) (now : Time)
    (hclock : ∀ x ∈ later, x.now ≤ now) (hlive : now < t + r.doneTTL)
    (hkeeps : ∀ pre x, pre ++ [x] <+: later → Keeps r.key (t + r.doneTTL : ℤ)
      (after (claimer rand).call (c.commit t (.lease i)).1 pre) x)
    (leaseTTL doneTTL : Duration) (token : Option String) :
    ∃ ref, ((after (claimer rand).call (c.commit t (.lease i)).1 later).claim now token r.key
      leaseTTL doneTTL).2 = .ok (.done, ref) := by
  have hminted := hc ▸ minted_after earlier
  have hdone : ∀ pre, pre <+: later → DoneUntil rand r.key i (t + r.doneTTL : ℤ)
      (after (claimer rand).call (c.commit t (.lease i)).1 pre) := by
    intro pre hpre
    induction pre using List.reverseRecOn with
    | nil => exact doneUntil_commit hminted hr hfresh hok
    | append_singleton pre x ih =>
      rw [after, List.foldl_append]
      have hx : x ∈ later := hpre.subset (List.mem_append_right _ List.mem_cons_self)
      exact (ih ((List.prefix_append _ _).trans hpre)).call hrand
        (lt_of_le_of_lt (hclock x hx) hlive) (hkeeps pre x hpre)
  obtain ⟨token', -, e, hentry, hexpiry⟩ := (hdone later (List.prefix_refl _)).entry
  exact (claim_done_iff hentry token leaseTTL doneTTL).2 (lt_of_lt_of_le hlive hexpiry)

def sampleRand (i : ℕ) : Option String := [some "a", some "b"].getD i none

theorem sampleRand_inj {i j : ℕ} {token : String} (hi : sampleRand i = some token)
    (hj : sampleRand j = some token) : i = j := by
  have hcases : ∀ {k : ℕ}, sampleRand k = some token →
      (k = 0 ∧ token = "a") ∨ (k = 1 ∧ token = "b") := by
    intro k hk
    match k, hk with
    | 0, hk => exact .inl ⟨rfl, (some.inj hk).symm⟩
    | 1, hk => exact .inr ⟨rfl, (some.inj hk).symm⟩
  obtain ⟨rfl, rfl⟩ | ⟨rfl, rfl⟩ := hcases hi <;> obtain ⟨rfl, h⟩ | ⟨rfl, h⟩ := hcases hj <;>
    first | rfl | exact absurd h (by decide)

/-- The key `k`, claimed at 0 for ten and committed at 1 for a hundred. -/
def claimedOnce : InMemClaimer := after (claimer sampleRand).call {} [⟨0, .claim "k" 10 100⟩]

/-- A `Release`, a second `Commit`, and an `Extend` to beyond the end. -/
def settledAgain : List Call :=
  [⟨2, .settle .release (.lease 0)⟩, ⟨3, .settle .commit (.lease 0)⟩, ⟨4, .extend (.lease 0) 200⟩]

theorem commit_lasts_claimedOnce :
    ∃ ref, ((after (claimer sampleRand).call (claimedOnce.commit 1 (.lease 0)).1 settledAgain).claim
      50 none "k" 10 100).2 = .ok (.done, ref) := by
  refine commit_lasts sampleRand (fun _ _ _ ↦ sampleRand_inj) [⟨0, .claim "k" 10 100⟩] claimedOnce
    rfl 1 0 ⟨"k", "a", 100, false, none⟩ rfl rfl rfl settledAgain 50 (by decide)
      (by decide) ?_ 10 100
    none
  refine forall_prefix_cons (fun _ _ _ h ↦ nomatch h) <|
    forall_prefix_cons (fun _ _ _ h ↦ nomatch h) <| forall_prefix_cons ?_ forall_prefix_nil
  intro j ttl r h _ _ _
  cases h
  decide

/-- An `Extend` by one at 2 ends the entry at 3, so that a claim at 4 is granted. -/
theorem commit_shortened_by_extend :
    ¬∀ (rand : ℕ → Option String),
      (∀ i j token, rand i = some token → rand j = some token → i = j) →
      ∀ (c : InMemClaimer) (earlier : List Call), c = after (claimer rand).call {} earlier →
        ∀ (t now : Time) (i : ℕ) (r : InMemReceipt), c.receipts[i]? = some r → r.used = false →
          (c.commit t (.lease i)).2 = .ok () → ∀ later : List Call,
            (later.map Call.now).Pairwise (· ≤ ·) → (∀ x ∈ later, t ≤ x.now ∧ x.now ≤ now) →
              now < t + r.doneTTL →
                ∃ ref, ((claimer rand).claim (after (claimer rand).call
                  (c.commit t (.lease i)).1 later) now r.key 10 100).2 = .ok (.done, ref) := by
  intro h
  obtain ⟨ref, hdone⟩ := h sampleRand (fun _ _ _ ↦ sampleRand_inj) claimedOnce
    [⟨0, .claim "k" 10 100⟩] rfl 1 4 0 ⟨"k", "a", 100, false, none⟩ rfl rfl rfl
    [⟨2, .extend (.lease 0) 1⟩] (by simp) (by decide) (by decide)
  have hgranted : ((claimer sampleRand).claim (after (claimer sampleRand).call
      (claimedOnce.commit 1 (.lease 0)).1 [⟨2, .extend (.lease 0) 1⟩]) 4 "k" 10 100).2 =
        .ok (.acquired, .lease 1) := rfl
  rw [hgranted] at hdone
  cases hdone

end GoCell.Idempotency.InMemClaimer
