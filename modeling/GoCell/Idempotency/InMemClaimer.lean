import GoCell.Idempotency.Claimer

namespace GoCell.Idempotency

open Kernel

/-- `state` is `acquired` for an entry in flight and `done` for a committed one. -/
structure InMemEntry where
  state : ClaimState
  token : String
  expiresAt : Time
  deriving DecidableEq

/-- `used` is the `sync.Once` that `Commit` and `Release` share. -/
structure InMemReceipt where
  key : String
  token : String
  doneTTL : Duration
  used : Bool := false
  err : Option Err := none
  deriving DecidableEq

/-- `receipts` are the receipts handed out so far, by their number. -/
structure InMemClaimer where
  entries : String → Option InMemEntry := fun _ ↦ none
  receipts : List InMemReceipt := []

/-- `errors.New` carries no code. -/
def errStaleReceipt : Err :=
  ⟨.internal, .internal, "idempotency: receipt is stale (claim was released or expired)", []⟩

def errRandSource : Err := ⟨.internal, .internal, "idempotency: rand source read failed", []⟩

def InMemReceipt.result (r : InMemReceipt) : Except Err Unit :=
  match r.err with
  | some e => .error e
  | none => .ok ()

namespace InMemClaimer

variable (c : InMemClaimer)

def setEntry (key : String) (e : Option InMemEntry) : InMemClaimer :=
  { c with entries := Function.update c.entries key e }

variable (now : Time)

/-- The end of `Claim` for a key without a live entry; `rand` is what `newToken` draws. -/
def acquire (rand : Option String) (key : String)
    (leaseTTL doneTTL : Duration) : InMemClaimer × Except Err (ClaimState × ReceiptRef) :=
  match rand with
  | none => (c, .error errRandSource)
  | some token =>
    let c' := c.setEntry key (some ⟨.acquired, token, now + leaseTTL⟩)
    ({ c' with receipts := c.receipts ++ [{ key := key, token := token, doneTTL := doneTTL }] },
      .ok (.acquired, .lease c.receipts.length))

def claim (rand : Option String) (key : String)
    (leaseTTL doneTTL : Duration) : InMemClaimer × Except Err (ClaimState × ReceiptRef) :=
  match c.entries key with
  | some existing =>
    if now < existing.expiresAt then
      (c, .ok (if existing.state = .done then .done else .busy, .nonAcquired))
    else (c.setEntry key none).acquire now rand key leaseTTL doneTTL
  | none => c.acquire now rand key leaseTTL doneTTL

def held (r : InMemReceipt) : Option InMemEntry :=
  (c.entries r.key).filter fun e ↦ e.token = r.token

def setReceipt (i : ℕ) (r : InMemReceipt) : InMemClaimer :=
  { c with receipts := c.receipts.set i r }

def settledEntry (r : InMemReceipt) (e : InMemEntry) : Settlement → Option InMemEntry
  | .commit => some { e with state := .done, expiresAt := now + r.doneTTL }
  | .release => none

/-- `Commit` and `Release`: only the first of them to be called has an effect. -/
def settle (how : Settlement) (now : Time) (ref : ReceiptRef) : InMemClaimer × Except Err Unit :=
  match ref with
  | .nonAcquired => (c, .error errNoClaimLease)
  | .lease i =>
    match c.receipts[i]? with
    | none => (c, .error errNoClaimLease)
    | some r =>
      if r.used then (c, r.result)
      else match c.held r with
        | none =>
          (c.setReceipt i { r with used := true, err := some errStaleReceipt },
            .error errStaleReceipt)
        | some e =>
          ((c.setEntry r.key (settledEntry now r e how)).setReceipt i
            { r with used := true, err := none }, .ok ())

variable (ref : ReceiptRef)

def commit : InMemClaimer × Except Err Unit :=
  c.settle .commit now ref

def release : InMemClaimer × Except Err Unit :=
  c.settle .release now ref

def extend (ttl : Duration) : InMemClaimer × Except Err Unit :=
  match ref with
  | .nonAcquired => (c, .error errNoClaimLease)
  | .lease i =>
    match c.receipts[i]? with
    | none => (c, .error errNoClaimLease)
    | some r =>
      match c.held r with
      | none => (c, .error errLeaseExpired)
      | some e => (c.setEntry r.key (some { e with expiresAt := now + ttl }), .ok ())

/-- The claimer that draws its tokens from `rand`, one for each lease. -/
def claimer (rand : ℕ → Option String) : Claimer InMemClaimer ReceiptRef where
  claim c now key leaseTTL doneTTL := c.claim now (rand c.receipts.length) key leaseTTL doneTTL
  commit := commit
  release := release
  extend := extend

section

variable {c} {now : Time} {i : ℕ} {r : InMemReceipt}

theorem receipt_acquire (h : c.receipts[i]? = some r) (rand : Option String) (key : String)
    (leaseTTL doneTTL : Duration) :
    (c.acquire now rand key leaseTTL doneTTL).1.receipts[i]? = some r := by
  cases rand with
  | none => exact h
  | some token => exact List.getElem?_append_left (List.getElem?_eq_some_iff.1 h).1 ▸ h

theorem receipt_of_acquired {token key : String} {leaseTTL doneTTL : Duration}
    (h : (c.claim now (some token) key leaseTTL doneTTL).2 = .ok (.acquired, .lease i)) :
    (c.claim now (some token) key leaseTTL doneTTL).1.receipts[i]? =
      some { key := key, token := token, doneTTL := doneTTL } := by
  simp only [claim, acquire] at h ⊢
  split at h
  · next existing _ =>
    by_cases hlive : now < existing.expiresAt
    · rw [if_pos hlive] at h
      split at h <;> cases h
    · rw [if_neg hlive] at h ⊢
      obtain rfl : c.receipts.length = i := by simpa [setEntry] using h
      simp [setEntry]
  · obtain rfl : c.receipts.length = i := by simpa using h
    simp

theorem entry_of_committed (hr : c.receipts[i]? = some r) (hfresh : r.used = false)
    {c' : InMemClaimer} (h : c.commit now (.lease i) = (c', .ok ())) :
    ∃ token, c'.entries r.key = some ⟨.done, token, now + r.doneTTL⟩ := by
  simp only [commit, settle, hr, hfresh, Bool.false_eq_true, if_false] at h
  split at h
  · cases h
  · next entry _ =>
    cases h
    exact ⟨entry.token, by simp [setReceipt, setEntry, settledEntry]⟩

theorem claim_done_iff {key token : String} {expiresAt : Time}
    (h : c.entries key = some ⟨.done, token, expiresAt⟩) (rand : Option String)
    (leaseTTL doneTTL : Duration) :
    (∃ ref, (c.claim now rand key leaseTTL doneTTL).2 = .ok (.done, ref)) ↔ now < expiresAt := by
  simp only [claim, h]
  split
  next hlive => simp [hlive]
  next hexpired => cases rand <;> simp [acquire, hexpired]

theorem receipt_settle (h : c.receipts[i]? = some r) (how : Settlement) {ref : ReceiptRef}
    (hother : ref ≠ .lease i) : (c.settle how now ref).1.receipts[i]? = some r := by
  cases ref with
  | nonAcquired => exact h
  | lease j =>
    have hne : j ≠ i := fun heq ↦ hother (heq ▸ rfl)
    simp only [settle]
    split
    · exact h
    · split
      · exact h
      · split
        · exact (List.getElem?_set_ne hne).trans h
        · exact (List.getElem?_set_ne hne).trans h

theorem claim_congr {c' : InMemClaimer} {key : String} (hentry : c'.entries key = c.entries key)
    (hlength : c'.receipts.length = c.receipts.length) (rand : Option String)
    (leaseTTL doneTTL : Duration) :
    (c'.claim now rand key leaseTTL doneTTL).2 = (c.claim now rand key leaseTTL doneTTL).2 := by
  have hacquire : ∀ e e', (c'.setEntry key e).receipts.length =
    (c.setEntry key e').receipts.length :=
    fun _ _ ↦ hlength
  simp only [claim, hentry]
  split
  · split
    · rfl
    · cases rand with
      | none => rfl
      | some token => simp only [acquire, hacquire none none]
  · cases rand with
    | none => rfl
    | some token => simp only [acquire, hlength]

theorem settle_frame (h : c.receipts[i]? = some r) (how : Settlement) (now : Time) {key : String}
    (hkey : key ≠ r.key) : (c.settle how now (.lease i)).1.entries key = c.entries key ∧
      (c.settle how now (.lease i)).1.receipts.length = c.receipts.length := by
  simp only [settle, h]
  split
  · exact ⟨rfl, rfl⟩
  · split
    · exact ⟨rfl, List.length_set⟩
    · exact ⟨Function.update_of_ne hkey _ _, List.length_set⟩

theorem receipt_call {rand : ℕ → Option String} {x : Call} (h : c.receipts[i]? = some r)
    (hx : x.op.touches i = false) : ((claimer rand).call c x).1.receipts[i]? = some r := by
  obtain ⟨now, op⟩ := x
  cases op with
  | claim key =>
    simp only [Claimer.call, claimer, claim]
    split
    · split
      · exact h
      · exact receipt_acquire (c := c.setEntry key none) h _ _ _ _
    · exact receipt_acquire h _ _ _ _
  | settle how ref =>
    have hother : ref ≠ .lease i := by simpa [Op.touches] using hx
    cases how with
    | commit => exact receipt_settle h .commit hother
    | release => exact receipt_settle h .release hother
  | extend =>
    simp only [Claimer.call, claimer, extend]
    repeat' split
    all_goals exact h

end

end InMemClaimer

end GoCell.Idempotency
