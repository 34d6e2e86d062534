import GoCell.Kernel.Values

namespace GoCell.Idempotency

open Kernel

/-- The result of a claim; `unknown` is any other value of the underlying integer. -/
inductive ClaimState
  | acquired
  | done
  | busy
  | unknown
  deriving DecidableEq

/-- A receipt that a claimer has returned: the sentinel of `NonAcquiredReceipt`, or the lease with
the given number. -/
inductive ReceiptRef
  | nonAcquired
  | lease (i : ℕ)
  deriving DecidableEq

inductive Settlement
  | commit
  | release
  deriving DecidableEq

def errLeaseExpired : Err :=
  ⟨.conflict, .idempotencyLeaseExpired, "idempotency: processing lease expired", []⟩

def errNoClaimLease : Err :=
  ⟨.conflict, .idempotencyNoClaimLease, "idempotency: no acquired claim lease", []⟩

def defaultTTL : Duration := 24 * 3600 * 1000000000

def defaultLeaseTTL : Duration := 300 * 1000000000

/-- The two-phase protocol, with its receipts of type `ρ` and the clock as an argument. -/
structure Claimer (σ ρ : Type) where
  claim : σ → Time → String → Duration → Duration → σ × Except Err (ClaimState × ρ)
  commit : σ → Time → ρ → σ × Except Err Unit
  release : σ → Time → ρ → σ × Except Err Unit
  extend : σ → Time → ρ → Duration → σ × Except Err Unit

def Claimer.settle {σ ρ : Type} (c : Claimer σ ρ) : Settlement → σ → Time → ρ → σ × Except Err Unit
  | .commit => c.commit
  | .release => c.release

inductive Op
  | claim (key : String) (leaseTTL doneTTL : Duration)
  | settle (how : Settlement) (ref : ReceiptRef)
  | extend (ref : ReceiptRef) (ttl : Duration)
  deriving DecidableEq

structure Call where
  now : Time
  op : Op
  deriving DecidableEq

def Claimer.call {σ : Type} (c : Claimer σ ReceiptRef) (s : σ) (x : Call) :
    σ × Except Err (Option ClaimState) :=
  match x.op with
  | .claim key leaseTTL doneTTL =>
    let res := c.claim s x.now key leaseTTL doneTTL
    (res.1, res.2.map fun r ↦ some r.1)
  | .settle how ref =>
    let res := c.settle how s x.now ref
    (res.1, res.2.map fun _ ↦ none)
  | .extend ref ttl =>
    let res := c.extend s x.now ref ttl
    (res.1, res.2.map fun _ ↦ none)

def Op.touches (i : ℕ) : Op → Bool
  | .claim _ _ _ => false
  | .settle _ ref => ref = .lease i
  | .extend ref _ => ref = .lease i

def WholeMs (ttl : Duration) : Prop := 0 < ttl ∧ (1000000 : ℤ) ∣ ttl

instance (ttl : Duration) : Decidable (WholeMs ttl) := inferInstanceAs (Decidable (_ ∧ _))

def Op.WholeMs : Op → Prop
  | .claim _ leaseTTL doneTTL => Idempotency.WholeMs leaseTTL ∧ Idempotency.WholeMs doneTTL
  | .extend _ ttl => Idempotency.WholeMs ttl
  | .settle _ _ => True

instance : ∀ op : Op, Decidable op.WholeMs
  | .claim _ _ _ => inferInstanceAs (Decidable (_ ∧ _))
  | .extend _ _ => inferInstanceAs (Decidable (Idempotency.WholeMs _))
  | .settle _ _ => .isTrue trivial

end GoCell.Idempotency
