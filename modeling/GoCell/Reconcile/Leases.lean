import GoCell.Kernel.Values

namespace GoCell.Reconcile

open Kernel Function

section Leases

structure LeaseTTL where
  ms : ℤ
  usable : 1 ≤ ms

def LeaseTTL.duration (ttl : LeaseTTL) : Duration := ttl.ms * 1000000

structure LeaseToken where
  reconcilerID : String
  holderID : String
  epoch : ℕ
  acquiredAt : Time
  expiresAt : Time
  deriving DecidableEq

structure Elector where
  holderID : String
  lease : LeaseTTL

def errReconcileLeaseLost : Err :=
  ⟨.conflict, .reconcileLeaseLost, "reconcile: lease lost (no longer held by this holder)", []⟩

def errLeaseHeld : Err :=
  ⟨.conflict, .reconcileLeaseHeld, "reconcile: lease held by another holder", []⟩

end Leases

section Fencing

variable {R M : Type}

/-- What `FencedRepository` asks of `ApplyFenced`: a write is accepted only under an epoch that is
not older than the highest one that the entity has seen, which never goes back. -/
structure FencedRepository (R M : Type) where
  applyFenced : R → String → ℕ → M → R × Except Err Bool
  lastEpoch : R → String → ℕ
  accepts : ∀ r id e m, (applyFenced r id e m).2 = .ok true → lastEpoch r id ≤ e
  records : ∀ r id e m, (applyFenced r id e m).2 = .ok true →
    e ≤ lastEpoch (applyFenced r id e m).1 id
  keeps : ∀ r id e m id', lastEpoch r id' ≤ lastEpoch (applyFenced r id e m).1 id'

structure FencedEffect (M : Type) where
  entityID : String
  epoch : ℕ
  mutation : M

structure FakeFencedRepository (M : Type) where
  lastEpoch : String → ℕ := fun _ ↦ 0
  effects : List (FencedEffect M) := []

def FakeFencedRepository.applyFenced (r : FakeFencedRepository M) (entityID : String) (epoch : ℕ)
    (mutation : M) : FakeFencedRepository M × Except Err Bool :=
  if epoch < r.lastEpoch entityID then (r, .ok false)
  else
    ({ lastEpoch := Function.update r.lastEpoch entityID epoch
       effects := r.effects ++ [⟨entityID, epoch, mutation⟩] }, .ok true)

section

variable (r : FakeFencedRepository M) (id : String) (e : ℕ) (m : M)
include r id e m

theorem FakeFencedRepository.applyFenced_accepts (h : (r.applyFenced id e m).2 = .ok true) :
    r.lastEpoch id ≤ e := by
  unfold applyFenced at h
  split at h
  · cases h
  · next hle => exact Nat.not_lt.1 hle

theorem FakeFencedRepository.applyFenced_records (h : (r.applyFenced id e m).2 = .ok true) :
    e ≤ (r.applyFenced id e m).1.lastEpoch id := by
  unfold applyFenced at h ⊢
  split at h
  · cases h
  · next hle =>
    rw [if_neg hle]
    change e ≤ update r.lastEpoch id e id
    rw [update_self]

theorem FakeFencedRepository.applyFenced_keeps (id' : String) :
    r.lastEpoch id' ≤ (r.applyFenced id e m).1.lastEpoch id' := by
  unfold applyFenced
  split
  · exact le_rfl
  · next hle =>
    change r.lastEpoch id' ≤ update r.lastEpoch id e id'
    by_cases heq : id' = id
    · rw [heq, update_self]
      exact Nat.not_lt.1 hle
    · rw [update_of_ne heq]

end

def fakeFencedRepository (M : Type) : FencedRepository (FakeFencedRepository M) M where
  applyFenced := FakeFencedRepository.applyFenced
  lastEpoch := FakeFencedRepository.lastEpoch
  accepts := FakeFencedRepository.applyFenced_accepts
  records := FakeFencedRepository.applyFenced_records
  keeps := FakeFencedRepository.applyFenced_keeps

structure FencedWriter where
  repo : Option String := none
  epoch : ℕ := 0

def newFencedWriter (token : LeaseToken) : FencedWriter := ⟨some token.reconcilerID, token.epoch⟩

inductive WriteError
  | unbound
  | failed (entityID : String) (epoch : ℕ) (err : Err)
  | stale

def FencedWriter.write (repository : FencedRepository R M) (w : FencedWriter) (repos : String → R)
    (entityID : String) (mutation : M) : (String → R) × Except WriteError Unit :=
  match w.repo with
  | none => (repos, .error .unbound)
  | some loop =>
    let (r, answer) := repository.applyFenced (repos loop) entityID w.epoch mutation
    (Function.update repos loop r,
      match answer with
      | .error err => .error (.failed entityID w.epoch err)
      | .ok true => .ok ()
      | .ok false => .error .stale)

variable {repository : FencedRepository R M} {repos : String → R} {w : FencedWriter}
  {entityID : String} {mutation : M}

theorem FencedWriter.write_keeps (repository : FencedRepository R M) (w : FencedWriter)
    (repos : String → R) (entityID : String) (mutation : M) (loop id : String) :
    repository.lastEpoch (repos loop) id ≤
      repository.lastEpoch ((w.write repository repos entityID mutation).1 loop) id := by
  unfold write
  cases w.repo with
  | none => exact le_rfl
  | some loop' =>
    by_cases heq : loop = loop'
    · subst heq
      simp only [update_self]
      exact repository.keeps _ _ _ _ _
    · simp only [update_of_ne heq]
      exact le_rfl

theorem FencedWriter.write_ok {loop : String} (hrepo : w.repo = some loop)
    (h : (w.write repository repos entityID mutation).2 = .ok ()) :
    repository.lastEpoch (repos loop) entityID ≤ w.epoch ∧ w.epoch ≤
        repository.lastEpoch ((w.write repository repos entityID mutation).1 loop) entityID := by
  simp only [write, hrepo] at h ⊢
  cases hanswer : (repository.applyFenced (repos loop) entityID w.epoch mutation).2 with
  | error err =>
    rw [hanswer] at h
    cases h
  | ok accepted =>
    cases accepted with
    | false =>
      rw [hanswer] at h
      cases h
    | true =>
      rw [update_self]
      exact ⟨repository.accepts _ _ _ _ hanswer, repository.records _ _ _ _ hanswer⟩

end Fencing

end GoCell.Reconcile
