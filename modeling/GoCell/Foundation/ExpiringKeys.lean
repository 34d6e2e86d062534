import Mathlib.Data.Int.Order.Basic
import Mathlib.Tactic.Common

namespace GoCell.Foundation

structure Expiring (α : Type*) where
  value : α
  expiresAt : ℤ
  deriving DecidableEq

def KeyStore (κ α : Type*) : Type _ := κ → Option (Expiring α)

namespace KeyStore

section

variable {κ α : Type*}

def empty : KeyStore κ α := fun _ ↦ none

/-- The clock of the server counts whole milliseconds of the nanoseconds that times are in, and a
key lives through the millisecond of its expiry. -/
def Live (now expiresAt : ℤ) : Prop := now / 1000000 ≤ expiresAt / 1000000

instance (now expiresAt : ℤ) : Decidable (Live now expiresAt) := inferInstanceAs (Decidable (_ ≤ _))

def get (s : KeyStore κ α) (now : ℤ) (k : κ) : Option α :=
  (s k).bind fun c ↦ if Live now c.expiresAt then some c.value else none

def Gone (s : KeyStore κ α) (now : ℤ) (k : κ) : Prop := ∀ c ∈ s k, ¬Live now c.expiresAt

variable {s : KeyStore κ α} {now later : ℤ} {k k' : κ} {v : α}

theorem get_eq_none_iff : s.get now k = none ↔ s.Gone now k := by
  cases hk : s k with
  | none | some => simp [get, Gone, hk]

theorem Live.of_le {e : ℤ} (h : now ≤ e) : Live now e := Int.ediv_le_ediv (by decide) h

theorem live_iff {e : ℤ} : Live now e ↔ now < e / 1000000 * 1000000 + 1000000 := by
  unfold Live
  omega

theorem get_eq_some_iff : s.get now k = some v ↔ ∃ e, s k = some ⟨v, e⟩ ∧ Live now e := by
  cases hk : s k with
  | none => simp [get, hk]
  | some c =>
    obtain ⟨w, e⟩ := c
    simp only [get, hk, Option.bind_some, Option.ite_none_right_eq_some, Option.some.injEq,
      Expiring.mk.injEq]
    constructor
    · rintro ⟨hlive, rfl⟩
      exact ⟨e, ⟨rfl, rfl⟩, hlive⟩
    · rintro ⟨e', ⟨rfl, rfl⟩, hlive⟩
      exact ⟨hlive, rfl⟩

theorem Gone.mono (h : s.Gone now k) (hle : now ≤ later) : s.Gone later k :=
  fun c hc hlive ↦ h c hc (le_trans (Int.ediv_le_ediv (by decide) hle) hlive)

theorem Gone.of_eq_none (h : s k = none) : s.Gone now k := by
  simp [Gone, h]

theorem Gone.of_expired {e : ℤ} (h : s k = some ⟨v, e⟩) (hlive : ¬Live now e) : s.Gone now k := by
  simpa [Gone, h] using hlive

theorem Gone.congr {s' : KeyStore κ α} (h : s.Gone now k) (heq : s' k' = s k) : s'.Gone now k' := by
  intro c hc
  rw [heq] at hc
  exact h c hc

end

section

variable {κ α : Type*} [DecidableEq κ] (s : KeyStore κ α)

/-- `SET k v PX ttl`. -/
def set (now : ℤ) (k : κ) (v : α) (ttl : ℤ) : KeyStore κ α :=
  Function.update s k (some ⟨v, now + ttl⟩)

/-- `DEL k`. -/
def del (k : κ) : KeyStore κ α := Function.update s k none

/-- `PEXPIRE k ttl`. -/
def expire (now : ℤ) (k : κ) (ttl : ℤ) : KeyStore κ α :=
  match s.get now k with
  | some v => s.set now k v ttl
  | none => s

variable {s : KeyStore κ α} {now ttl : ℤ} {k k' : κ} {v : α}

@[simp] theorem set_self : s.set now k v ttl k = some ⟨v, now + ttl⟩ := Function.update_self ..

@[simp] theorem set_of_ne (h : k' ≠ k) : s.set now k v ttl k' = s k' :=
  Function.update_of_ne h ..

@[simp] theorem del_self : s.del k k = none := Function.update_self ..

@[simp] theorem del_of_ne (h : k' ≠ k) : s.del k k' = s k' := Function.update_of_ne h ..

theorem expire_of_live (h : s.get now k = some v) : s.expire now k ttl = s.set now k v ttl := by
  rw [expire, h]

end

section

variable {κ κ' α : Type*}

def comap (s : KeyStore κ' α) (f : κ → κ') : KeyStore κ α := fun k ↦ s (f k)

theorem get_comap (s : KeyStore κ' α) (f : κ → κ') (now : ℤ) (k : κ) :
    (s.comap f).get now k = s.get now (f k) := rfl

variable [DecidableEq κ'] {s : KeyStore κ' α} {f : κ → κ'} {now ttl : ℤ} {k : κ} {k' : κ'} {v : α}

theorem comap_set_of_ne (h : ∀ k, f k ≠ k') : (s.set now k' v ttl).comap f = s.comap f := by
  funext k
  exact set_of_ne (h k)

theorem comap_del_of_ne (h : ∀ k, f k ≠ k') : (s.del k').comap f = s.comap f := by
  funext k
  exact del_of_ne (h k)

theorem comap_expire_of_ne (h : ∀ k, f k ≠ k') : (s.expire now k' ttl).comap f = s.comap f := by
  rw [expire]
  split
  · exact comap_set_of_ne h
  · rfl

variable [DecidableEq κ]

theorem comap_set (hf : Function.Injective f) :
    (s.set now (f k) v ttl).comap f = (s.comap f).set now k v ttl :=
  Function.update_comp_eq_of_injective s hf k _

theorem comap_del (hf : Function.Injective f) : (s.del (f k)).comap f = (s.comap f).del k :=
  Function.update_comp_eq_of_injective s hf k _

theorem comap_expire (hf : Function.Injective f) :
    (s.expire now (f k) ttl).comap f = (s.comap f).expire now k ttl := by
  rw [expire, expire, get_comap]
  split
  · exact comap_set hf
  · rfl

end

end KeyStore

end GoCell.Foundation
