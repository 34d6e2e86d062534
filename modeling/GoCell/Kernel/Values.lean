import Mathlib.Algebra.Ring.Int.Defs
import Mathlib.Algebra.Ring.Nat
import Mathlib.Data.String.Basic

namespace GoCell.Kernel

/-- An instant in nanoseconds; `0` is Go's zero `time.Time`. -/
abbrev Time := ℤ

def nanosPerDay : ℤ := 86400000000000

/-- The years 0 to 9999, which `Time.MarshalJSON` accepts; Go's zero time starts the year 1. -/
def inYears (t : Time) : Bool := -366 * nanosPerDay ≤ t && t < 3652059 * nanosPerDay

abbrev Duration := ℤ

/-- The result of an operation on `int64`, which wraps around. -/
def wrapInt64 (n : ℤ) : ℤ := n.bmod (2 ^ 64)

/-- An instant as a `TIMESTAMPTZ` column keeps it, in whole microseconds. -/
def pgTime (t : Time) : Time := t / 1000 * 1000

theorem pgTime_eq_iff {t : Time} : pgTime t = t ↔ (1000 : ℤ) ∣ t := by
  refine ⟨fun h ↦ ⟨t / 1000, ?_⟩, Int.ediv_mul_cancel⟩
  rw [mul_comm]
  exact h.symm

theorem pgTime_add {t : Time} {d : Duration} (ht : pgTime t = t) (hd : (1000 : ℤ) ∣ d) :
    pgTime (t + d) = t + d := pgTime_eq_iff.2 (Int.dvd_add (pgTime_eq_iff.1 ht) hd)

def unixEpoch : Time := 719162 * nanosPerDay

/-- `Time.UnixNano`, an `int64`: it wraps around outside the years 1678 to 2262. -/
def unixNano (t : Time) : ℤ := wrapInt64 (t - unixEpoch)

/-- The instants whose nanoseconds since 1970 an `int64` holds. -/
def InUnixNanos (t : Time) : Prop := -2 ^ 63 ≤ t - unixEpoch ∧ t - unixEpoch < 2 ^ 63

instance (t : Time) : Decidable (InUnixNanos t) := inferInstanceAs (Decidable (_ ∧ _))

theorem unixNano_inj {t u : Time} (ht : InUnixNanos t) (hu : InUnixNanos u)
    (h : unixNano t = unixNano u) : t = u := by
  have hbmod : ∀ {n : ℤ}, -2 ^ 63 ≤ n ∧ n < 2 ^ 63 → wrapInt64 n = n :=
    fun hn ↦ Int.bmod_eq_of_le (by omega) (by omega)
  rw [unixNano, unixNano, hbmod ht, hbmod hu] at h
  exact (Int.sub_left_inj _).1 h

abbrev Bytes := List UInt8

instance lawfulBEqBytes : LawfulBEq Bytes := inferInstanceAs (LawfulBEq (List UInt8))

inductive Kind
  | invalid
  | notFound
  | conflict
  | unprocessable
  | unavailable
  | internal
  | notImplemented
  | unauthenticated
  | permissionDenied
  | rateLimited
  deriving DecidableEq

inductive Code
  | internal
  | validationFailed
  | conflict
  | sagaNotFound
  | sagaDuplicateInstance
  | sagaStaleLease
  | sagaFoldUnknownKind
  | adapterPGQuery
  | pgSchemaShape
  | serviceUnavailable
  | envelopeSchema
  | outboxRelayOp
  | idempotencyLeaseExpired
  | idempotencyNoClaimLease
  | idempotencyInProgress
  | idempotencyKeyReused
  | adapterRedisSet
  | adapterRedisGet
  | adapterRedisDelete
  | auditLedgerNotFound
  | auditLedgerAlreadyExists
  | cursorInvalid
  | refreshTokenRejected
  | refreshTokenReused
  | authLastAdminProtected
  | reconcileLeaseHeld
  | reconcileLeaseLost
  | fencedWriteStale
  | fencedWriterUnbound
  | cellInvalidConfig
  | webhookConfigInvalid
  | webhookInvalidHeader
  | webhookInvalidSignature
  | webhookTimestampExpired
  | webhookSSRFBlocked
  | webhookDeliveryFailed
  | authUnauthorized
  | authForbidden
  | authTokenExpired
  | authNonceReused
  | nonceStoreFull
  | commandNotFound
  | deviceNotFound
  | rateLimited
  deriving DecidableEq

inductive DetailValue
  | string (s : String)
  | int (n : ℤ)
  | bool (b : Bool)
  | duration (d : Duration)
  deriving DecidableEq

/-- The part of an `errcode` error that callers can see: its internal attributes are left out. -/
structure Err where
  kind : Kind
  code : Code
  message : String
  details : List (String × DetailValue) := []
  deriving DecidableEq

def validationFailed (message : String) (details : List (String × DetailValue) := []) : Err :=
  ⟨.invalid, .validationFailed, message, details⟩

def errPGQuery (message : String) : Err := ⟨.internal, .adapterPGQuery, message, []⟩

abbrev SafeID := String

def maxMetadataIDLen : ℕ := 256

def isSafeChar (c : Char) : Bool :=
  ('a' ≤ c && c ≤ 'z') || ('A' ≤ c && c ≤ 'Z') || ('0' ≤ c && c ≤ '9') ||
    c = '.' || c = '_' || c = ':' || c = '/' || c = '-'

def isSafeID (s : String) : Bool := s ≠ "" && s.toList.all isSafeChar

theorem toNat_lt_of_le {c d : Char} (h : c ≤ d) (hd : d.toNat < 0x80) : c.toNat < 0x80 :=
  lt_of_le_of_lt (UInt32.le_iff_toNat_le.1 h) hd

theorem ascii_of_isSafeChar {c : Char} (h : isSafeChar c = true) : c.toNat < 0x80 := by
  simp only [isSafeChar, Bool.or_eq_true, Bool.and_eq_true, decide_eq_true_eq] at h
  obtain ((((((⟨-, h⟩ | ⟨-, h⟩) | ⟨-, h⟩) | rfl) | rfl) | rfl) | rfl) | rfl := h
  · exact toNat_lt_of_le h (by decide)
  · exact toNat_lt_of_le h (by decide)
  · exact toNat_lt_of_le h (by decide)
  all_goals decide

/-- `SafeID.Validate`: the empty identifier passes, presence is checked separately. -/
def safeIDValid (s : SafeID) : Bool :=
  s = "" || (s.utf8ByteSize ≤ maxMetadataIDLen && isSafeID s)

end GoCell.Kernel
