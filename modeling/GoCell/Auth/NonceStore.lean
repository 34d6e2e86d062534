import GoCell.Kernel.Timestamps

namespace GoCell.Auth

open Kernel

def serviceTokenMaxAge : Duration := 300 * nanosPerSecond

def serviceTokenClockSkew : Duration := 30 * nanosPerSecond

def serviceTokenNonceTTL : Duration := serviceTokenMaxAge + serviceTokenClockSkew

def errNonceReused : Err := ⟨.unauthenticated, .authNonceReused, "auth: nonce already used", []⟩

def errNonceStoreFull : Err :=
  ⟨.unavailable, .nonceStoreFull, "auth: nonce store is full; no expired entries to reclaim", []⟩

structure NonceStore (σ : Type) where
  checkAndMark : σ → Bytes → Except Err Unit × σ

structure NonceConfig where
  maxAge : Duration
  maxEntries : ℤ
  maxAge_le : serviceTokenNonceTTL ≤ maxAge

def defaultNonceConfig : NonceConfig := ⟨serviceTokenNonceTTL, 100000, le_refl _⟩

/-- The map `seen` from a nonce to its expiry; a key is in it once. -/
abbrev Seen := List (Bytes × Time)

variable (seen : Seen)

def Seen.lookup (nonce : Bytes) : Option Time :=
  (seen.find? (·.1 = nonce)).map Prod.snd

def Seen.set (nonce : Bytes) (exp : Time) : Seen :=
  (nonce, exp) :: seen.filter (·.1 ≠ nonce)

def Seen.prune (now : Time) : Seen := seen.filter (now ≤ ·.2)

variable (cfg : NonceConfig)

def Seen.makeRoom (now : Time) : Seen :=
  if cfg.maxEntries ≤ seen.length then seen.prune now else seen

/-- `InMemoryNonceStore.CheckAndMark` at the time that its clock reads. -/
def checkAndMark (now : Time) (seen : Seen) (nonce : Bytes) : Except Err Unit × Seen :=
  let seen := seen.makeRoom cfg now
  if cfg.maxEntries ≤ seen.length then (.error errNonceStoreFull, seen)
  else
    match seen.lookup nonce with
    | some exp =>
      if now < exp then (.error errNonceReused, seen)
      else (.ok (), seen.set nonce (now + cfg.maxAge))
    | none => (.ok (), seen.set nonce (now + cfg.maxAge))

def inMemoryNonceStore (now : Time) : NonceStore Seen where
  checkAndMark := checkAndMark cfg now

end GoCell.Auth
