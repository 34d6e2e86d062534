import GoCell.Kernel.JsonScalars

namespace GoCell.Audit

open Foundation Kernel

def maxNamespaceIDLen : ℕ := 48

def isNamespaceByte (c : UInt8) : Bool := c = 0x5f || (0x61 ≤ c && c ≤ 0x7a)

def validateNamespaceID (ns : Bytes) : Except Err Unit := do
  require (ns ≠ []) (validationFailed "audit ledger: namespace ID must not be empty")
  require (ns.length ≤ maxNamespaceIDLen)
    (validationFailed "audit ledger: namespace ID exceeds maximum length"
      [("maxLength", .int maxNamespaceIDLen), ("actualLength", .int ns.length)])
  match ns.zipIdx.find? (fun c ↦ !isNamespaceByte c.1) with
  | none => .ok ()
  | some (c, offset) =>
    .error (validationFailed "audit ledger: namespace ID must contain only [a-z_]"
      [("offset", .int offset), ("byte", .int c.toNat)])

/-- Strings are Go strings, that is any bytes; `none` as a payload is the nil slice. -/
structure Entry where
  seqNo : ℤ
  id : Bytes
  eventID : Bytes
  eventType : Bytes
  actorID : Bytes
  subjectID : Bytes
  tenantID : Bytes
  sessionID : Bytes
  correlationID : Bytes
  traceID : Bytes
  occurredAt : Time
  timestamp : Time
  payload : Option Bytes
  prevHash : Bytes
  hash : Bytes
  deriving DecidableEq

structure AuditHashInput where
  namespaceID : Bytes
  prevHash : Bytes
  eventID : Bytes
  eventType : Bytes
  actorID : Bytes
  subjectID : Bytes
  tenantID : Bytes
  sessionID : Bytes
  correlationID : Bytes
  occurredAtUnixNano : ℤ
  timestampUnixNano : ℤ
  payload : Option Bytes
  deriving DecidableEq

namespace AuditHashInput

def members (i : AuditHashInput) : List (String × Bytes) :=
  [("namespace", quote i.namespaceID), ("prev_hash", quote i.prevHash),
    ("event_id", quote i.eventID),
    ("event_type", quote i.eventType),
    ("actor_id", quote i.actorID),
    ("subject_id", quote i.subjectID),
    ("tenant_id", quote i.tenantID),
    ("session_id", quote i.sessionID),
    ("correlation_id", quote i.correlationID),
    ("occurred_at_unix_nano", decimal i.occurredAtUnixNano),
    ("timestamp_unix_nano", decimal i.timestampUnixNano),
    ("payload", bytesText i.payload)]

def marshal (i : AuditHashInput) : Bytes := structText id i.members

end AuditHashInput

def hashMessage (ns prevHash : Bytes) (e : Entry) : Bytes :=
  AuditHashInput.marshal
    { namespaceID := ns
      prevHash := prevHash
      eventID := e.eventID
      eventType := e.eventType
      actorID := e.actorID
      subjectID := e.subjectID
      tenantID := e.tenantID
      sessionID := e.sessionID
      correlationID := e.correlationID
      occurredAtUnixNano := unixNano e.occurredAt
      timestampUnixNano := unixNano e.timestamp
      payload := e.payload }

structure Protocol where
  namespaceID : Bytes
  mac : Bytes → Bytes
  namespace_valid : validateNamespaceID namespaceID = .ok ()
  mac_hex : ∀ m, isHexDigest (mac m) = true

def Protocol.computeHash (p : Protocol) (prevHash : Bytes) (e : Entry) : Bytes :=
  p.mac (hashMessage p.namespaceID prevHash e)

theorem Protocol.computeHash_ne_nil (p : Protocol) (prevHash : Bytes) (e : Entry) :
    p.computeHash prevHash e ≠ [] := by
  intro h
  have hhex := p.mac_hex (hashMessage p.namespaceID prevHash e)
  rw [show p.mac (hashMessage p.namespaceID prevHash e) = [] from h] at hhex
  exact absurd hhex (by decide)

theorem isNamespaceByte_of_valid {ns : Bytes} (h : validateNamespaceID ns = .ok ()) :
    ∀ c ∈ ns, isNamespaceByte c = true := by
  unfold validateNamespaceID at h
  obtain ⟨_, -, h⟩ := bind_ok.1 h
  obtain ⟨_, -, h⟩ := bind_ok.1 h
  intro c hc
  split at h
  · next hfind =>
    rw [List.find?_eq_none] at hfind
    obtain ⟨i, hi⟩ := List.getElem?_of_mem hc
    have hbyte := hfind (c, i) (List.mem_zipIdx_iff_getElem?.2 hi)
    simpa using hbyte
  · cases h

theorem utf8Valid_of_validNamespaceID {ns : Bytes} (h : validateNamespaceID ns = .ok ()) :
    utf8Valid ns = true := by
  apply utf8Valid_of_ascii
  intro c hc
  have hbyte := isNamespaceByte_of_valid h c hc
  simp only [isNamespaceByte, Bool.or_eq_true, Bool.and_eq_true, decide_eq_true_eq] at hbyte
  obtain rfl | ⟨-, hle⟩ := hbyte
  · decide
  · exact UInt8.lt_of_le_of_lt hle (by decide)

end GoCell.Audit
