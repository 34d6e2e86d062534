import GoCell.Audit.Protocol

namespace GoCell.Audit

open Foundation Kernel List

structure SignedFields where
  eventID : Bytes
  eventType : Bytes
  actorID : Bytes
  subjectID : Bytes
  tenantID : Bytes
  sessionID : Bytes
  correlationID : Bytes
  occurredAt : Time
  timestamp : Time
  payload : Option Bytes
  deriving DecidableEq

def Entry.signed (e : Entry) : SignedFields :=
  ⟨e.eventID, e.eventType, e.actorID, e.subjectID, e.tenantID, e.sessionID, e.correlationID,
    e.occurredAt, e.timestamp, e.payload⟩

def Entry.strings (e : Entry) : List Bytes :=
  [e.eventID, e.eventType, e.actorID, e.subjectID, e.tenantID, e.sessionID, e.correlationID]

/-- The signed strings are valid UTF-8 and the signed times are within `int64` nanoseconds. -/
def Entry.Faithful (e : Entry) : Prop :=
  (∀ s ∈ e.strings, utf8Valid s = true) ∧ InUnixNanos e.occurredAt ∧ InUnixNanos e.timestamp

instance (e : Entry) : Decidable e.Faithful := inferInstanceAs (Decidable (_ ∧ _ ∧ _))

theorem AuditHashInput.valueText_members (i : AuditHashInput) :
    ∀ m ∈ i.members, Scanner.ValueText 0 m.2 := by
  have hquote : ∀ s : Bytes, Scanner.ValueText 0 (quote s) :=
    fun s ↦ (Scanner.stringText_quote s).value
  simp only [members, forall_mem_cons, hquote, valueText_decimal, valueText_bytesText,
    not_mem_nil, IsEmpty.forall_iff, implies_true, and_self]

theorem AuditHashInput.marshal_inj {i j : AuditHashInput} (h : i.marshal = j.marshal) :
    i.members.map Prod.snd = j.members.map Prod.snd :=
  structText_inj i.valueText_members j.valueText_members (by decide) h

/-- Equal messages: the same runes in the strings, the same `UnixNano`, equal payloads. -/
theorem hashMessage_eq_iff {ns ns' prevHash prevHash' : Bytes} {e e' : Entry}
    (hns' : validateNamespaceID ns' = .ok ()) :
    hashMessage ns prevHash e = hashMessage ns' prevHash' e' ↔
      ns = ns' ∧ runes prevHash = runes prevHash' ∧ e.strings.map runes = e'.strings.map runes ∧
        unixNano e.occurredAt = unixNano e'.occurredAt ∧
        unixNano e.timestamp = unixNano e'.timestamp ∧ e.payload = e'.payload := by
  simp only [Entry.strings, map_cons, map_nil, cons.injEq, and_true]
  constructor
  · intro h
    have hmembers := AuditHashInput.marshal_inj h
    simp only [AuditHashInput.members, map_cons, map_nil, cons.injEq, and_true,
      quote_eq_iff] at hmembers
    obtain ⟨hname, hprev, h₁, h₂, h₃, h₄, h₅, h₆, h₇, hoccurred, htime, hpayload⟩ := hmembers
    exact ⟨runes_inj (utf8Valid_of_validNamespaceID hns') hname, hprev,
      ⟨h₁, h₂, h₃, h₄, h₅, h₆, h₇⟩, decimal_inj hoccurred, decimal_inj htime,
      bytesText_inj hpayload⟩
  · rintro ⟨rfl, hprev, ⟨h₁, h₂, h₃, h₄, h₅, h₆, h₇⟩, hoccurred, htime, hpayload⟩
    simp only [hashMessage, AuditHashInput.marshal, AuditHashInput.members, quote_eq_iff.2 hprev,
      quote_eq_iff.2 h₁, quote_eq_iff.2 h₂, quote_eq_iff.2 h₃, quote_eq_iff.2 h₄,
      quote_eq_iff.2 h₅, quote_eq_iff.2 h₆, quote_eq_iff.2 h₇, hoccurred, htime, hpayload]

theorem Entry.signed_inj {e e' : Entry} (hstrings : e.strings = e'.strings)
    (hoccurred : e.occurredAt = e'.occurredAt) (htime : e.timestamp = e'.timestamp)
    (hpayload : e.payload = e'.payload) : e.signed = e'.signed := by
  simp only [strings, cons.injEq, and_true] at hstrings
  obtain ⟨h₁, h₂, h₃, h₄, h₅, h₆, h₇⟩ := hstrings
  rw [signed, signed, h₁, h₂, h₃, h₄, h₅, h₆, h₇, hoccurred, htime, hpayload]

theorem hashMessage_inj {ns prevHash prevHash' : Bytes} {e e' : Entry}
    (hns : validateNamespaceID ns = .ok ()) (hprev : utf8Valid prevHash' = true)
    (htimes : InUnixNanos e.occurredAt ∧ InUnixNanos e.timestamp) (he : e'.Faithful)
    (h : hashMessage ns prevHash e = hashMessage ns prevHash' e') :
    prevHash = prevHash' ∧ e.signed = e'.signed := by
  obtain ⟨-, hrunes, hstrings, hoccurred, htime, hpayload⟩ := (hashMessage_eq_iff hns).1 h
  have hvalues : e.strings = e'.strings :=
    map_inj_of_mem (fun _ _ t ht ↦ runes_inj (he.1 t ht)) hstrings
  exact ⟨runes_inj hprev hrunes, Entry.signed_inj hvalues
    (unixNano_inj htimes.1 he.2.1 hoccurred) (unixNano_inj htimes.2 he.2.2 htime) hpayload⟩

theorem signed_message_determines (ns ns' prevHash prevHash' : Bytes) (e e' : Entry)
    (hns : validateNamespaceID ns = .ok ()) (hns' : validateNamespaceID ns' = .ok ()) :
    (hashMessage ns prevHash e = hashMessage ns' prevHash' e' ↔
      ns = ns' ∧ runes prevHash = runes prevHash' ∧ e.strings.map runes = e'.strings.map runes ∧
        unixNano e.occurredAt = unixNano e'.occurredAt ∧
        unixNano e.timestamp = unixNano e'.timestamp ∧ e.payload = e'.payload) ∧
    (utf8Valid prevHash' = true → e.Faithful → e'.Faithful →
      hashMessage ns prevHash e = hashMessage ns' prevHash' e' →
        ns = ns' ∧ prevHash = prevHash' ∧ e.signed = e'.signed) := by
  refine ⟨hashMessage_eq_iff hns', ?_⟩
  intro hprev he he' h
  obtain ⟨rfl, -⟩ := (hashMessage_eq_iff hns').1 h
  exact ⟨rfl, hashMessage_inj hns hprev he.2 he' h⟩

def loginEntry (eventID actorID tenantID : String) (timestamp : Time) : Entry where
  seqNo := 0
  id := []
  eventID := asciiBytes eventID
  eventType := asciiBytes "user.login"
  actorID := asciiBytes actorID
  subjectID := asciiBytes actorID
  tenantID := asciiBytes tenantID
  sessionID := asciiBytes "sess-1"
  correlationID := []
  traceID := []
  occurredAt := unixEpoch
  timestamp := timestamp
  payload := some (asciiBytes "\x7b\x7d")
  prevHash := []
  hash := []

theorem signed_message_determines_login :
    (loginEntry "ev-1" "u-1" "t-1" unixEpoch).Faithful ∧
      hashMessage (asciiBytes "audit_core") [] (loginEntry "ev-1" "u-1" "t-1" unixEpoch) ≠
        hashMessage (asciiBytes "audit_core") [] (loginEntry "ev-2" "u-1" "t-1" unixEpoch) := by
  have hfirst : (loginEntry "ev-1" "u-1" "t-1" unixEpoch).Faithful := by decide +kernel
  have hsecond : (loginEntry "ev-2" "u-1" "t-1" unixEpoch).Faithful := by decide +kernel
  refine ⟨hfirst, fun h ↦ ?_⟩
  obtain ⟨-, -, hsigned⟩ := (signed_message_determines (asciiBytes "audit_core")
    (asciiBytes "audit_core") [] [] _ _ rfl rfl).2 rfl hfirst hsecond h
  exact absurd (congrArg SignedFields.eventID hsigned) (by decide)

def byteLogin (actor : UInt8) (timestamp : Time) : Entry :=
  { loginEntry "ev-1" "u-1" "t-1" timestamp with actorID := [actor] }

/-- Two actors that differ in a byte outside UTF-8, and two times that are 2^64 nanoseconds apart,
are signed alike. -/
theorem signed_messages_collide :
    validateNamespaceID (asciiBytes "audit_core") = .ok () ∧
    hashMessage (asciiBytes "audit_core") [] (byteLogin 0xff unixEpoch) =
      hashMessage (asciiBytes "audit_core") [] (byteLogin 0xfe unixEpoch) ∧
    hashMessage (asciiBytes "audit_core") [] (byteLogin 0x61 unixEpoch) =
      hashMessage (asciiBytes "audit_core") [] (byteLogin 0x61 (unixEpoch + 2 ^ 64)) := by
  have hactor : quote [0xff] = quote [0xfe] := by decide +kernel
  have htime : unixNano unixEpoch = unixNano (unixEpoch + 2 ^ 64) := by decide
  refine ⟨rfl, ?_, ?_⟩
  · simp only [hashMessage, AuditHashInput.marshal, AuditHashInput.members, byteLogin, hactor]
  · simp only [hashMessage, byteLogin, loginEntry, htime]

end GoCell.Audit
