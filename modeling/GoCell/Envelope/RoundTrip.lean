import GoCell.Envelope.Wire

namespace GoCell.Envelope

open Foundation Kernel Scanner List Option WireMessage

section Strings

variable {s : String}

theorem ascii_of_safeID (h : safeIDValid s = true) : Ascii s := by
  simp only [safeIDValid, isSafeID, Bool.or_eq_true, Bool.and_eq_true, decide_eq_true_eq] at h
  obtain rfl | ⟨-, -, hall⟩ := h
  · decide
  · intro c hc
    exact ascii_of_isSafeChar (all_eq_true.1 hall c hc)

theorem ascii_of_isHex {cs : List Char} (h : isHex cs = true) : ∀ c ∈ cs, c.toNat < 0x80 := by
  intro c hc
  have hdigit := all_eq_true.1 h c hc
  simp only [isHexDigit, Bool.or_eq_true, Bool.and_eq_true, decide_eq_true_eq] at hdigit
  obtain ⟨-, hdigit⟩ | ⟨-, hdigit⟩ := hdigit
  · exact toNat_lt_of_le hdigit (by decide)
  · exact toNat_lt_of_le hdigit (by decide)

theorem forall_mem_of_parts {α : Type} {P : α → Prop} {l : List α} {n : ℕ} {a : α}
    (hbefore : ∀ x ∈ l.take n, P x) (hn : l[n]? = some a) (ha : P a)
    (hafter : ∀ x ∈ l.drop (n + 1), P x) : ∀ x ∈ l, P x := by
  have hdrop : l.drop n = a :: l.drop (n + 1) := by
    obtain ⟨hlt, rfl⟩ := List.getElem?_eq_some_iff.1 hn
    exact List.drop_eq_getElem_cons hlt
  intro x hx
  rw [← take_append_drop n l, mem_append, hdrop, mem_cons] at hx
  obtain hx | rfl | hx := hx
  · exact hbefore x hx
  · exact ha
  · exact hafter x hx

theorem ascii_of_traceParent (h : validTraceParent s = true) : Ascii s := by
  simp only [validTraceParent, validW3CTraceID, validW3CSpanID, Bool.and_eq_true,
    decide_eq_true_eq] at h
  obtain ⟨⟨⟨⟨⟨⟨⟨⟨-, h₂⟩, h₃₅⟩, h₅₂⟩, -⟩, hversion⟩, hflags⟩, ⟨-, htrace⟩, -⟩, ⟨-, hspan⟩, -⟩ := h
  have hdash : '-'.toNat < 0x80 := by decide
  refine forall_mem_of_parts (n := 2) (ascii_of_isHex hversion) h₂ hdash ?_
  refine forall_mem_of_parts (n := 32) (ascii_of_isHex htrace) (a := '-') ?_ hdash ?_
  · rw [getElem?_drop]
    exact h₃₅
  rw [drop_drop]
  refine forall_mem_of_parts (n := 16) (ascii_of_isHex hspan) (a := '-') ?_ hdash ?_
  · rw [getElem?_drop]
    exact h₅₂
  rw [drop_drop]
  exact ascii_of_isHex hflags

theorem decodeSafeID_stringText (h : safeIDValid s = true) :
    decodeSafeID (stringText s) = some s := by
  unfold decodeSafeID
  rw [decodeString_stringText (ascii_of_safeID h), filter_some, if_pos h]

theorem foldlM_safeID {F M : Type} {set : M → F → Bytes → Option M} {f : F} {old : M}
    (new : String → M) (h : safeIDValid s = true)
    (hset : ∀ raw, set old f raw = (decodeSafeID raw).map new) (hempty : new "" = old) :
    (omitEmpty f s).foldlM (fun x m ↦ set x m.1 m.2) old = some (new s) :=
  foldlM_omitEmpty (by rw [hset, decodeSafeID_stringText h, map_some]) fun hs ↦ by rw [hs, hempty]

end Strings

theorem valueText_observability (o : ObservabilityMetadata) : ∀ m ∈ o.fields, ValueText 0 m.2 :=
  forall_mem_append.2 ⟨forall_mem_append.2 ⟨forall_mem_append.2
    ⟨valueText_omitEmpty _ _ 0, valueText_omitEmpty _ _ 0⟩, valueText_omitEmpty _ _ 0⟩,
    valueText_omitEmpty _ _ 0⟩

theorem valueText_principal (p : PrincipalMetadata) : ∀ m ∈ p.fields, ValueText 0 m.2 :=
  forall_mem_append.2 ⟨forall_mem_append.2 ⟨forall_mem_append.2
    ⟨valueText_omitEmpty _ _ 0, valueText_omitEmpty _ _ 0⟩, valueText_omitEmpty _ _ 0⟩,
    valueText_omitEmpty _ _ 0⟩

theorem decode_observability {o : ObservabilityMetadata} (h : o.validate = .ok ()) :
    decodeStruct ObservabilityField.name ObservabilityField.all ObservabilityMetadata.decodeField {}
      (structText ObservabilityField.name o.fields) = some o := by
  simp only [ObservabilityMetadata.validate, validateObservabilitySafeID, validateSafeID, bind_ok,
    require_ok, exists_const, Bool.or_eq_true, decide_eq_true_eq] at h
  obtain ⟨htrace, htraceParent, hrequest, hcorrelation⟩ := h
  have hparent : Ascii o.traceParent := by
    obtain hempty | hvalid := htraceParent
    · rw [hempty]
      decide
    · exact ascii_of_traceParent hvalid
  rw [decodeStruct_structText (d := 0) (by intro f; cases f <;> decide)
    (by intro f; cases f <;> decide) (valueText_observability o) (by decide)]
  let step := fun (x : ObservabilityMetadata) (m : ObservabilityField × Bytes) ↦
    x.decodeField m.1 m.2
  have h₁ : (omitEmpty .traceID o.traceID).foldlM step {} = _ :=
    foldlM_safeID (fun v ↦ { traceID := v }) htrace (fun _ ↦ rfl) rfl
  have h₂ : (omitEmpty .traceParent o.traceParent).foldlM step { traceID := o.traceID } =
      some { traceID := o.traceID, traceParent := o.traceParent } :=
    foldlM_omitEmpty (by simp only [ObservabilityMetadata.decodeField,
      decodeString_stringText hparent, map_some]) fun h ↦ by rw [h]
  have h₃ : (omitEmpty .requestID o.requestID).foldlM step _ = _ :=
    foldlM_safeID (fun v ↦ { traceID := o.traceID, traceParent := o.traceParent, requestID := v })
      hrequest (fun _ ↦ rfl) rfl
  have h₄ : (omitEmpty .correlationID o.correlationID).foldlM step _ = _ :=
    foldlM_safeID (fun v ↦ { o with correlationID := v }) hcorrelation (fun _ ↦ rfl) rfl
  show o.fields.foldlM step {} = some o
  simp only [ObservabilityMetadata.fields, foldlM_append, h₁, h₂, h₃, h₄, bind_eq_bind, bind_some]

theorem decode_principal {p : PrincipalMetadata} (h : p.validate = .ok ()) :
    decodeStruct PrincipalField.name PrincipalField.all PrincipalMetadata.decodeField {}
      (structText PrincipalField.name p.fields) = some p := by
  simp only [PrincipalMetadata.validate, validatePrincipalSafeID, validateSafeID, bind_ok,
    require_ok, exists_const] at h
  obtain ⟨hactor, hsubject, htenant, hsession⟩ := h
  rw [decodeStruct_structText (d := 0) (by intro f; cases f <;> decide)
    (by intro f; cases f <;> decide) (valueText_principal p) (by decide)]
  let step := fun (x : PrincipalMetadata) (m : PrincipalField × Bytes) ↦ x.decodeField m.1 m.2
  have h₁ : (omitEmpty .actorID p.actorID).foldlM step {} = _ :=
    foldlM_safeID (fun v ↦ { actorID := v }) hactor (fun _ ↦ rfl) rfl
  have h₂ : (omitEmpty .subjectID p.subjectID).foldlM step _ = _ :=
    foldlM_safeID (fun v ↦ { actorID := p.actorID, subjectID := v }) hsubject (fun _ ↦ rfl) rfl
  have h₃ : (omitEmpty .tenantID p.tenantID).foldlM step _ = _ :=
    foldlM_safeID (fun v ↦ { actorID := p.actorID, subjectID := p.subjectID, tenantID := v })
      htenant (fun _ ↦ rfl) rfl
  have h₄ : (omitEmpty .sessionID p.sessionID).foldlM step _ = _ :=
    foldlM_safeID (fun v ↦ { p with sessionID := v }) hsession (fun _ ↦ rfl) rfl
  show p.fields.foldlM step {} = some p
  simp only [PrincipalMetadata.fields, foldlM_append, h₁, h₂, h₃, h₄, bind_eq_bind, bind_some]

section Metadata

variable {m : Metadata}

def Metadata.IsText (m : Metadata) : Prop :=
  ∀ kv ∈ m.pairs, utf8Valid kv.1 = true ∧ utf8Valid kv.2 = true

theorem Metadata.eq_of_pairs {m' : Metadata} (h : m'.pairs = m.pairs) : m' = m := by
  cases m
  cases m'
  cases h
  rfl

theorem foldl_set_pairs (pairs : List (Bytes × Bytes)) :
    (pairs.foldl (fun x kv ↦ x.set kv.1 kv.2) m).pairs =
      pairs.foldl (fun x kv ↦ setPair kv.1 kv.2 x) m.pairs :=
  (foldl_hom Metadata.pairs fun _ _ ↦ rfl).symm

theorem memberTexts_metadata (m : Metadata) :
    MemberTexts 0 (m.pairs.map fun kv ↦ (quote kv.1, quote kv.2)) := by
  intro kv hkv
  obtain ⟨kv, -, rfl⟩ := mem_map.1 hkv
  exact ⟨stringText_quote _, (stringText_quote _).value⟩

theorem valueText_metadata (m : Metadata) : ValueText 1 m.text :=
  valueText_object (memberTexts_metadata m)

theorem decode_metadata (h : m.IsText) : decodeMetadata {} m.text = some m := by
  have hfold : m.pairs.foldl (fun x kv ↦ x.set kv.1 kv.2) {} = m :=
    Metadata.eq_of_pairs ((foldl_set_pairs m.pairs).trans (foldl_setPair m.sorted))
  unfold decodeMetadata Metadata.text
  rw [isNull_objectText, if_neg Bool.false_ne_true]
  refine (decodeObject_objectText (fun kv hkv ↦ ?_) (fun kv _ ↦ (stringText_quote _).value)
    (show 1 + 0 ≤ _ by decide) Metadata.set {}).trans (congrArg some hfold)
  exact ⟨(h kv hkv).1, decodeBytes_quote (h kv hkv).2 []⟩

end Metadata

structure WireMessage.Readable (msg : WireMessage) : Prop where
  schemaVersion : Ascii msg.schemaVersion
  id : safeIDValid msg.id = true
  aggregateID : safeIDValid msg.aggregateID = true
  aggregateType : safeIDValid msg.aggregateType = true
  eventType : safeIDValid msg.eventType = true
  topic : safeIDValid msg.topic = true
  metadata : msg.metadata.IsText
  observability : msg.observability.validate = .ok ()
  principal : msg.principal.validate = .ok ()

section Message

variable {tt : TimeText} {msg : WireMessage} {payload occurredAt createdAt : Bytes}

theorem valueText_fields (hpayload : ValueText 9999 payload)
    (hoccurred : timeText tt msg.occurredAt = some occurredAt)
    (hcreated : timeText tt msg.createdAt = some createdAt) :
    ∀ m ∈ msg.fields payload occurredAt createdAt, ValueText 9999 m.2 := by
  have hstring : ∀ s, ValueText 9999 (stringText s) := fun s ↦ (stringText_quote _).value
  have hmetadata : ∀ m ∈ msg.metadata.field, ValueText 9999 m.2 := by
    unfold Metadata.field
    split
    · exact fun m hm ↦ absurd hm not_mem_nil
    · exact forall_mem_singleton.2 ((valueText_metadata _).mono (by decide))
  have hobservability : ValueText 9999
      (structText ObservabilityField.name msg.observability.fields) :=
    (valueText_structText (valueText_observability _)).mono (by decide)
  have hprincipal : ValueText 9999 (structText PrincipalField.name msg.principal.fields) :=
    (valueText_structText (valueText_principal _)).mono (by decide)
  unfold fields
  simp only [forall_mem_append, forall_mem_cons]
  exact ⟨⟨⟨⟨⟨⟨⟨⟨hstring _, hstring _, by simp⟩, valueText_omitEmpty _ _ _⟩,
    valueText_omitEmpty _ _ _⟩, hstring _, by simp⟩, valueText_omitEmpty _ _ _⟩, hpayload, by simp⟩,
    hmetadata⟩, hobservability, hprincipal, valueText_timeText hoccurred _,
    valueText_timeText hcreated _, by simp⟩

def WireMessage.decodeMember (tt : TimeText) (x : WireMessage) (m : WireField × Bytes) :
    Option WireMessage :=
  x.decodeField tt m.1 m.2

section

variable {x : WireMessage} {s : String} (h : safeIDValid s = true)
include h

theorem foldlM_aggregateID (hx : x.aggregateID = "") :
    (omitEmpty .aggregateID s).foldlM (decodeMember tt) x =
      some { x with aggregateID := s } :=
  foldlM_safeID (fun v ↦ { x with aggregateID := v }) h (fun _ ↦ rfl) (by rw [← hx])

theorem foldlM_aggregateType (hx : x.aggregateType = "") :
    (omitEmpty .aggregateType s).foldlM (decodeMember tt) x =
      some { x with aggregateType := s } :=
  foldlM_safeID (fun v ↦ { x with aggregateType := v }) h (fun _ ↦ rfl) (by rw [← hx])

theorem foldlM_topic (hx : x.topic = "") :
    (omitEmpty .topic s).foldlM (decodeMember tt) x = some { x with topic := s } :=
  foldlM_safeID (fun v ↦ { x with topic := v }) h (fun _ ↦ rfl) (by rw [← hx])

end

theorem foldlM_metadata {x : WireMessage} {m : Metadata} (h : m.IsText) (hx : x.metadata = {}) :
    m.field.foldlM (decodeMember tt) x = some { x with metadata := m } := by
  unfold Metadata.field
  split
  · next hm =>
    have hempty : x.metadata = m := hx.trans (Metadata.eq_of_pairs hm.symm)
    rw [← hempty]
    rfl
  · have hdecode : decodeMember tt x (.metadata, m.text) =
        some { x with metadata := m } := by
      simp only [decodeMember, decodeField, hx, decode_metadata h, map_some]
    rw [foldlM_cons, hdecode]
    rfl

theorem foldlM_fields (h : msg.Readable) (hoccurred : timeText tt msg.occurredAt = some occurredAt)
    (hcreated : timeText tt msg.createdAt = some createdAt) :
    (msg.fields payload occurredAt createdAt).foldlM (decodeMember tt) {} =
      some { msg with payload := payload } := by
  have hsafe : ∀ {s : String}, safeIDValid s = true → decodeSafeID (stringText s) = some s :=
    decodeSafeID_stringText
  simp only [fields, foldlM_append, foldlM_cons, foldlM_nil,
    decodeMember, decodeField, bind_eq_bind, bind_some,
    Option.map_some, Option.pure_def, decodeString_stringText h.schemaVersion, hsafe h.id,
    foldlM_aggregateID h.aggregateID, foldlM_aggregateType h.aggregateType, hsafe h.eventType,
    foldlM_topic h.topic, foldlM_metadata h.metadata, decode_observability h.observability,
    decode_principal h.principal, decodeTime_timeText hoccurred, decodeTime_timeText hcreated]

theorem unmarshal_marshal (tt : TimeText) (h : msg.Readable)
    (hraw : rawMessageText msg.payload = some payload) (hpayload : ValueText 9999 payload)
    (hoccurred : inYears msg.occurredAt = true) (hcreated : inYears msg.createdAt = true) :
    ∃ raw, msg.marshal tt = some raw ∧
      unmarshal tt raw = some { msg with payload := payload } := by
  obtain ⟨occurredAt, hoccurred⟩ : ∃ text, timeText tt msg.occurredAt = some text :=
    ⟨_, if_pos hoccurred⟩
  obtain ⟨createdAt, hcreated⟩ : ∃ text, timeText tt msg.createdAt = some text :=
    ⟨_, if_pos hcreated⟩
  refine ⟨structText WireField.name (msg.fields payload occurredAt createdAt), ?_, ?_⟩
  · simp only [marshal, hraw, hoccurred, hcreated, Option.bind_eq_bind,
      Option.bind_some, Option.pure_def]
  · have htexts := valueText_fields hpayload hoccurred hcreated
    have hvalid : jsonValid (structText WireField.name
        (msg.fields payload occurredAt createdAt)) = true :=
      jsonValid_structText htexts (by decide)
    unfold unmarshal
    rw [if_pos hvalid, decodeStruct_structText (by intro f; cases f <;> decide)
      (by intro f; cases f <;> decide) htexts (by decide)]
    exact foldlM_fields h hoccurred hcreated

end Message

variable {e : Entry}

theorem safeIDValid_routingTopic (h : e.Valid) : safeIDValid e.routingTopic = true := by
  unfold Entry.routingTopic
  split
  · exact h.topic
  · exact h.eventType

theorem readable_wireMessage (h : e.Valid) (hmetadata : e.metadata.IsText) :
    e.wireMessage.Readable where
  schemaVersion := by
    show Ascii envelopeSchemaV1
    decide
  id := h.id
  aggregateID := h.aggregateID
  aggregateType := h.aggregateType
  eventType := h.eventType
  topic := safeIDValid_routingTopic h
  metadata := hmetadata
  observability := h.observability
  principal := h.principal

/-- The payload of an entry can travel: as JSON inside of the envelope it becomes `out`. -/
structure Entry.Travels (e : Entry) (out : Bytes) : Prop where
  compact : Kernel.compact e.payload = some out
  nesting : nestingDepth e.payload ≤ 9999
  metadata : e.metadata.IsText
  occurredAt : inYears e.occurredAt = true
  createdAt : inYears e.createdAt = true

theorem marshalEnvelope_ok (tt : TimeText) {out : Bytes} (h : e.Valid) (hout : e.Travels out) :
    ∃ raw, marshalEnvelope tt e = .ok raw ∧
      unmarshal tt raw = some { e.wireMessage with payload := out } := by
  have hvalue : ValueText 9999 out := (valueText_compact hout.compact).mono hout.nesting
  have hraw : rawMessageText e.payload = some out := by
    unfold rawMessageText
    rw [if_neg h.payload_ne, hout.compact]
  obtain ⟨raw, hmarshal, hunmarshal⟩ := unmarshal_marshal tt
    (readable_wireMessage h hout.metadata) hraw hvalue hout.occurredAt hout.createdAt
  refine ⟨raw, ?_, hunmarshal⟩
  simp only [marshalEnvelope, parseSafeID, h.id, h.aggregateID, h.aggregateType, h.eventType,
    safeIDValid_routingTopic h, h.observability, h.principal, require, if_true, wrapError, hmarshal]
  rfl

def Entry.arrived (e : Entry) (out : Bytes) : Entry :=
  { e with topic := e.routingTopic, payload := out }

theorem valid_arrived {out : Bytes} (h : e.Valid) (hne : out ≠ [])
    (hlen : out.length ≤ maxPayloadBytes) : (e.arrived out).Valid := by
  have htopic : (e.arrived out).routingTopic = e.routingTopic := by
    unfold Entry.arrived
    rw [Entry.routingTopic, if_pos h.topic_ne]
  exact { h with
    topic_ne := htopic ▸ h.topic_ne
    payload_ne := hne
    payload_le := hlen
    topic := safeIDValid_routingTopic h }

theorem unmarshalEnvelope_ok {tt : TimeText} {out raw : Bytes} (h : e.Valid)
    (hraw : unmarshal tt raw = some { e.wireMessage with payload := out })
    (heventType : e.eventType ≠ "") (hne : out ≠ []) (hnull : out ≠ asciiBytes "null")
    (hlen : out.length ≤ maxPayloadBytes) (topic : String) :
    unmarshalEnvelope tt topic raw = .ok (e.arrived out) := by
  have hvalid : (e.arrived out).validate = .ok () :=
    Entry.validate_ok_iff.2 (valid_arrived h hne hlen)
  unfold Entry.arrived at hvalid ⊢
  simp only [unmarshalEnvelope, hraw, Entry.wireMessage, require, heventType, hne, hnull,
    h.topic_ne, wrapError, hvalid, ne_eq, not_false_eq_true, decide_true, Bool.and_self, if_true,
    if_false]
  rfl

theorem valid_of_newEntry {id eventType : String} {now : Time} {ctx : Context} {payload : Bytes}
    {opts : List EntryOption}
    (h : newEntry id now ctx eventType payload opts = .ok e) : e.Valid := by
  obtain ⟨_, hvalidate, he⟩ := bind_ok.1 h
  cases he
  exact Entry.validate_ok_iff.1 hvalidate

theorem round_trip {out : Bytes} (tt : TimeText) (h : e.Valid)
    (heventType : e.eventType ≠ "") (hout : e.Travels out) (hnull : out ≠ asciiBytes "null")
    (hlen : out.length ≤ maxPayloadBytes) (topic : String) :
    ∃ raw, marshalEnvelope tt e = .ok raw ∧
      unmarshalEnvelope tt topic raw = .ok (e.arrived out) := by
  obtain ⟨raw, hmarshal, hraw⟩ := marshalEnvelope_ok tt h hout
  have hne : out ≠ [] :=
    ne_nil_of_valueText ((valueText_compact hout.compact).mono hout.nesting) (by decide)
  exact ⟨raw, hmarshal, unmarshalEnvelope_ok h hraw heventType hne hnull hlen topic⟩

/-- An entry whose event type is set and whose payload is JSON other than `null` arrives under any
topic argument, with its payload compacted. -/
theorem envelope_round_trip (tt : TimeText) {id eventType : String} {now : Time} {ctx : Context}
    {payload out : Bytes} {opts : List EntryOption} {e : Entry}
    (hnew : newEntry id now ctx eventType payload opts = .ok e) (heventType : e.eventType ≠ "")
    (hout : e.Travels out) (hnull : out ≠ asciiBytes "null")
    (hlen : out.length ≤ maxPayloadBytes) (topic : String) :
    ∃ raw, marshalEnvelope tt e = .ok raw ∧
      unmarshalEnvelope tt topic raw = .ok { e with topic := e.routingTopic, payload := out } ∧
      ({ e with topic := e.routingTopic, payload := out } : Entry).routingTopic =
        e.routingTopic := by
  have h := valid_of_newEntry hnew
  obtain ⟨raw, hmarshal, hunmarshal⟩ := round_trip tt h heventType hout hnull hlen topic
  refine ⟨raw, hmarshal, hunmarshal, ?_⟩
  rw [Entry.routingTopic, if_pos h.topic_ne]

def plainContext : Context := fun _ ↦ none

def plainEntry (eventType topic : String) (payload : Bytes) : Entry :=
  { id := "evt-1", eventType := eventType, topic := topic, payload := payload,
    createdAt := 7, occurredAt := 7 }

theorem travels_plainEntry {payload out : Bytes} (eventType topic : String)
    (hcompact : compact payload = some out) (hnesting : nestingDepth payload ≤ 9999) :
    (plainEntry eventType topic payload).Travels out :=
  ⟨hcompact, hnesting, fun _ hkv ↦ absurd hkv not_mem_nil, rfl, rfl⟩

def orderContext : Context
  | .requestID => some "req-1"
  | .traceID => some "0af7651916cd43dd8448eb211c80319c"
  | .spanID => some "b7ad6b7169203331"
  | .actorID => some "user-7"
  | .tenantID => some "acme"
  | _ => none

def orderOptions : List EntryOption :=
  [.withAggregateID "order-9", .withMetadata ⟨[(asciiBytes "source", asciiBytes "web")], by decide⟩]

def orderEntry (topic : String) : Entry where
  id := "evt-1"
  aggregateID := "order-9"
  eventType := "order.created"
  topic := topic
  payload := asciiBytes "\x7b\"total\":\"5\"\x7d"
  metadata := ⟨[(asciiBytes "source", asciiBytes "web")], by decide⟩
  observability := {
    requestID := "req-1"
    traceID := "0af7651916cd43dd8448eb211c80319c"
    traceParent := "00-0af7651916cd43dd8448eb211c80319c-b7ad6b7169203331-01" }
  principal := { actorID := "user-7", tenantID := "acme" }
  createdAt := 7
  occurredAt := 7

theorem envelope_round_trip_order :
    ∃ raw, newEntry "evt-1" 7 orderContext "order.created" (orderEntry "").payload orderOptions =
        .ok (orderEntry "") ∧
      marshalEnvelope rfc3339Nano (orderEntry "") = .ok raw ∧
      unmarshalEnvelope rfc3339Nano "orders" raw = .ok (orderEntry "order.created") := by
  have hnew : newEntry "evt-1" 7 orderContext "order.created" (orderEntry "").payload
      orderOptions = .ok (orderEntry "") := by decide +kernel
  have htravels : (orderEntry "").Travels (orderEntry "").payload :=
    ⟨rfl, by decide, by unfold Metadata.IsText; decide, rfl, rfl⟩
  obtain ⟨raw, hmarshal, hunmarshal, -⟩ := envelope_round_trip rfc3339Nano hnew (by decide) htravels
    (by decide) (by decide) "orders"
  exact ⟨raw, hnew, hmarshal, hunmarshal⟩

/-- A blank of the payload is lost, an entry with a topic alone is rejected on arrival, and text
that is not JSON is not even sent. -/
theorem accepted_entries_altered :
    (∃ e e' raw, newEntry "evt-1" 7 plainContext "order.created" (asciiBytes "[1, 2]") [] = .ok e ∧
      marshalEnvelope rfc3339Nano e = .ok raw ∧
      unmarshalEnvelope rfc3339Nano "orders" raw = .ok e' ∧
      e'.payload ≠ e.payload) ∧
    (∃ e raw, newEntry "evt-1" 7 plainContext "" (asciiBytes "[]") [.withTopic "orders"] = .ok e ∧
      marshalEnvelope rfc3339Nano e = .ok raw ∧
      unmarshalEnvelope rfc3339Nano "orders" raw =
        .error (errEnvelope "outbox: envelope missing required field: eventType")) ∧
    ∃ e, newEntry "evt-1" 7 plainContext "order.created" (asciiBytes "paid") [] = .ok e ∧
      marshalEnvelope rfc3339Nano e = .error (errEnvelope "outbox: marshal envelope") := by
  refine ⟨?_, ?_, ?_⟩
  · have hnew : newEntry "evt-1" 7 plainContext "order.created" (asciiBytes "[1, 2]") [] =
        .ok (plainEntry "order.created" "" (asciiBytes "[1, 2]")) := rfl
    have hout : (plainEntry "order.created" "" (asciiBytes "[1, 2]")).Travels
      (asciiBytes "[1,2]") :=
      travels_plainEntry _ _ rfl (by decide)
    obtain ⟨raw, hmarshal, hunmarshal⟩ := round_trip rfc3339Nano (valid_of_newEntry hnew)
      (by decide) hout (by decide) (by decide) "orders"
    exact ⟨_, _, raw, hnew, hmarshal, hunmarshal, by decide⟩
  · have hnew : newEntry "evt-1" 7 plainContext "" (asciiBytes "[]") [.withTopic "orders"] =
        .ok (plainEntry "" "orders" (asciiBytes "[]")) := rfl
    have hout : (plainEntry "" "orders" (asciiBytes "[]")).Travels (asciiBytes "[]") :=
      travels_plainEntry _ _ rfl (by decide)
    obtain ⟨raw, hmarshal, hraw⟩ := marshalEnvelope_ok rfc3339Nano (valid_of_newEntry hnew) hout
    refine ⟨_, raw, hnew, hmarshal, ?_⟩
    simp only [unmarshalEnvelope, hraw]
    rfl
  · exact ⟨plainEntry "order.created" "" (asciiBytes "paid"), rfl, rfl⟩

end GoCell.Envelope
