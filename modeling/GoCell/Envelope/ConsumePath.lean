import GoCell.Envelope.Entry

namespace GoCell.Envelope

open Foundation Kernel List Function

/-- The context that `SubscribeEntry` hands to `ConsumerBase.Wrap` for a delivery. `Wrap` only adds
cancellation to it. -/
def deliveryContext (ambient : Context) (e : Entry) : Context :=
  e.restoreContext (clearAmbientPrincipal ambient)

def Middleware : Type := Context → Entry → Context → Prop

inductive Reaches (e : Entry) : List Middleware → Context → Context → Prop
  | handler (ctx : Context) : Reaches e [] ctx ctx
  | through {m : Middleware} {ms : List Middleware} {ctx mid last : Context} :
    m ctx e mid → Reaches e ms mid last → Reaches e (m :: ms) ctx last

def principalKeys : List CtxKey := [.actorID, .subjectID, .tenantID, .sessionID]

/-- A middleware that does not write the principal, as the callers of the principal setters are
restricted to. -/
def KeepsPrincipal (m : Middleware) : Prop :=
  ∀ ctx e next, m ctx e next → ∀ key ∈ principalKeys, next key = ctx key

def restored (value : String) : String := if isSafeID value ∧ safeIDValid value then value else ""

def PrincipalMetadata.restored (p : PrincipalMetadata) : PrincipalMetadata where
  actorID := Envelope.restored p.actorID
  subjectID := Envelope.restored p.subjectID
  tenantID := Envelope.restored p.tenantID
  sessionID := Envelope.restored p.sessionID

section

variable {ctx : Context} {key key' : CtxKey} {value : String}

theorem withContextMetadata_of_ne (h : key' ≠ key) :
    withContextMetadata ctx value key key' = ctx key' := by
  unfold withContextMetadata
  split
  · exact update_of_ne h _ _
  · rfl

theorem withContextMetadata_self (h : ctx key = some "") :
    withContextMetadata ctx value key key = some (restored value) := by
  have hiff : (value ≠ "" ∧ value.utf8ByteSize ≤ maxMetadataIDLen ∧ isSafeID value = true ∧
      (ctx key).getD "" = "") ↔ (isSafeID value = true ∧ safeIDValid value = true) := by
    rw [h]
    simp only [safeIDValid, isSafeID, Bool.or_eq_true, Bool.and_eq_true, decide_eq_true_eq,
      Option.getD_some, and_true]
    tauto
  unfold withContextMetadata restored
  by_cases hsafe : isSafeID value = true ∧ safeIDValid value = true
  · rw [if_pos (hiff.2 hsafe), if_pos hsafe]
    exact update_self _ _ _
  · rw [if_neg (mt hiff.1 hsafe), if_neg hsafe, h]

theorem withTraceParentMetadata_of_ne (h : key ≠ .traceParent) (h' : key ≠ .traceID) :
    withTraceParentMetadata ctx value key = ctx key := by
  unfold withTraceParentMetadata
  split
  · simp only
    split
    · exact (update_of_ne h' _ _).trans (update_of_ne h _ _)
    · exact update_of_ne h _ _
  · rfl

end

theorem restoreObservability_principal (o : ObservabilityMetadata) (ctx : Context) {key : CtxKey}
    (hkey : key ∈ principalKeys) : o.restoreToContext ctx key = ctx key := by
  have hne : key ≠ .requestID ∧ key ≠ .correlationID ∧ key ≠ .traceID ∧ key ≠ .traceParent := by
    revert hkey
    cases key <;> decide
  obtain ⟨hrequest, hcorrelation, htrace, hparent⟩ := hne
  rw [ObservabilityMetadata.restoreToContext, withTraceParentMetadata_of_ne hparent htrace,
    withContextMetadata_of_ne htrace, withContextMetadata_of_ne hcorrelation,
    withContextMetadata_of_ne hrequest]

theorem clearAmbientPrincipal_principal (ctx : Context) {key : CtxKey}
    (hkey : key ∈ principalKeys) : clearAmbientPrincipal ctx key = some "" := by
  revert hkey
  cases key <;> simp [principalKeys, clearAmbientPrincipal, Context.with, update]

/-- What the four keys hold once the principal `p` has been restored. -/
structure Restored (p : PrincipalMetadata) (ctx : Context) : Prop where
  actorID : ctx .actorID = some (restored p.actorID)
  subjectID : ctx .subjectID = some (restored p.subjectID)
  tenantID : ctx .tenantID = some (restored p.tenantID)
  sessionID : ctx .sessionID = some (restored p.sessionID)

theorem restorePrincipal_restored (p : PrincipalMetadata) {ctx : Context}
    (h : ∀ key ∈ principalKeys, ctx key = some "") : Restored p (p.restoreToContext ctx) := by
  have hactor := h .actorID (by decide)
  have hsubject := h .subjectID (by decide)
  have htenant := h .tenantID (by decide)
  have hsession := h .sessionID (by decide)
  unfold PrincipalMetadata.restoreToContext
  constructor
  · simp (disch := decide) only [withContextMetadata_of_ne, withContextMetadata_self hactor]
  · rw [withContextMetadata_of_ne (by decide), withContextMetadata_of_ne (by decide)]
    exact withContextMetadata_self (by rw [withContextMetadata_of_ne (by decide), hsubject])
  · rw [withContextMetadata_of_ne (by decide)]
    exact withContextMetadata_self (by simp (disch := decide) only [withContextMetadata_of_ne,
      htenant])
  · exact withContextMetadata_self (by simp (disch := decide) only [withContextMetadata_of_ne,
      hsession])

theorem deliveryContext_restored (ambient : Context) (e : Entry) :
    Restored e.principal (deliveryContext ambient e) := by
  apply restorePrincipal_restored
  intro key hkey
  rw [restoreObservability_principal _ _ hkey]
  exact clearAmbientPrincipal_principal ambient hkey

variable {p : PrincipalMetadata}

theorem Restored.of_keeps {ctx next : Context} (h : Restored p ctx)
    (hkeeps : ∀ key ∈ principalKeys, next key = ctx key) : Restored p next :=
  ⟨(hkeeps _ (by decide)).trans h.actorID, (hkeeps _ (by decide)).trans h.subjectID,
    (hkeeps _ (by decide)).trans h.tenantID, (hkeeps _ (by decide)).trans h.sessionID⟩

theorem Reaches.restored {e : Entry} {ms : List Middleware}
    {ctx last : Context} (hreaches : Reaches e ms ctx last) (hms : ∀ m ∈ ms, KeepsPrincipal m)
    (h : Restored p ctx) : Restored p last := by
  induction hreaches with
  | handler ctx => exact h
  | through hcall _ ih =>
    apply ih
    · intro m hm
      exact hms m (mem_cons_of_mem _ hm)
    · exact h.of_keeps (hms _ mem_cons_self _ _ _ hcall)

theorem Restored.contextPrincipal {ctx : Context} (h : Restored p ctx) :
    contextPrincipal ctx = p.restored := by
  simp only [Envelope.contextPrincipal, h.actorID, h.subjectID, h.tenantID, h.sessionID]
  rfl

theorem restored_eq {value : String} (h : safeIDValid value = true) : restored value = value := by
  unfold restored
  split
  · rfl
  · next hunsafe =>
    simp only [h, and_true, Bool.not_eq_true] at hunsafe
    simp only [safeIDValid, hunsafe, Bool.and_false, Bool.or_false, decide_eq_true_eq] at h
    rw [h]

theorem PrincipalMetadata.restored_eq (h : p.validate = .ok ()) :
    p.restored = p := by
  simp only [validate, validatePrincipalSafeID, validateSafeID, bind_ok, require_ok,
    exists_const] at h
  obtain ⟨hactor, hsubject, htenant, hsession⟩ := h
  simp only [restored, Envelope.restored_eq hactor, Envelope.restored_eq hsubject,
    Envelope.restored_eq htenant, Envelope.restored_eq hsession]

/-- Whatever the subscriber's contexts hold, the handlers of entries with the same principal read
the same principal, which is the one of the entry. -/
theorem handler_principal_determined {e e' : Entry} {ms ms' : List Middleware}
    (hms : ∀ m ∈ ms, KeepsPrincipal m) (hms' : ∀ m ∈ ms', KeepsPrincipal m)
    {ambient ambient' ctx ctx' : Context} (hprincipal : e.principal = e'.principal)
    (h : Reaches e ms (deliveryContext ambient e) ctx)
    (h' : Reaches e' ms' (deliveryContext ambient' e') ctx') :
    (∀ key ∈ principalKeys, ctx key = ctx' key) ∧ contextPrincipal ctx = contextPrincipal ctx' ∧
      contextPrincipal ctx = e.principal.restored ∧
      (e.validate = .ok () → contextPrincipal ctx = e.principal) := by
  have hread := h.restored hms (deliveryContext_restored ambient e)
  have hread' := h'.restored hms' (deliveryContext_restored ambient' e')
  rw [← hprincipal] at hread'
  refine ⟨?_, ?_, hread.contextPrincipal, ?_⟩
  · intro key hkey
    simp only [principalKeys, mem_cons, not_mem_nil, or_false] at hkey
    rcases hkey with rfl | rfl | rfl | rfl
    · rw [hread.actorID, hread'.actorID]
    · rw [hread.subjectID, hread'.subjectID]
    · rw [hread.tenantID, hread'.tenantID]
    · rw [hread.sessionID, hread'.sessionID]
  · rw [hread.contextPrincipal, hread'.contextPrincipal]
  · intro hvalid
    rw [hread.contextPrincipal]
    exact PrincipalMetadata.restored_eq (Entry.validate_ok_iff.1 hvalid).principal

def tracing : Middleware := fun ctx _ next ↦ next = ctx.with .spanID "00f067aa0ba902b7"

theorem tracing_keepsPrincipal : KeepsPrincipal tracing := by
  rintro ctx e next rfl key hkey
  apply update_of_ne
  rintro rfl
  exact absurd hkey (by decide)

def subjectEntry : Entry where
  id := "e1"
  eventType := "event.order.created.v1"
  payload := [0x30]
  createdAt := 1
  occurredAt := 1
  principal := { subjectID := "u1" }

def takenContext : Context := fun _ ↦ some "intruder"

theorem handler_principal_of_subject :
    ∃ ctx, Reaches subjectEntry [tracing] (deliveryContext takenContext subjectEntry) ctx ∧
      contextPrincipal ctx = { subjectID := "u1" } := by
  have hreaches : Reaches subjectEntry [tracing] (deliveryContext takenContext subjectEntry)
      ((deliveryContext takenContext subjectEntry).with .spanID "00f067aa0ba902b7") :=
    .through rfl (.handler _)
  have hkeeps : ∀ m ∈ [tracing], KeepsPrincipal m :=
    forall_mem_singleton.2 tracing_keepsPrincipal
  obtain ⟨-, -, -, hread⟩ := handler_principal_determined hkeeps hkeeps rfl hreaches hreaches
  exact ⟨_, hreaches, hread rfl⟩

end GoCell.Envelope
