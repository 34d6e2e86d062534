import GoCell.Auth.ServiceToken
import GoCell.Foundation.Runs

namespace GoCell.Auth

open Foundation Kernel List Option

structure Exchange (σ : Type) where
  calls : List GenerateCall := []
  accepted : List (Token × Request) := []
  store : σ

inductive Exchange.Action
  | generate (ring : ServiceKeyring) (c : GenerateCall)
  | verify (now : Time) (payload : Bytes) (r : Request)

section

variable (hmac : Bytes → Bytes → Bytes) (ring : ServiceKeyring)

variable {σ : Type} (nonceStore : Time → NonceStore σ)

def Exchange.step (s : Exchange σ) : Exchange.Action → Option (Exchange σ)
  | .generate signer c =>
    some (if generateServiceToken hmac signer c = [] then s else { s with calls := s.calls ++ [c] })
  | .verify now payload r =>
    match verifyServiceTokenPayload hmac ring now (nonceStore now) s.store payload r,
        parseToken payload with
    | (.ok _, store), .ok t =>
      some { s with accepted := s.accepted ++ [(t, r)], store := store }
    | (_, store), _ => some { s with store := store }

/-- The MAC is unforgeable at a request: it verifies only if a call computed the MAC of the
message before. -/
def Unforgeable (s : Exchange σ) : Exchange.Action → Prop
  | .generate .. => True
  | .verify _ payload r =>
    ∀ t mac, parseToken payload = .ok t → hexDecode t.sigHex = some mac →
      verifyServiceTokenMAC hmac ring t.callerCell (t.message r) mac = true →
      ∃ c ∈ s.calls, c.message = t.message r

end

/-- The condition on a step: no call signs a field with a space or a path with a question mark, and
no request has a question mark in its decoded path. -/
def Exchange.Action.Separable : Exchange.Action → Prop
  | .generate _ c =>
    (∀ field ∈ [c.method, c.path, canonicalQuery c.rawQuery, c.callerCell, c.tenantID,
      c.principalHeader], 0x20 ∉ field) ∧ 0x3f ∉ c.path
  | .verify _ _ r => 0x3f ∉ r.path

structure SignedBy (c : GenerateCall) (t : Token) (r : Request) : Prop where
  method : c.method = r.method
  path : c.path = r.path
  query : canonicalQuery c.rawQuery = canonicalQuery r.rawQuery
  timestamp : c.tsStr = t.tsStr
  nonce : c.nonce = t.nonce
  callerCell : c.callerCell = t.callerCell
  tenantID : c.tenantID = r.tenantID
  principal : c.principalHeader = r.principal

def messageWords (method path rawQuery tsStr nonce callerCell tenantID principalHeader : Bytes) :
    List Bytes :=
  [method, requestTarget path rawQuery, tsStr, nonce, callerCell,
    asciiBytes "x-tenant-id=" ++ tenantID, asciiBytes "x-gocell-principal=" ++ principalHeader]

theorem message_eq_joinWith (method path rawQuery tsStr nonce callerCell tenantID
    principalHeader : Bytes) :
    buildServiceTokenMessage method path rawQuery tsStr nonce callerCell tenantID principalHeader =
      joinWith 0x20 (messageWords method path rawQuery tsStr nonce callerCell tenantID
        principalHeader) := by
  have htenant : asciiBytes " x-tenant-id=" = 0x20 :: asciiBytes "x-tenant-id=" := by decide
  have hprincipal : asciiBytes " x-gocell-principal=" = 0x20 ::
    asciiBytes "x-gocell-principal=" := by
    decide
  simp only [buildServiceTokenMessage, messageWords, joinWith, htenant, hprincipal,
    append_assoc, cons_append]

theorem requestTarget_inj {path path' rawQuery rawQuery' : Bytes} (hpath : 0x3f ∉ path)
    (hpath' : 0x3f ∉ path') (h : requestTarget path rawQuery = requestTarget path' rawQuery') :
    path = path' ∧ canonicalQuery rawQuery = canonicalQuery rawQuery' := by
  unfold requestTarget at h
  split at h
  · split at h
    · exact split_first hpath hpath' h
    · exact absurd (h ▸ mem_append_right _ mem_cons_self) hpath'
  · next hnil =>
    split at h
    · exact absurd (h ▸ mem_append_right _ mem_cons_self) hpath
    · next hnil' =>
      rw [not_not] at hnil hnil'
      exact ⟨h, hnil.trans hnil'.symm⟩

theorem space_notMem_requestTarget {path rawQuery : Bytes} (hpath : 0x20 ∉ path)
    (hquery : 0x20 ∉ canonicalQuery rawQuery) : 0x20 ∉ requestTarget path rawQuery := by
  unfold requestTarget
  split
  · intro h
    obtain h | h := mem_append.1 h
    · exact hpath h
    · obtain h | h := mem_cons.1 h
      · exact absurd h (by decide)
      · exact hquery h
  · exact hpath

theorem space_notMem_words {signer : ServiceKeyring} {c : GenerateCall}
    (h : (Exchange.Action.generate signer c).Separable) :
    ∀ w ∈ messageWords c.method c.path c.rawQuery c.tsStr c.nonce c.callerCell c.tenantID
      c.principalHeader, 0x20 ∉ w := by
  obtain ⟨hfields, -⟩ := h
  simp only [forall_mem_cons, not_mem_nil, IsEmpty.forall_iff, implies_true, and_true] at hfields
  obtain ⟨hmethod, hpath, hquery, hcell, htenant, hprincipal⟩ := hfields
  have hts : 0x20 ∉ c.tsStr := by
    intro hmem
    have hnumeric := isNumeric_of_parseInt (parseInt_decimal (inInt64_unixSeconds c.ts)) _ hmem
    exact absurd hnumeric (by decide)
  have hnonce : 0x20 ∉ c.nonce := by
    intro hmem
    exact absurd (isLowerHex_hexEncode hmem) (by decide)
  have hlabel : ∀ label value : Bytes, 0x20 ∉ label → 0x20 ∉ value → 0x20 ∉ label ++ value := by
    intro label value hl hv hmem
    exact (mem_append.1 hmem).elim hl hv
  simp only [messageWords, forall_mem_cons, not_mem_nil, IsEmpty.forall_iff, implies_true, and_true]
  exact ⟨hmethod, space_notMem_requestTarget hpath hquery, hts, hnonce, hcell,
    hlabel _ _ (by decide) htenant, hlabel _ _ (by decide) hprincipal⟩

theorem signedBy_of_message_eq {signer : ServiceKeyring} {c : GenerateCall} {t : Token}
    {r : Request} (hcall : (Exchange.Action.generate signer c).Separable) (hpath : 0x3f ∉ r.path)
    (h : c.message = t.message r) : SignedBy c t r := by
  rw [GenerateCall.message, Token.message, message_eq_joinWith, message_eq_joinWith] at h
  have hwords := joinWith_inj (space_notMem_words hcall) (by rfl) h
  simp only [messageWords, cons.injEq, append_cancel_left_eq, and_true] at hwords
  obtain ⟨hmethod, htarget, hts, hnonce, hcell, htenant, hprincipal⟩ := hwords
  obtain ⟨hpaths, hquery⟩ := requestTarget_inj hcall.2 hpath htarget
  exact ⟨hmethod, hpaths, hquery, hts, hnonce, hcell, htenant, hprincipal⟩

section Run

variable {hmac : Bytes → Bytes → Bytes} {ring : ServiceKeyring} {σ : Type}
  {nonceStore : Time → NonceStore σ} {s s' : Exchange σ}

structure Exchange.Bound (s : Exchange σ) : Prop where
  calls : ∀ c ∈ s.calls, ∃ signer, (Exchange.Action.generate signer c).Separable
  accepted : ∀ q ∈ s.accepted, ∃ c ∈ s.calls, SignedBy c q.1 q.2

theorem Exchange.verify_cases {now : Time} {payload : Bytes} {r : Request}
    (h : s.step hmac ring nonceStore (.verify now payload r) = some s') :
    s'.calls = s.calls ∧ (s'.accepted = s.accepted ∨
      ∃ t, checkServiceToken hmac ring now payload r = .ok t ∧
        s'.accepted = s.accepted ++ [(t, r)]) := by
  simp only [Exchange.step] at h
  split at h
  · next callerCell store t hverify hparse =>
    cases h
    obtain ⟨t', ht', -, -⟩ := verifyServiceTokenPayload_ok.1 hverify
    cases (checkServiceToken_ok.1 ht').1.symm.trans hparse
    exact ⟨rfl, .inr ⟨_, ht', rfl⟩⟩
  · cases h
    exact ⟨rfl, .inl rfl⟩

theorem Exchange.Bound.step {a : Exchange.Action} (h : s.Bound) (hsep : a.Separable)
    (hunforgeable : Unforgeable hmac ring s a) (hs : s.step hmac ring nonceStore a = some s') :
    s'.Bound := by
  cases a with
  | generate signer c =>
    cases hs
    split
    · exact h
    · constructor
      · intro c' hc'
        obtain hc' | hc' := mem_append.1 hc'
        · exact h.calls c' hc'
        · obtain rfl := mem_singleton.1 hc'
          exact ⟨signer, hsep⟩
      · intro q hq
        obtain ⟨c', hc', hsigned⟩ := h.accepted q hq
        exact ⟨c', mem_append_left _ hc', hsigned⟩
  | verify =>
    obtain ⟨hcalls, haccepted | ⟨t, ht, haccepted⟩⟩ := Exchange.verify_cases hs
    · exact ⟨hcalls ▸ h.calls, by rw [haccepted, hcalls]; exact h.accepted⟩
    · refine ⟨hcalls ▸ h.calls, ?_⟩
      rw [haccepted, hcalls]
      intro q hq
      obtain hq | hq := mem_append.1 hq
      · exact h.accepted q hq
      · obtain rfl := mem_singleton.1 hq
        obtain ⟨hparse, -, -, mac, hdecode, hverified⟩ := checkServiceToken_ok.1 ht
        obtain ⟨c, hc, hmessage⟩ := hunforgeable t mac hparse hdecode hverified
        obtain ⟨signer, hcall⟩ := h.calls c hc
        exact ⟨c, hc, signedBy_of_message_eq hcall hsep hmessage⟩

end Run

/-- In every run whose calls sign no separator inside a field and whose requests have no question
mark in the path, what is accepted was signed with the same fields. -/
theorem service_tokens_bound (hmac : Bytes → Bytes → Bytes) (ring : ServiceKeyring) (σ : Type)
    (nonceStore : Time → NonceStore σ) (store : σ) (acts : List Exchange.Action) (s : Exchange σ)
    (hrun : exec (Exchange.step hmac ring nonceStore) { store := store } acts = some s)
    (hunforgeable : Along (Exchange.step hmac ring nonceStore) { store := store } acts
      (Unforgeable hmac ring))
    (hsep : ∀ a ∈ acts, a.Separable) :
    ∀ q ∈ s.accepted, ∃ c ∈ s.calls, SignedBy c q.1 q.2 := by
  have hinit : Exchange.Bound { store := store } :=
    ⟨fun c hc ↦ absurd hc not_mem_nil, fun q hq ↦ absurd hq not_mem_nil⟩
  have halong : Along (Exchange.step hmac ring nonceStore) { store := store } acts
      fun u a ↦ a.Separable ∧ Unforgeable hmac ring u a := by
    intro pre a post u heq hu
    exact ⟨hsep a (heq ▸ mem_append_right _ mem_cons_self), hunforgeable pre a post u heq hu⟩
  exact (exec_invariant_along Exchange.Bound (fun _ _ _ h hc hs ↦ h.step hc.1 hc.2 hs) acts _ s
    hinit halong hrun).accepted

def sampleMAC (key message : Bytes) : Bytes := checksumHex (key ++ message)

def sampleRing : ServiceKeyring where
  signingSecrets cell := some [cell ++ asciiBytes "0123456789abcdef"]
  verifySecrets cell := some [cell ++ asciiBytes "0123456789abcdef"]

theorem length_sampleNonce : (replicate 16 (7 : UInt8)).length = 16 := rfl

def sampleCall : GenerateCall where
  callerCell := asciiBytes "ordercell"
  method := asciiBytes "GET"
  path := asciiBytes "/internal/v1/roles"
  rawQuery := asciiBytes "b=1&a=2"
  ts := timeUnix 1700000000
  nonceBytes := ⟨List.replicate 16 7, length_sampleNonce⟩

def sampleRun (r : Request) : List Exchange.Action :=
  [.generate sampleRing sampleCall,
    .verify (timeUnix 1700000010) (generateServiceToken sampleMAC sampleRing sampleCall) r]

def sampleToken : Token where
  tsStr := sampleCall.tsStr
  nonce := sampleCall.nonce
  callerCell := sampleCall.callerCell
  sigHex := hexEncode (sampleMAC (asciiBytes "ordercell0123456789abcdef") sampleCall.message)

theorem parseToken_sample :
    parseToken (generateServiceToken sampleMAC sampleRing sampleCall) = .ok sampleToken := by
  decide +kernel

theorem sampleRun_unforgeable {r : Request}
    (hmessage : sampleCall.message = sampleToken.message r) :
    Along (Exchange.step sampleMAC sampleRing (inMemoryNonceStore defaultNonceConfig))
      { store := [] } (sampleRun r) (Unforgeable sampleMAC sampleRing) := by
  have hmade : generateServiceToken sampleMAC sampleRing sampleCall ≠ [] := by decide +kernel
  refine along_cons.2 ⟨trivial, fun u hu ↦ along_cons.2 ⟨?_, fun v _ ↦ ?_⟩⟩
  · cases hu
    rw [if_neg hmade]
    intro t mac ht _ _
    cases parseToken_sample.symm.trans ht
    exact ⟨sampleCall, mem_singleton_self _, hmessage⟩
  · exact along_of_mem fun a ha ↦ absurd ha not_mem_nil

def sampleExchange (r : Request) :=
  exec (Exchange.step sampleMAC sampleRing (inMemoryNonceStore defaultNonceConfig)) { store := [] }
    (sampleRun r)

def reorderedRequest : Request where
  method := asciiBytes "GET"
  path := asciiBytes "/internal/v1/roles"
  rawQuery := asciiBytes "a=2&b=1"

theorem service_tokens_bound_reordered :
    ∃ s, sampleExchange reorderedRequest = some s ∧
      s.accepted = [(sampleToken, reorderedRequest)] ∧
      ∀ q ∈ s.accepted, ∃ c ∈ s.calls, SignedBy c q.1 q.2 := by
  have hrun : (sampleExchange reorderedRequest).map Exchange.accepted =
      some [(sampleToken, reorderedRequest)] := by
    decide +kernel
  obtain ⟨s, hs, haccepted⟩ := map_eq_some_iff.1 hrun
  refine ⟨s, hs, haccepted, service_tokens_bound _ _ _ _ _ _ s hs
    (sampleRun_unforgeable (by decide +kernel)) ?_⟩
  simp only [sampleRun, forall_mem_cons, not_mem_nil, IsEmpty.forall_iff, implies_true, and_true]
  have hquery : 0x20 ∉ canonicalQuery sampleCall.rawQuery :=
    space_notMem_canonicalQuery (by decide)
  have hpath : 0x3f ∉ reorderedRequest.path := by decide
  refine ⟨⟨?_, by decide⟩, hpath⟩
  simp only [forall_mem_cons, not_mem_nil, IsEmpty.forall_iff, implies_true, and_true]
  exact ⟨by decide, by decide, hquery, by decide, by decide, by decide⟩

/-- The question mark is part of the path, as in a target with `%3F`. -/
def foldedRequest : Request where
  method := asciiBytes "GET"
  path := asciiBytes "/internal/v1/roles?a=2&b=1"

theorem folded_query_accepted :
    ¬∀ (hmac : Bytes → Bytes → Bytes) (ring : ServiceKeyring) (σ : Type)
      (nonceStore : Time → NonceStore σ) (store : σ) (acts : List Exchange.Action)
      (s : Exchange σ), exec (Exchange.step hmac ring nonceStore) { store := store } acts = some s →
        Along (Exchange.step hmac ring nonceStore) { store := store } acts
          (Unforgeable hmac ring) →
        ∀ q ∈ s.accepted, ∃ c ∈ s.calls, SignedBy c q.1 q.2 := by
  intro h
  have hrun : ((sampleExchange foldedRequest).map fun s ↦ (s.calls, s.accepted)) =
      some ([sampleCall], [(sampleToken, foldedRequest)]) := by
    decide +kernel
  obtain ⟨s, hs, hfacts⟩ := map_eq_some_iff.1 hrun
  obtain ⟨hcalls, haccepted⟩ := Prod.mk.inj hfacts
  obtain ⟨c, hc, hsigned⟩ := h _ _ _ _ _ _ s hs (sampleRun_unforgeable (by decide +kernel))
    (sampleToken, foldedRequest) (haccepted ▸ mem_singleton_self _)
  obtain rfl := mem_singleton.1 (hcalls ▸ hc)
  exact absurd hsigned.path (by decide)

end GoCell.Auth
