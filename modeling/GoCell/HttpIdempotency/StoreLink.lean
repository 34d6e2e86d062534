import GoCell.HttpIdempotency.LeaseOwnership
import GoCell.HttpIdempotency.RedisStore

namespace GoCell.HttpIdempotency

open Foundation Idempotency Kernel List Option KeyStore

/-- A key that the stores can tell apart from every other: free of braces, and with a namespace free
of NUL. -/
def Separable (k : IdempotencyKey) : Prop :=
  braceFree k.ns = true ∧ braceFree k.key = true ∧ '\x00' ∉ k.ns.toList

instance (k : IdempotencyKey) : Decidable (Separable k) := inferInstanceAs (Decidable (_ ∧ _ ∧ _))

theorem flat_toList (k : IdempotencyKey) :
    k.flat.toList = k.ns.toList ++ '\x00' :: k.key.toList := by
  simp [IdempotencyKey.flat]

theorem flat_inj {k k' : IdempotencyKey} (h : Separable k) (h' : Separable k')
    (heq : k.flat = k'.flat) : k = k' := by
  have hlist := congrArg String.toList heq
  rw [flat_toList, flat_toList] at hlist
  obtain ⟨hns, hkey⟩ := split_first h.2.2 h'.2.2 hlist
  exact congrArg₂ IdempotencyKey.mk (String.toList_injective hns) (String.toList_injective hkey)

theorem Role.text_injective : Function.Injective Role.text := by
  intro r r' h
  cases r <;> cases r' <;> first | rfl | exact absurd h (by decide)

section

variable {ns : KeyNamespace} {k k' : IdempotencyKey} {role role' : Role}

theorem braceFree_applyNamespace (ns : KeyNamespace) (h : Separable k) :
    braceFree (applyNamespace ns.name k.ns) = true := by
  have hns := braceFree_iff.1 ns.braceFree
  have hk := braceFree_iff.1 h.1
  rw [braceFree_iff]
  simp only [applyNamespace, String.toList_append, mem_append]
  constructor
  · rintro ((hmem | hmem) | hmem)
    · exact hns.1 hmem
    · exact absurd hmem (by decide)
    · exact hk.1 hmem
  · rintro ((hmem | hmem) | hmem)
    · exact hns.2 hmem
    · exact absurd hmem (by decide)
    · exact hk.2 hmem

theorem keyName_inj (h : Separable k) (h' : Separable k')
    (heq : keyName ns k role = keyName ns k' role') : k = k' ∧ role = role' := by
  obtain ⟨hns, hkey, hrole⟩ := applyHashtag_inj (braceFree_applyNamespace ns h)
    (braceFree_applyNamespace ns h') h.2.1 h'.2.1 heq
  refine ⟨?_, Role.text_injective hrole⟩
  have hlist := congrArg String.toList hns
  simp only [applyNamespace, String.toList_append, append_assoc] at hlist
  have htail := append_cancel_left (append_cancel_left hlist)
  exact congrArg₂ IdempotencyKey.mk (String.toList_injective htail) hkey

theorem keyName_injective (ns : KeyNamespace) (h : Separable k) :
    Function.Injective (keyName ns k) := fun _ _ heq ↦ (keyName_inj h h heq).2

theorem keyName_ne (h : Separable k) (h' : Separable k') (hne : k' ≠ k) (role role' : Role) :
    keyName ns k' role' ≠ keyName ns k role := fun heq ↦ hne (keyName_inj h' h heq).1

theorem keyName_ne_empty : keyName ns k role ≠ "" := by
  intro heq
  have hlist := congrArg String.toList heq
  simp [keyName, applyHashtag] at hlist

end

def cells (ns : KeyNamespace) (rdb : KeyStore String Bytes) (k : IdempotencyKey) :
    KeyStore Role Bytes := rdb.comap (keyName ns k)

section

variable {ns : KeyNamespace} {k k' : IdempotencyKey} {rdb : KeyStore String Bytes} {now : Time}
  {token fingerprint blob : Bytes} {ms ms' : ℤ}

theorem claimRespScript_cells (ns : KeyNamespace) (rdb : KeyStore String Bytes) (now : Time)
    (token fingerprint : Bytes) (ms ms' : ℤ) (h : Separable k) :
    let res := claimRespScript rdb now (keyName ns k .resp) (keyName ns k .lease) (keyName ns k .fp)
      token ms fingerprint ms'
    let res' := claimRespScript (cells ns rdb k) now .resp .lease .fp token ms fingerprint ms'
    cells ns res.1 k = res'.1 ∧ res.2 = res'.2 := by
  have hinj := keyName_injective ns h
  simp only [claimRespScript, cells, get_comap]
  split
  · split
    · exact ⟨rfl, rfl⟩
    · exact ⟨rfl, rfl⟩
  · split
    · split
      · exact ⟨rfl, rfl⟩
      · exact ⟨rfl, rfl⟩
    · split
      · exact ⟨by rw [comap_set hinj, comap_set hinj], rfl⟩
      · exact ⟨by rw [comap_set hinj], rfl⟩

theorem claimRespScript_frame (h : Separable k) (h' : Separable k') (hne : k' ≠ k) :
    cells ns (claimRespScript rdb now (keyName ns k .resp) (keyName ns k .lease) (keyName ns k .fp)
      token ms fingerprint ms').1 k' = cells ns rdb k' := by
  simp only [claimRespScript, cells]
  split
  · split
    · rfl
    · rfl
  · split
    · split
      · rfl
      · rfl
    · split
      · rw [comap_set_of_ne (keyName_ne h h' hne .fp), comap_set_of_ne (keyName_ne h h' hne .lease)]
      · rw [comap_set_of_ne (keyName_ne h h' hne .lease)]

theorem httpRecordScript_cells (ns : KeyNamespace) (rdb : KeyStore String Bytes) (now : Time)
    (token blob : Bytes) (ms : ℤ) (h : Separable k) :
    let res := httpRecordScript rdb now (keyName ns k .lease) (keyName ns k .resp)
      (keyName ns k .fp) token blob ms
    let res' := httpRecordScript (cells ns rdb k) now .lease .resp .fp token blob ms
    cells ns res.1 k = res'.1 ∧ res.2 = res'.2 := by
  have hinj := keyName_injective ns h
  have hset : ((rdb.del (keyName ns k .lease)).set now (keyName ns k .resp) blob
      (pxDuration ms)).comap (keyName ns k) =
        ((rdb.comap (keyName ns k)).del .lease).set now .resp blob (pxDuration ms) := by
    rw [comap_set hinj, comap_del hinj]
  simp only [httpRecordScript, cells, ← hset, get_comap]
  split
  · split
    · exact ⟨by rw [comap_expire hinj], rfl⟩
    · exact ⟨rfl, rfl⟩
  · exact ⟨rfl, rfl⟩

theorem httpRecordScript_frame (h : Separable k) (h' : Separable k') (hne : k' ≠ k) :
    cells ns (httpRecordScript rdb now (keyName ns k .lease) (keyName ns k .resp)
      (keyName ns k .fp) token blob ms).1 k' = cells ns rdb k' := by
  simp only [httpRecordScript, cells]
  split
  · split
    · rw [comap_expire_of_ne (keyName_ne h h' hne .fp), comap_set_of_ne (keyName_ne h h' hne .resp),
        comap_del_of_ne (keyName_ne h h' hne .lease)]
    · rw [comap_set_of_ne (keyName_ne h h' hne .resp), comap_del_of_ne (keyName_ne h h' hne .lease)]
  · rfl

theorem httpReleaseScript_cells (ns : KeyNamespace) (rdb : KeyStore String Bytes) (now : Time)
    (token : Bytes) (h : Separable k) :
    let res := httpReleaseScript rdb now (keyName ns k .lease) (keyName ns k .fp) token
    let res' := httpReleaseScript (cells ns rdb k) now .lease .fp token
    cells ns res.1 k = res'.1 ∧ res.2 = res'.2 := by
  have hinj := keyName_injective ns h
  by_cases htoken : rdb.get now (keyName ns k .lease) = some token
  · have htoken' : (cells ns rdb k).get now .lease = some token := htoken
    simp only [httpReleaseScript, htoken, htoken', if_true, and_true]
    exact (comap_del hinj).trans (congrArg (del · .fp) (comap_del hinj))
  · have htoken' : ¬(cells ns rdb k).get now .lease = some token := htoken
    simp only [httpReleaseScript, htoken, htoken', if_false, and_true]

theorem httpReleaseScript_frame (h : Separable k) (h' : Separable k') (hne : k' ≠ k) :
    cells ns (httpReleaseScript rdb now (keyName ns k .lease) (keyName ns k .fp) token).1 k' =
      cells ns rdb k' := by
  simp only [httpReleaseScript, cells]
  split
  · rw [comap_del_of_ne (keyName_ne h h' hne .fp), comap_del_of_ne (keyName_ne h h' hne .lease)]
  · rfl

end

def LinkedFp (now : Time) (fp : Bytes) (e : Time) (c : KeyStore Role Bytes) : Prop :=
  if fp = [] then c.Gone now .fp else c .fp = some ⟨fp, e⟩

section

variable (tt : TimeText) {β : Type} (view : RecordedResponse → β) (memToken redisToken : ℕ → Bytes)

/-- The entry of a key and the cells that stand for it. `view` is what is compared of a response. -/
inductive LinkedCells (now : Time) : Option MemEntry → KeyStore Role Bytes → Prop
  | free {c} (hgone : ∀ role, c.Gone now role) : LinkedCells now none c
  | leased {c} (i : ℕ) (e : Time) (fp : Bytes) (hlease : c .lease = some ⟨redisToken i, e⟩)
      (hresp : c.Gone now .resp) (hfp : LinkedFp now fp e c) :
      LinkedCells now (some { leaseToken := memToken i, leaseExpiry := e, fingerprint := fp }) c
  | done {c} (rec rec' : RecordedResponse) (blob : Bytes) (e : Time) (fp : Bytes)
      (hresp : c .resp = some ⟨blob, e⟩) (hblob : unmarshalRecordedResponse tt blob = .ok rec')
      (hview : view rec' = view rec) (hlease : c.Gone now .lease) (hfp : LinkedFp now fp e c) :
      LinkedCells now (some { recorded := some rec, doneExpiry := e, fingerprint := fp }) c

structure LinkedReceipt (ns : KeyNamespace) (i : ℕ) (k : IdempotencyKey) (r : MemReceipt)
    (q : HttpReceipt) : Prop where
  separable : Separable k
  composed : r.composed = k.flat
  token : r.token = memToken i
  redisToken : q.token = redisToken i
  leaseKey : q.leaseKey = keyName ns k .lease
  respKey : q.respKey = keyName ns k .resp
  fpKey : q.fpKey = keyName ns k .fp
  unused : r.settled = false → q.recorded = none ∧ q.released = none

structure Linked (s : MemStore) (t : HTTPIdempotencyStore) (now : Time) : Prop where
  length : s.receipts.length = t.receipts.length
  receipt : ∀ {i r q}, s.receipts[i]? = some r → t.receipts[i]? = some q →
    ∃ k, LinkedReceipt memToken redisToken t.ns i k r q
  unsettled : ∀ {i r e}, s.receipts[i]? = some r → s.entries r.composed = some e →
    e.leaseToken = memToken i → r.settled = false
  key : ∀ {k}, Separable k →
    LinkedCells tt view memToken redisToken now (s.entries k.flat) (cells t.ns t.rdb k)

end

section

variable {tt : TimeText} {β : Type} {view : RecordedResponse → β}
  {memToken redisToken : ℕ → Bytes} {now later e ttl : Time} {fp fingerprint token blob : Bytes}
  {c : KeyStore Role Bytes} {entry : Option MemEntry} {ms : ℤ}

theorem LinkedFp.mono (h : LinkedFp now fp e c) (hle : now ≤ later) : LinkedFp later fp e c := by
  unfold LinkedFp at h ⊢
  split at h
  · next hfp =>
    rw [if_pos hfp]
    exact h.mono hle
  · next hfp =>
    rw [if_neg hfp]
    exact h

theorem LinkedFp.gone (h : LinkedFp now fp e c) (hlive : ¬Live now e) : c.Gone now .fp := by
  unfold LinkedFp at h
  split at h
  · exact h
  · exact KeyStore.Gone.of_expired h hlive

theorem LinkedFp.reused (h : LinkedFp now fp e c) (hlive : Live now e) (fingerprint : Bytes) :
    reused (c.get now .fp) fingerprint = if fpMismatch fp fingerprint then some fp else none := by
  unfold LinkedFp at h
  split at h
  · next hfp => simp [HttpIdempotency.reused, KeyStore.get_eq_none_iff.2 h, fpMismatch, hfp]
  · next hfp =>
    rw [KeyStore.get_eq_some_iff.2 ⟨e, h, hlive⟩]
    simp [HttpIdempotency.reused, Option.filter, fpMismatch, hfp]

theorem LinkedCells.mono (h : LinkedCells tt view memToken redisToken now entry c)
    (hle : now ≤ later) : LinkedCells tt view memToken redisToken later entry c := by
  cases h with
  | free hgone => exact .free fun role ↦ (hgone role).mono hle
  | leased i e fp hlease hresp hfp => exact .leased i e fp hlease (hresp.mono hle) (hfp.mono hle)
  | done rec rec' blob e fp hresp hblob hview hlease hfp =>
    exact .done rec rec' blob e fp hresp hblob hview (hlease.mono hle) (hfp.mono hle)

theorem Linked.mono {s : MemStore} {t : HTTPIdempotencyStore}
    (h : Linked tt view memToken redisToken s t now) (hle : now ≤ later) :
    Linked tt view memToken redisToken s t later :=
  ⟨h.length, h.receipt, h.unsettled, fun hk ↦ (h.key hk).mono hle⟩

theorem LinkedCells.acquire (tt : TimeText) (view : RecordedResponse → β)
    (memToken redisToken : ℕ → Bytes) (fingerprint : Bytes) (hlease : c.Gone now .lease)
    (hresp : c.Gone now .resp) (hfp : c.Gone now .fp) (i : ℕ) (hms : pxDuration ms = ttl) :
    let res := claimRespScript c now .resp .lease .fp (redisToken i) ms fingerprint ms
    res.2 = .acquired ∧ LinkedCells tt view memToken redisToken now
      (some { leaseToken := memToken i, leaseExpiry := now + ttl,
              fingerprint := fingerprint }) res.1 := by
  subst hms
  simp only [claimRespScript, get_eq_none_iff.2 hresp, get_eq_none_iff.2 hlease]
  split
  · next hne =>
    dsimp only
    refine ⟨rfl, .leased i _ _ ?_ ?_ ?_⟩
    · rw [set_of_ne (by decide), set_self]
    · refine hresp.congr ?_
      rw [set_of_ne (by decide), set_of_ne (by decide)]
    · rw [LinkedFp, if_neg hne]
      exact set_self
  · next heq =>
    rw [not_not] at heq
    dsimp only
    refine ⟨rfl, .leased i _ _ set_self ?_ ?_⟩
    · exact hresp.congr (set_of_ne (by decide))
    · rw [LinkedFp, if_pos heq]
      exact hfp.congr (set_of_ne (by decide))

theorem LinkedCells.recorded {rec rec' : RecordedResponse} (hfp : LinkedFp now fp e c)
    (hlive : Live now e) (htoken : c.get now .lease = some token)
    (hblob : unmarshalRecordedResponse tt blob = .ok rec') (hview : view rec' = view rec)
    (hms : pxDuration ms = ttl) :
    let res := httpRecordScript c now .lease .resp .fp token blob ms
    res.2 = true ∧ LinkedCells tt view memToken redisToken now
      (some { recorded := some rec, doneExpiry := now + ttl, fingerprint := fp }) res.1 := by
  subst hms
  have hkeep : ((c.del .lease).set now .resp blob (pxDuration ms)) .fp = c .fp := by
    rw [set_of_ne (by decide), del_of_ne (by decide)]
  have hlease : ((c.del .lease).set now .resp blob (pxDuration ms)) .lease = none := by
    rw [set_of_ne (by decide), del_self]
  have hget : ((c.del .lease).set now .resp blob (pxDuration ms)).get now .fp = c.get now .fp := by
    rw [KeyStore.get, hkeep, KeyStore.get]
  simp only [httpRecordScript, htoken, if_true, hget]
  unfold LinkedFp at hfp
  split at hfp
  · next hnil =>
    rw [get_eq_none_iff.2 hfp, isSome_none, if_neg Bool.false_ne_true]
    dsimp only
    refine ⟨rfl, .done rec rec' blob _ _ set_self hblob hview
      (KeyStore.Gone.of_eq_none hlease) ?_⟩
    rw [LinkedFp, if_pos hnil]
    exact hfp.congr hkeep
  · next hne =>
    have hsome := get_eq_some_iff.2 ⟨e, hfp, hlive⟩
    rw [hsome, isSome_some, if_pos rfl, expire_of_live (hget.trans hsome)]
    dsimp only
    refine ⟨rfl, .done rec rec' blob _ _ ?_ hblob hview ?_ ?_⟩
    · rw [set_of_ne (by decide), set_self]
    · exact (KeyStore.Gone.of_eq_none hlease).congr (set_of_ne (by decide))
    · rw [LinkedFp, if_neg hne]
      exact set_self

theorem LinkedCells.released (hresp : c.Gone now .resp) (htoken : c.get now .lease = some token) :
    let res := httpReleaseScript c now .lease .fp token
    res.2 = true ∧ LinkedCells tt view memToken redisToken now none res.1 := by
  simp only [httpReleaseScript, htoken, if_true, true_and]
  refine .free fun role ↦ ?_
  cases role with
  | resp =>
    refine hresp.congr ?_
    rw [del_of_ne (by decide), del_of_ne (by decide)]
  | lease =>
    refine KeyStore.Gone.of_eq_none ?_
    rw [del_of_ne (by decide), del_self]
  | fp => exact KeyStore.Gone.of_eq_none del_self

end

end GoCell.HttpIdempotency
