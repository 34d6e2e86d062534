import GoCell.Foundation.Tables
import GoCell.Idempotency.InMemClaimer
import GoCell.Idempotency.RedisClaimer

namespace GoCell.Idempotency

open Foundation Kernel List Option InMemClaimer

inductive LinkedFlags : InMemReceipt → RedisReceipt → Prop
  | fresh {r q} (hused : r.used = false) (hc : q.committed = none) (hr : q.released = none) :
      LinkedFlags r q
  | committed {r q} (hused : r.used = true) (herr : r.err = none)
      (hc : q.committed = some (.ok ())) (hr : q.released = none) : LinkedFlags r q
  | released {r q} (hused : r.used = true) (herr : r.err = none) (hc : q.committed = none)
      (hr : q.released = some (.ok ())) : LinkedFlags r q
  | stale {r q} (hused : r.used = true) (e : Err) (herr : r.err = some e)
      (hc : q.committed ≠ some (.ok ())) (hr : q.released ≠ some (.ok ())) : LinkedFlags r q

section

variable (memToken redisToken : ℕ → String)

structure LinkedReceipt (ns : KeyNamespace) (i : ℕ) (r : InMemReceipt) (q : RedisReceipt) :
    Prop where
  validKey : validKey r.key = true
  token : r.token = memToken i
  redisToken : q.token = redisToken i
  leaseKey : q.leaseKey = leaseKey ns r.key
  doneKey : q.doneKey = doneKey ns r.key
  doneTTL : q.doneTTL = r.doneTTL
  wholeMs : WholeMs r.doneTTL
  flags : LinkedFlags r q

inductive LinkedKey (s : InMemClaimer) (ns : KeyNamespace) (rdb : KeyStore String String)
    (now : Time) (key : String) : Prop
  | free (hentry : s.entries key = none) (hlease : rdb.Gone now (leaseKey ns key))
      (hdone : rdb.Gone now (doneKey ns key))
  | leased (i : ℕ) (r : InMemReceipt) (e : Time) (hi : s.receipts[i]? = some r)
      (hkey : r.key = key) (hused : r.used = false)
      (hentry : s.entries key = some ⟨.acquired, memToken i, e⟩)
      (hlease : rdb (leaseKey ns key) = some ⟨redisToken i, e⟩)
      (hdone : rdb.Gone now (doneKey ns key))
  | done (i : ℕ) (r : InMemReceipt) (e : Time) (hi : s.receipts[i]? = some r)
      (hkey : r.key = key) (hused : r.used = true)
      (hentry : s.entries key = some ⟨.done, memToken i, e⟩)
      (hlease : rdb.Gone now (leaseKey ns key)) (hdone : rdb (doneKey ns key) = some ⟨"1", e⟩)

structure Linked (s : InMemClaimer) (t : RedisClaimer) (now : Time) : Prop where
  length : s.receipts.length = t.receipts.length
  receipt : ∀ i r q, s.receipts[i]? = some r → t.receipts[i]? = some q →
    LinkedReceipt memToken redisToken t.ns i r q
  key : ∀ key, validKey key = true → LinkedKey memToken redisToken s t.ns t.rdb now key

end

theorem braceFree_of_validKey {key : String} (h : validKey key = true) : braceFree key = true := by
  simp only [validKey, Bool.and_eq_true] at h
  exact h.2

section

variable {ns : KeyNamespace} {key key' role role' : String}

section

variable (h : validKey key = true) (h' : validKey key' = true)
include h h'

theorem name_inj (heq : applyHashtag ns.name key role = applyHashtag ns.name key' role') :
    key = key' ∧ role = role' :=
  (applyHashtag_inj ns.braceFree ns.braceFree (braceFree_of_validKey h)
    (braceFree_of_validKey h') heq).2

theorem leaseKey_ne (hne : key ≠ key') :
    leaseKey ns key ≠ leaseKey ns key' := fun heq ↦ hne (name_inj h h' heq).1

theorem doneKey_ne (hne : key ≠ key') :
    doneKey ns key ≠ doneKey ns key' := fun heq ↦ hne (name_inj h h' heq).1

theorem leaseKey_ne_doneKey :
    leaseKey ns key ≠ doneKey ns key' := fun heq ↦ absurd (name_inj h h' heq).2 (by decide)

end

end

theorem InMemClaimer.held_eq_some_iff {s : InMemClaimer} {r : InMemReceipt} {e : InMemEntry} :
    s.held r = some e ↔ s.entries r.key = some e ∧ e.token = r.token := by
  simp [held, filter_eq_some_iff]

section

variable {memToken redisToken : ℕ → String} {s s' : InMemClaimer} {t : RedisClaimer}
  {ns : KeyNamespace} {rdb rdb' : KeyStore String String} {now later : Time} {key : String} {i : ℕ}
  {r : InMemReceipt} {q : RedisReceipt}

theorem LinkedKey.mono (h : LinkedKey memToken redisToken s ns rdb now key) (hle : now ≤ later) :
    LinkedKey memToken redisToken s ns rdb later key := by
  cases h with
  | free hentry hlease hdone => exact .free hentry (hlease.mono hle) (hdone.mono hle)
  | leased i r e hi hkey hused hentry hlease hdone =>
    exact .leased i r e hi hkey hused hentry hlease (hdone.mono hle)
  | done i r e hi hkey hused hentry hlease hdone =>
    exact .done i r e hi hkey hused hentry (hlease.mono hle) hdone

theorem LinkedKey.congr (h : LinkedKey memToken redisToken s ns rdb now key)
    (hentry : s'.entries key = s.entries key)
    (hlease : rdb' (leaseKey ns key) = rdb (leaseKey ns key))
    (hdone : rdb' (doneKey ns key) = rdb (doneKey ns key))
    (hreceipt : ∀ (j : ℕ) (r : InMemReceipt) (e : InMemEntry), s.receipts[j]? = some r →
      r.key = key → s.entries key = some e → e.token = memToken j →
      ∃ r' : InMemReceipt, s'.receipts[j]? = some r' ∧ r'.key = key ∧ r'.used = r.used) :
    LinkedKey memToken redisToken s' ns rdb' now key := by
  cases h with
  | free hnone hl hd => exact .free (hentry.trans hnone) (hl.congr hlease) (hd.congr hdone)
  | leased i r e hi hkey hused hsome hl hd =>
    obtain ⟨r', hi', hkey', hused'⟩ := hreceipt i r _ hi hkey hsome rfl
    exact .leased i r' e hi' hkey' (hused'.trans hused) (hentry.trans hsome) (hlease.trans hl)
      (hd.congr hdone)
  | done i r e hi hkey hused hsome hl hd =>
    obtain ⟨r', hi', hkey', hused'⟩ := hreceipt i r _ hi hkey hsome rfl
    exact .done i r' e hi' hkey' (hused'.trans hused) (hentry.trans hsome) (hl.congr hlease)
      (hdone.trans hd)

theorem InMemClaimer.getElem?_setReceipt_self (hi : s.receipts[i]? = some r) (r' : InMemReceipt) :
    (s.setReceipt i r').receipts[i]? = some r' := by
  obtain ⟨hlt, -⟩ := List.getElem?_eq_some_iff.1 hi
  simp [setReceipt, hlt]

theorem InMemClaimer.getElem?_setReceipt_ne {j : ℕ} (hij : i ≠ j) (r' : InMemReceipt) :
    (s.setReceipt i r').receipts[j]? = s.receipts[j]? := by
  simp [setReceipt, hij]

variable (h : Linked memToken redisToken s t now)
include h

theorem Linked.mono (hle : now ≤ later) : Linked memToken redisToken s t later :=
  ⟨h.length, h.receipt, fun key hkey ↦ (h.key key hkey).mono hle⟩

variable {r' : InMemReceipt} {q' : RedisReceipt}

theorem Linked.receipt_set (hlink : LinkedReceipt memToken redisToken t.ns i r' q') (j : ℕ)
    (a : InMemReceipt) (b : RedisReceipt) (ha : (s.receipts.set i r')[j]? = some a)
    (hb : (t.receipts.set i q')[j]? = some b) : LinkedReceipt memToken redisToken t.ns j a b := by
  obtain ⟨rfl, rfl⟩ | ⟨hij, ha⟩ := getElem?_set_cases ha
  · obtain ⟨-, rfl⟩ | ⟨hii, -⟩ := getElem?_set_cases hb
    · exact hlink
    · exact absurd rfl hii
  · obtain ⟨rfl, -⟩ | ⟨-, hb⟩ := getElem?_set_cases hb
    · exact absurd rfl hij
    · exact h.receipt j a b ha hb

theorem Linked.setReceipt (hi : s.receipts[i]? = some r)
    (hlink : LinkedReceipt memToken redisToken t.ns i r' q') (hkey : r'.key = r.key)
    (hused : ∀ e, s.held r = some e → r'.used = r.used) (htoken : r.token = memToken i) :
    Linked memToken redisToken (s.setReceipt i r') (t.setReceipt i q') now := by
  refine ⟨?_, h.receipt_set hlink, ?_⟩
  · simpa only [InMemClaimer.setReceipt, RedisClaimer.setReceipt, length_set] using h.length
  · intro key hvalid
    refine (h.key key hvalid).congr rfl rfl rfl fun j a e ha hakey he hetoken ↦ ?_
    by_cases hij : i = j
    · subst hij
      cases hi.symm.trans ha
      subst hakey
      have hheld : s.held r = some e :=
        held_eq_some_iff.2 ⟨he, hetoken.trans htoken.symm⟩
      exact ⟨r', getElem?_setReceipt_self hi r', hkey, hused e hheld⟩
    · exact ⟨a, (getElem?_setReceipt_ne hij r').trans ha, hakey, rfl⟩

theorem Linked.setEntry {entry : Option InMemEntry} {rdb' : KeyStore String String}
    (hi : s.receipts[i]? = some r) (hlink : LinkedReceipt memToken redisToken t.ns i r' q')
    (hother : ∀ key, validKey key = true → key ≠ r.key →
      rdb' (leaseKey t.ns key) = t.rdb (leaseKey t.ns key) ∧
        rdb' (doneKey t.ns key) = t.rdb (doneKey t.ns key))
    (hown : LinkedKey memToken redisToken ((s.setEntry r.key entry).setReceipt i r') t.ns rdb' now
      r.key) :
    Linked memToken redisToken ((s.setEntry r.key entry).setReceipt i r')
      ({ t with rdb := rdb' }.setReceipt i q') now := by
  refine ⟨?_, h.receipt_set hlink, ?_⟩
  · simpa only [InMemClaimer.setReceipt, InMemClaimer.setEntry, RedisClaimer.setReceipt,
      length_set] using h.length
  · intro key hvalid
    by_cases heq : key = r.key
    · subst heq
      exact hown
    · obtain ⟨hlease, hdone⟩ := hother key hvalid heq
      refine (h.key key hvalid).congr (Function.update_of_ne heq ..) hlease hdone
        fun j a e ha hakey _ _ ↦ ?_
      have hij : i ≠ j := by
        rintro rfl
        cases hi.symm.trans ha
        exact heq hakey.symm
      exact ⟨a, (getElem?_setReceipt_ne hij r').trans ha, hakey, rfl⟩

variable (hmem : Function.Injective memToken) (hi : s.receipts[i]? = some r)
  (hq : t.receipts[i]? = some q)
include hmem hi hq

theorem Linked.held_cases {e : InMemEntry} (he : s.held r = some e) :
    (r.used = false ∧ e.state = .acquired ∧
        t.rdb (leaseKey t.ns r.key) = some ⟨redisToken i, e.expiresAt⟩ ∧
        t.rdb.Gone now (doneKey t.ns r.key)) ∨
      (r.used = true ∧ e.state = .done ∧ t.rdb.Gone now (leaseKey t.ns r.key)) := by
  have hlink := h.receipt i r q hi hq
  obtain ⟨hentry, htoken⟩ := held_eq_some_iff.1 he
  rw [hlink.token] at htoken
  cases h.key r.key hlink.validKey with
  | free hnone _ _ => simp [hnone] at hentry
  | leased j r' e' hj _ hused hentry' hlease hdone =>
    cases hentry'.symm.trans hentry
    obtain rfl := hmem htoken
    cases hj.symm.trans hi
    exact .inl ⟨hused, rfl, hlease, hdone⟩
  | done j r' e' hj _ hused hentry' hlease _ =>
    cases hentry'.symm.trans hentry
    obtain rfl := hmem htoken
    cases hj.symm.trans hi
    exact .inr ⟨hused, rfl, hlease⟩

theorem Linked.token_check (hredis : Function.Injective redisToken) :
    t.rdb.get now q.leaseKey = some q.token ↔
      r.used = false ∧ ∃ e ∈ s.held r, KeyStore.Live now e.expiresAt := by
  have hlink := h.receipt i r q hi hq
  rw [KeyStore.get_eq_some_iff, hlink.leaseKey, hlink.redisToken]
  constructor
  · rintro ⟨e, hcell, hlive⟩
    cases h.key r.key hlink.validKey with
    | free _ hlease | done _ _ _ _ _ _ _ hlease => exact absurd hlive (hlease _ hcell)
    | leased j r' e' hj _ hused hentry hlease =>
      obtain ⟨htoken, rfl⟩ := Expiring.mk.inj (some.inj (hlease.symm.trans hcell))
      obtain rfl := hredis htoken
      cases hj.symm.trans hi
      exact ⟨hused, _, held_eq_some_iff.2 ⟨hentry, hlink.token.symm⟩, hlive⟩
  · rintro ⟨hused, e, hheld, hlive⟩
    obtain ⟨-, -, hlease, -⟩ | ⟨hused', -⟩ := h.held_cases hmem hi hq hheld
    · exact ⟨_, hlease, hlive⟩
    · rw [hused] at hused'
      cases hused'

end

end GoCell.Idempotency
