import GoCell.Auth.ServiceToken
import GoCell.Foundation.Runs

namespace GoCell.Auth

open Foundation Kernel List Option

section Store

variable {cfg : NonceConfig} {now : Time} {seen seen' : Seen} {nonce n : Bytes}

theorem lookup_set_self (seen : Seen) (nonce : Bytes) (exp : Time) :
    (seen.set nonce exp).lookup nonce = some exp := by
  simp [Seen.lookup, Seen.set]

theorem lookup_set_of_ne (seen : Seen) (exp : Time) (h : n ≠ nonce) :
    (seen.set nonce exp).lookup n = seen.lookup n := by
  have hrest : (seen.filter (·.1 ≠ nonce)).find? (·.1 = n) = seen.find? (·.1 = n) := by
    rw [find?_filter]
    congr 1
    funext p
    by_cases hp : p.1 = n <;> simp [hp, h]
  rw [Seen.lookup, Seen.set, find?_cons_of_neg (by simpa using Ne.symm h), hrest]
  rfl

theorem lookup_prune {exp : Time} (h : seen.lookup n = some exp) (hlive : now ≤ exp) :
    (seen.prune now).lookup n = some exp := by
  induction seen with
  | nil => cases h
  | cons q seen ih =>
    by_cases hq : q.1 = n
    · have hexp : q.2 = exp := by simpa [Seen.lookup, hq] using h
      rw [Seen.prune, filter_cons_of_pos (by simpa [hexp] using hlive), Seen.lookup,
        find?_cons_of_pos (by simpa using hq), map_some, hexp]
    · have hrest : Seen.lookup seen n = some exp := by simpa [Seen.lookup, hq] using h
      by_cases hkept : now ≤ q.2
      · rw [Seen.prune, filter_cons_of_pos (by simpa using hkept), Seen.lookup,
          find?_cons_of_neg (by simpa using hq)]
        exact ih hrest
      · rw [Seen.prune, filter_cons_of_neg (by simpa using hkept)]
        exact ih hrest

def Remembers (seen : Seen) (now : Time) (n : Bytes) (till : Time) : Prop :=
  (∃ exp, seen.lookup n = some exp ∧ till ≤ exp) ∨ till ≤ now

theorem Remembers.prune {till : Time} (h : Remembers seen now n till) :
    Remembers (seen.prune now) now n till := by
  obtain ⟨exp, hexp, htill⟩ | hpast := h
  · by_cases hlive : now ≤ exp
    · exact .inl ⟨exp, lookup_prune hexp hlive, htill⟩
    · exact .inr (htill.trans (le_of_lt (not_le.1 hlive)))
  · exact .inr hpast

theorem Remembers.makeRoom {till : Time} (h : Remembers seen now n till) :
    Remembers (seen.makeRoom cfg now) now n till := by
  unfold Seen.makeRoom
  split
  · exact h.prune
  · exact h

theorem checkAndMark_cases {answer : Except Err Unit}
    (h : checkAndMark cfg now seen nonce = (answer, seen')) :
    ((∃ e, answer = .error e) ∧ seen' = seen.makeRoom cfg now) ∨
      (answer = .ok () ∧ (∀ exp, (seen.makeRoom cfg now).lookup nonce = some exp → exp ≤ now) ∧
        seen' = (seen.makeRoom cfg now).set nonce (now + cfg.maxAge)) := by
  simp only [checkAndMark] at h
  split at h
  · obtain ⟨rfl, rfl⟩ := Prod.mk.inj h
    exact .inl ⟨⟨_, rfl⟩, rfl⟩
  · split at h
    · next exp hexp =>
      split at h
      · obtain ⟨rfl, rfl⟩ := Prod.mk.inj h
        exact .inl ⟨⟨_, rfl⟩, rfl⟩
      · next hlive =>
        obtain ⟨rfl, rfl⟩ := Prod.mk.inj h
        refine .inr ⟨rfl, fun exp' hexp' ↦ ?_, rfl⟩
        cases hexp.symm.trans hexp'
        exact not_lt.1 hlive
    · next hnone =>
      obtain ⟨rfl, rfl⟩ := Prod.mk.inj h
      exact .inr ⟨rfl, fun exp hexp ↦ absurd (hnone.symm.trans hexp) (by simp), rfl⟩

end Store

theorem checkTokenTime_ok {now : Time} {tsStr : Bytes} (h : checkTokenTime now tsStr = .ok ()) :
    ∃ ts, parseInt tsStr = some ts ∧ timeUnix ts ≤ now + serviceTokenClockSkew ∧
      now < timeUnix ts + serviceTokenMaxAge := by
  unfold checkTokenTime at h
  split at h
  · cases h
  · next ts hts =>
    obtain ⟨hskew, hage⟩ := check_ok.1 h
    have hskew := of_decide_eq_true (require_ok.1 hskew)
    have hage := of_decide_eq_true (require_ok.1 hage)
    refine ⟨ts, hts, hskew, ?_⟩
    unfold timeSub at hage
    split at hage
    · exact Int.lt_add_of_sub_left_lt hage
    · split at hage
      · next hfuture => exact hfuture.trans (Int.lt_add_of_pos_right _ (by decide))
      · exact absurd hage (by decide)

theorem lt_of_window {u u' marked now age skew maxAge : ℤ} (hwindow : u ≤ marked + skew)
    (hover : marked + maxAge ≤ now) (hretention : age + skew ≤ maxAge) (hage : now < u' + age) :
    u < u' := by
  omega

structure Arrival where
  now : Time
  payload : Bytes
  request : Request

/-- One process with its store: the time of the last request, the store and the tokens that were
accepted. -/
structure Gate where
  now : Time
  seen : Seen := []
  accepted : List Token := []

def Gate.step (hmac : Bytes → Bytes → Bytes) (ring : ServiceKeyring) (cfg : NonceConfig) (s : Gate)
    (a : Arrival) : Option Gate :=
  if a.now < s.now then none
  else
    match verifyServiceTokenPayload hmac ring a.now (inMemoryNonceStore cfg a.now) s.seen a.payload
        a.request, parseToken a.payload with
    | (.ok _, seen), .ok t => some ⟨a.now, seen, s.accepted ++ [t]⟩
    | (_, seen), _ => some ⟨a.now, seen, s.accepted⟩

/-- Two tokens that are accepted one after the other do not share nonce and timestamp: with the
same nonce, the later one has a later time. -/
def Later (t t' : Token) : Prop :=
  t.nonce = t'.nonce → ∀ ts ts', parseInt t.tsStr = some ts → parseInt t'.tsStr = some ts' →
    timeUnix ts < timeUnix ts'

section Run

variable {hmac : Bytes → Bytes → Bytes} {ring : ServiceKeyring} {cfg : NonceConfig} {s s' : Gate}
  {a : Arrival}

theorem Gate.step_cases (h : s.step hmac ring cfg a = some s') :
    s.now ≤ a.now ∧ s'.now = a.now ∧
      ((s'.accepted = s.accepted ∧ (s'.seen = s.seen ∨ s'.seen = s.seen.makeRoom cfg a.now)) ∨
        ∃ t, checkTokenTime a.now t.tsStr = .ok () ∧ s'.accepted = s.accepted ++ [t] ∧
          (∀ exp, (s.seen.makeRoom cfg a.now).lookup t.nonce = some exp → exp ≤ a.now) ∧
          s'.seen = (s.seen.makeRoom cfg a.now).set t.nonce (a.now + cfg.maxAge)) := by
  unfold Gate.step at h
  split at h
  · cases h
  · next hnow =>
    refine ⟨not_lt.1 hnow, ?_⟩
    split at h
    · next callerCell seen t hverify hparse =>
      cases h
      obtain ⟨t', ht', -, hmark⟩ := verifyServiceTokenPayload_ok.1 hverify
      obtain ⟨hparse', htime, -⟩ := checkServiceToken_ok.1 ht'
      obtain rfl := Except.ok.inj (hparse'.symm.trans hparse)
      obtain ⟨⟨e, he⟩, -⟩ | ⟨-, hdead, hseen⟩ := checkAndMark_cases hmark
      · cases he
      · exact ⟨rfl, .inr ⟨t', htime, rfl, hdead, hseen⟩⟩
    · next answer seen parsed hverify hrejected =>
      cases h
      refine ⟨rfl, .inl ⟨rfl, ?_⟩⟩
      unfold verifyServiceTokenPayload at hverify
      split at hverify
      · exact .inl (Prod.mk.inj hverify).2.symm
      · next t ht =>
        split at hverify
        · next e seen' hmark =>
          obtain ⟨-, rfl⟩ := Prod.mk.inj hverify
          obtain ⟨-, hseen⟩ | ⟨hok, -, -⟩ := checkAndMark_cases hmark
          · exact .inr hseen
          · cases hok
        · obtain ⟨rfl, rfl⟩ := Prod.mk.inj hverify
          exact (hrejected _ _ (checkServiceToken_ok.1 ht).1 rfl).elim

/-- The order of the accepted tokens, and why it goes on: the store remembers a nonce until the last
token of the time at which it was marked has expired. -/
structure Gate.Guarded (cfg : NonceConfig) (s : Gate) : Prop where
  remembered : ∀ t ∈ s.accepted, ∀ ts, parseInt t.tsStr = some ts →
    ∃ marked : Time, timeUnix ts ≤ marked + serviceTokenClockSkew ∧
      Remembers s.seen s.now t.nonce (marked + cfg.maxAge)
  ordered : s.accepted.Pairwise Later

theorem Remembers.later {seen : Seen} {now now' till : Time} {n : Bytes}
    (h : Remembers seen now n till) (hnow : now ≤ now') : Remembers seen now' n till :=
  h.imp id fun hpast ↦ hpast.trans hnow

theorem Remembers.set {seen : Seen} {now till : Time} {n nonce : Bytes}
    (h : Remembers seen now n till)
    (hdead : ∀ exp, seen.lookup nonce = some exp → exp ≤ now) (exp : Time) :
    Remembers (seen.set nonce exp) now n till := by
  by_cases hn : n = nonce
  · subst hn
    obtain ⟨exp', hexp', htill⟩ | hpast := h
    · exact .inr (htill.trans (hdead exp' hexp'))
    · exact .inr hpast
  · obtain ⟨exp', hexp', htill⟩ | hpast := h
    · exact .inl ⟨exp', (lookup_set_of_ne seen exp hn).trans hexp', htill⟩
    · exact .inr hpast

theorem Gate.Guarded.step (h : s.Guarded cfg) (hs : s.step hmac ring cfg a = some s') :
    s'.Guarded cfg := by
  obtain ⟨hnow, hnow', ⟨haccepted, hseen⟩ | ⟨t, htime, haccepted, hdead, hseen⟩⟩ :=
    Gate.step_cases hs
  · refine ⟨fun t ht ts hts ↦ ?_, haccepted ▸ h.ordered⟩
    obtain ⟨marked, hwindow, hrem⟩ := h.remembered t (haccepted ▸ ht) ts hts
    have hrem := hrem.later hnow
    refine ⟨marked, hwindow, ?_⟩
    rw [hnow']
    obtain hseen | hseen := hseen
    · exact hseen ▸ hrem
    · exact hseen ▸ hrem.makeRoom
  · have hkept : ∀ t' ∈ s.accepted, ∀ ts, parseInt t'.tsStr = some ts →
        ∃ marked : Time, timeUnix ts ≤ marked + serviceTokenClockSkew ∧
          Remembers (s.seen.makeRoom cfg a.now) a.now t'.nonce (marked + cfg.maxAge) := by
      intro t' ht' ts hts
      obtain ⟨marked, hwindow, hrem⟩ := h.remembered t' ht' ts hts
      exact ⟨marked, hwindow, (hrem.later hnow).makeRoom⟩
    obtain ⟨tsNew, htsNew, hskew, hage⟩ := checkTokenTime_ok htime
    constructor
    · rw [haccepted, hseen, hnow']
      intro t' ht' ts hts
      obtain ht' | ht' := mem_append.1 ht'
      · obtain ⟨marked, hwindow, hrem⟩ := hkept t' ht' ts hts
        exact ⟨marked, hwindow, hrem.set hdead _⟩
      · obtain rfl := mem_singleton.1 ht'
        cases htsNew.symm.trans hts
        exact ⟨a.now, hskew, .inl ⟨_, lookup_set_self _ _ _, le_refl _⟩⟩
    · rw [haccepted, pairwise_append]
      refine ⟨h.ordered, pairwise_singleton _ _, fun t' ht' t'' ht'' hnonce ts ts' hts hts' ↦ ?_⟩
      obtain rfl := mem_singleton.1 ht''
      cases htsNew.symm.trans hts'
      obtain ⟨marked, hwindow, hrem⟩ := hkept t' ht' ts hts
      -- The nonce was free again, so the store's retention is over.
      have hover : marked + cfg.maxAge ≤ a.now := by
        obtain ⟨exp, hexp, htill⟩ | hpast := hrem
        · exact htill.trans (hdead exp (hnonce ▸ hexp))
        · exact hpast
      exact lt_of_window hwindow hover cfg.maxAge_le hage

end Run

/-- However requests arrive, a nonce is accepted once for a timestamp: with the same nonce again,
only a token of a later time is accepted. -/
theorem nonce_accepted_once (hmac : Bytes → Bytes → Bytes) (ring : ServiceKeyring)
    (cfg : NonceConfig) (start : Time) (arrivals : List Arrival) (s : Gate)
    (hrun : exec (Gate.step hmac ring cfg) { now := start } arrivals = some s) :
    s.accepted.Pairwise Later := by
  have hinit : Gate.Guarded cfg { now := start } :=
    ⟨fun t ht ↦ absurd ht not_mem_nil, List.Pairwise.nil⟩
  exact (exec_invariant (Gate.Guarded cfg) (fun _ _ _ h hs ↦ h.step hs) arrivals _ s hinit
    hrun).ordered

def oneSecret : ServiceKeyring where
  signingSecrets _ := some [asciiBytes "0123456789abcdef0123456789abcdef"]
  verifySecrets _ := some [asciiBytes "0123456789abcdef0123456789abcdef"]

def onePathCall (sec : ℤ) : GenerateCall where
  callerCell := asciiBytes "ordercell"
  method := asciiBytes "GET"
  path := asciiBytes "/internal"
  ts := timeUnix sec
  nonceBytes := ⟨List.replicate 16 7, rfl⟩

def arrival (sec : ℤ) (after : Duration) : Arrival where
  now := timeUnix sec + after
  payload := generateServiceToken (fun key m ↦ checksumHex (key ++ m)) oneSecret (onePathCall sec)
  request := { method := asciiBytes "GET", path := asciiBytes "/internal" }

/-- A token at the first and at the last instant of its window, and later one that was made with the
same nonce. -/
def edges : List Arrival :=
  [arrival 1700000000 (-30 * nanosPerSecond), arrival 1700000000 (300 * nanosPerSecond - 1),
    arrival 1700003600 0]

theorem nonce_accepted_once_edges :
    ∃ s, exec (Gate.step (fun key m ↦ checksumHex (key ++ m)) oneSecret defaultNonceConfig)
        { now := 0 } edges = some s ∧
      s.accepted.map Token.tsStr = [asciiBytes "1700000000", asciiBytes "1700003600"] ∧
      s.accepted.Pairwise Later := by
  have hrun : ((exec (Gate.step (fun key m ↦ checksumHex (key ++ m)) oneSecret defaultNonceConfig)
      { now := 0 } edges).map fun s ↦ s.accepted.map Token.tsStr) =
        some [asciiBytes "1700000000", asciiBytes "1700003600"] := by
    decide +kernel
  obtain ⟨s, hs, haccepted⟩ := map_eq_some_iff.1 hrun
  exact ⟨s, hs, haccepted, nonce_accepted_once _ _ _ _ _ s hs⟩

theorem nonce_accepted_again :
    ¬∀ (hmac : Bytes → Bytes → Bytes) (ring : ServiceKeyring) (cfg : NonceConfig) (start : Time)
      (arrivals : List Arrival) (s : Gate),
      exec (Gate.step hmac ring cfg) { now := start } arrivals = some s →
        (s.accepted.map Token.nonce).Nodup := by
  intro h
  have hrun : ((exec (Gate.step (fun key m ↦ checksumHex (key ++ m)) oneSecret defaultNonceConfig)
      { now := 0 } edges).map fun s ↦ decide (s.accepted.map Token.nonce).Nodup) = some false := by
    decide +kernel
  obtain ⟨s, hs, hnodup⟩ := map_eq_some_iff.1 hrun
  exact of_decide_eq_false hnodup (h _ _ _ _ _ s hs)

end GoCell.Auth
