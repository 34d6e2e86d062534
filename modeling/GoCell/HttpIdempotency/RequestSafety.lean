import GoCell.HttpIdempotency.LeaseOwnership
import GoCell.HttpIdempotency.Middleware

namespace GoCell.HttpIdempotency

open Foundation Idempotency Kernel List Option

def RequestPc.invocation : RequestPc → Option Invocation
  | .acquired v => some v
  | .running v => some v
  | .recording v _ => some v
  | .releasing v => some v
  | _ => none

def RequestPc.inTime (now : Time) : RequestPc → Bool
  | .running v => now < v.expiry
  | _ => true

def Orderly (s : System) : Action → Prop
  | .tick t => ∀ pc ∈ s.requests, pc.inTime t = true
  | .claim _ token => ∀ b ∈ token, s.store.FreshToken b
  | .start n => ∀ v ∈ s.requests[n]?.bind RequestPc.invocation, s.now < v.expiry
  | _ => True

instance (s : System) : ∀ a : Action, Decidable (Orderly s a)
  | .tick _ => inferInstanceAs (Decidable (∀ pc ∈ s.requests, _))
  | .claim _ none => .isTrue fun b hb ↦ by cases hb
  | .claim _ (some b) => decidable_of_iff (s.store.FreshToken b) (by simp [Orderly])
  | .start n =>
    inferInstanceAs (Decidable (∀ v ∈ s.requests[n]?.bind RequestPc.invocation, _))
  | .arrive _ | .finish _ _ _ | .settle _ => .isTrue trivial

namespace System

variable {cfg : MiddlewareConfig} {hashHex : Bytes → Bytes} {s t : System} {a : Action} {n m : ℕ}
  {pc pc₀ : RequestPc} {v w : Invocation} {store : MemStore} {k : IdempotencyKey} {e : MemEntry}

def invocation (s : System) (n : ℕ) : Option Invocation :=
  (s.requests[n]?).bind RequestPc.invocation

structure Safe (s : System) : Prop where
  fenced : s.store.Fenced
  claims : ∀ {n : ℕ} {k : IdempotencyKey} {fingerprint : Bytes},
    s.requests[n]? = some (.claiming k fingerprint) → k.ns ≠ "" ∧ k.key ≠ "" ∧ fingerprint ≠ []
  backed : ∀ {n v}, s.invocation n = some v → v.fingerprint ≠ [] ∧
    s.store.Backs s.now v.receipt v.key.flat v.fingerprint v.expiry
  apart : ∀ {m n v w}, s.invocation m = some v → s.invocation n = some w →
    v.receipt = w.receipt → m = n
  timely : ∀ {n : ℕ} {v : Invocation}, s.requests[n]? = some (.running v) → s.now < v.expiry

theorem getElem?_set_of_some {l : List RequestPc} (hn : l[n]? = some pc₀) (m : ℕ) :
    (l.set n pc)[m]? = if m = n then some pc else l[m]? := by
  rw [getElem?_set]
  split
  · next h => rw [if_pos (List.getElem?_eq_some_iff.1 hn).1, if_pos h.symm]
  · next h => rw [if_neg fun h' ↦ h h'.symm]

@[simp] theorem requests_setPc : (s.setPc n pc).requests = s.requests.set n pc := rfl

theorem invocation_setPc (hn : s.requests[n]? = some pc₀) (m : ℕ) :
    (s.setPc n pc).invocation m = if m = n then pc.invocation else s.invocation m := by
  unfold invocation
  rw [requests_setPc, getElem?_set_of_some hn]
  split <;> rfl

theorem invocation_of_pc (hn : s.requests[n]? = some pc) (hpc : pc.invocation = some v) :
    s.invocation n = some v := by
  rw [invocation, hn]
  exact hpc

theorem Safe.move (h : s.Safe) (hn : s.requests[n]? = some pc₀) (hfenced : store.Fenced)
    (hothers : ∀ m v, m ≠ n → s.invocation m = some v →
      store.Backs s.now v.receipt v.key.flat v.fingerprint v.expiry)
    (hclaims : ∀ k fingerprint, pc ≠ .claiming k fingerprint)
    (hown : ∀ v, pc.invocation = some v → v.fingerprint ≠ [] ∧
      store.Backs s.now v.receipt v.key.flat v.fingerprint v.expiry)
    (hapart : ∀ v m w, pc.invocation = some v → m ≠ n → s.invocation m = some w →
      w.receipt ≠ v.receipt)
    (htimely : ∀ v, pc = .running v → s.now < v.expiry) :
    ({ s with store := store }.setPc n pc).Safe := by
  have hn' : { s with store := store }.requests[n]? = some pc₀ := hn
  refine ⟨hfenced, ?_, ?_, ?_, ?_⟩
  · intro m k fingerprint hm
    rw [requests_setPc, getElem?_set_of_some hn'] at hm
    split at hm
    · exact absurd (some.inj hm) (hclaims k fingerprint)
    · exact h.claims hm
  · intro m v hm
    rw [invocation_setPc hn'] at hm
    split at hm
    · exact hown v hm
    · next hne => exact ⟨(h.backed hm).1, hothers m v hne hm⟩
  · intro m m' v w hm hm' heq
    rw [invocation_setPc hn'] at hm hm'
    split at hm <;> split at hm'
    · omega
    · next hne => exact absurd heq.symm (hapart v m' w hm hne hm')
    · next hne _ => exact absurd heq (hapart w m v hm' hne hm)
    · exact h.apart hm hm' heq
  · intro m v hm
    rw [requests_setPc, getElem?_set_of_some hn'] at hm
    split at hm
    · exact htimely v (some.inj hm)
    · exact h.timely hm

theorem Safe.setPc (h : s.Safe) (hn : s.requests[n]? = some pc₀)
    (hclaims : ∀ k fingerprint, pc ≠ .claiming k fingerprint)
    (hpc : ∀ v, pc.invocation = some v → pc₀.invocation = some v)
    (htimely : ∀ v, pc = .running v → s.now < v.expiry) : (s.setPc n pc).Safe := by
  refine h.move hn h.fenced (fun m v _ hm ↦ (h.backed hm).2) hclaims ?_ ?_ htimely
  · intro v hv
    exact h.backed (invocation_of_pc hn (hpc v hv))
  · intro v m w hv hne hm heq
    exact hne (h.apart hm (invocation_of_pc hn (hpc v hv)) heq)

theorem admit_claim {r : Request} {fingerprint : Bytes}
    (h : (admission cfg hashHex r).pc = .claiming k fingerprint) :
    k.ns ≠ "" ∧ k.key ≠ "" ∧ fingerprint ≠ [] := by
  unfold admission at h
  repeat' split at h
  all_goals cases h
  refine ⟨?_, ?_, computeFingerprint_ne_nil hashHex _⟩
  · unfold deriveKey tenantNamespace
    dsimp only
    split
    · decide
    · next hne => exact hne
  · intro hkey
    have hlen := congrArg String.length hkey
    simp [deriveKey, String.length_append] at hlen

theorem Safe.arrive (h : s.Safe) (hclaims : ∀ k fingerprint, pc = .claiming k fingerprint →
      k.ns ≠ "" ∧ k.key ≠ "" ∧ fingerprint ≠ []) (hpc : pc.invocation = none) :
    Safe { s with requests := s.requests ++ [pc] } := by
  have hrequests : ∀ {m : ℕ} {x}, (s.requests ++ [pc])[m]? = some x →
      s.requests[m]? = some x ∨ pc = x := by
    intro m x hm
    rw [getElem?_append, getElem?_singleton] at hm
    split at hm
    · exact .inl hm
    · split at hm
      · exact .inr (some.inj hm)
      · cases hm
  have hinvocation : ∀ {m v}, invocation { s with requests := s.requests ++ [pc] } m = some v →
      s.invocation m = some v := by
    intro m v hm
    obtain ⟨x, hx, hv⟩ := bind_eq_some_iff.1 hm
    obtain hx | rfl := hrequests hx
    · exact invocation_of_pc hx hv
    · rw [hpc] at hv
      cases hv
  refine ⟨h.fenced, ?_, fun hm ↦ h.backed (hinvocation hm),
    fun hm hm' ↦ h.apart (hinvocation hm) (hinvocation hm'), ?_⟩
  · intro m k fingerprint hm
    obtain hm | hm := hrequests hm
    · exact h.claims hm
    · exact hclaims k fingerprint hm
  · intro m v hm
    obtain hm | rfl := hrequests hm
    · exact h.timely hm
    · cases hpc

theorem Safe.claim (h : s.Safe) {token : Option Bytes} {fingerprint : Bytes}
    (hn : s.requests[n]? = some (.claiming k fingerprint))
    (hfresh : ∀ b ∈ token, s.store.FreshToken b) {leaseTTL : Duration} :
    ({ s with store := (s.store.claim s.now token k fingerprint leaseTTL).1 }.setPc n
      (handle k fingerprint (s.now + leaseTTL)
        (s.store.claim s.now token k fingerprint leaseTTL).2)).Safe := by
  have hacquired : ∀ {res v}, (handle k fingerprint (s.now + leaseTTL) res).invocation = some v →
      ∃ ref, res = .ok (.acquired ref) ∧ v = ⟨k, fingerprint, ref, s.now + leaseTTL⟩ := by
    intro res v hv
    unfold handle at hv
    split at hv <;> cases hv
    exact ⟨_, rfl, rfl⟩
  refine h.move hn (h.fenced.claim hfresh) ?_ ?_ ?_ ?_ ?_
  · intro m v _ hm
    exact (h.backed hm).2.claim h.fenced hfresh
  · intro k' fingerprint' heq
    unfold handle at heq
    split at heq <;> cases heq
  · intro v hv
    obtain ⟨ref, href, rfl⟩ := hacquired hv
    exact ⟨(h.claims hn).2.2, (MemStore.backs_acquired href).2⟩
  · -- the receipt is new, and the other requests have theirs from before
    intro v m w hv _ hm heq
    obtain ⟨ref, href, rfl⟩ := hacquired hv
    obtain ⟨i, token, hi, ho, -⟩ := (h.backed hm).2
    have hlt := MemStore.owner_lt ho
    rw [heq, (MemStore.backs_acquired href).1] at hi
    cases hi
    omega
  · intro v heq
    unfold handle at heq
    split at heq <;> cases heq

theorem Safe.settle (h : s.Safe) (hn : s.requests[n]? = some pc₀) (hv : pc₀.invocation = some v)
    {again : Except Err Unit} {entry : MemEntry → Option MemEntry} (hu : MemStore.Unleased entry)
    (hpc : pc = .answered .served ∨ pc = .releasing v ∧
      (s.store.settle v.receipt again entry).1.entries = s.store.entries) :
    ({ s with store := (s.store.settle v.receipt again entry).1 }.setPc n pc).Safe := by
  have hown : ∀ w, pc.invocation = some w → w = v ∧
      (s.store.settle v.receipt again entry).1.entries = s.store.entries := by
    intro w hw
    obtain rfl | ⟨rfl, hentries⟩ := hpc
    · cases hw
    · cases hw
      exact ⟨rfl, hentries⟩
  have hvn := invocation_of_pc hn hv
  refine h.move hn (h.fenced.settle hu) ?_ ?_ ?_ ?_ ?_
  · intro m w hne hm
    exact (h.backed hm).2.settle h.fenced hu fun heq ↦ hne (h.apart hm hvn heq.symm)
  · intro k fingerprint heq
    obtain rfl | ⟨rfl, -⟩ := hpc <;> cases heq
  · intro w hw
    obtain ⟨rfl, hentries⟩ := hown w hw
    obtain ⟨hfp, hbacks⟩ := h.backed hvn
    refine ⟨hfp, ?_⟩
    unfold MemStore.Backs at hbacks ⊢
    rw [MemStore.owner_settle, hentries]
    exact hbacks
  · intro w m x hw hne hm heq
    obtain ⟨rfl, -⟩ := hown w hw
    exact hne (h.apart hm hvn heq)
  · intro w heq
    obtain rfl | ⟨rfl, -⟩ := hpc <;> cases heq

theorem safe_step (h : s.Safe) (ha : Orderly s a) (hstep : step cfg hashHex s a = some t) :
    t.Safe := by
  cases a with
  | tick now =>
    simp only [step] at hstep
    split at hstep <;> cases hstep
    next hle =>
    refine ⟨h.fenced, h.claims, fun hm ↦ ⟨(h.backed hm).1, (h.backed hm).2.later hle⟩, h.apart, ?_⟩
    intro n v hn
    exact of_decide_eq_true (ha _ (mem_of_getElem? hn))
  | arrive r =>
    cases hstep
    refine h.arrive (fun k fingerprint ↦ admit_claim) ?_
    cases admission cfg hashHex r <;> rfl
  | claim =>
    simp only [step] at hstep
    split at hstep <;> cases hstep
    next hn => exact h.claim hn ha
  | start n =>
    simp only [step] at hstep
    split at hstep <;> cases hstep
    next v hn =>
    have hv := invocation_of_pc hn rfl
    refine h.setPc hn (fun k fingerprint heq ↦ by cases heq) (fun w hw ↦ hw) ?_
    intro w heq
    cases heq
    exact ha v hv
  | finish n calls panicked =>
    simp only [step] at hstep
    split at hstep <;> cases hstep
    · next v hn =>
      cases (if panicked then none
        else (BufferingWriter.run cfg.maxBodyBytes calls).toRecord s.now) with
      | none => exact h.setPc hn (fun _ _ h ↦ by cases h) (fun w hw ↦ hw) fun _ h ↦ by cases h
      | some resp => exact h.setPc hn (fun _ _ h ↦ by cases h) (fun w hw ↦ hw) fun _ h ↦ by cases h
    · next hn => exact h.setPc hn (fun _ _ h ↦ by cases h) (fun w hw ↦ hw) fun _ h ↦ by cases h
  | settle n =>
    simp only [step, settle] at hstep
    split at hstep <;> cases hstep
    · next v resp hn =>
      refine h.settle hn rfl MemStore.unleased_record ?_
      split
      · exact .inl rfl
      · next herr => exact .inr ⟨rfl, MemStore.entries_settle_of_error herr⟩
    · next v hn => exact h.settle hn rfl MemStore.unleased_release (.inl rfl)

theorem safe_run {as : List Action} (hrun : exec (step cfg hashHex) {} as = some s)
    (horderly : Along (step cfg hashHex) {} as Orderly) : s.Safe := by
  refine exec_invariant_along Safe (fun _ _ _ ↦ safe_step) as {} s ?_ horderly hrun
  refine ⟨⟨?_, ?_, ?_⟩, ?_, ?_, ?_, ?_⟩
  all_goals simp [MemStore.owner, invocation]

theorem Safe.running_ne (h : s.Safe) (hv : s.requests[m]? = some (.running v))
    (hw : s.requests[n]? = some (.running w)) (hne : m ≠ n) : v.key ≠ w.key := by
  intro hkey
  have hvm := invocation_of_pc hv rfl
  have hwn := invocation_of_pc hw rfl
  obtain ⟨i, b, hi, ho, hlive, -⟩ := (h.backed hvm).2
  obtain ⟨j, b', hj, ho', hlive', -⟩ := (h.backed hwn).2
  obtain ⟨e, he, hb⟩ := hlive (h.timely hv)
  obtain ⟨e', he', hb'⟩ := hlive' (h.timely hw)
  rw [hkey, he'] at he
  cases he
  -- one entry has one token, and one token has one receipt
  have hij : i = j := h.fenced.tokens ho (hb.symm.trans hb' ▸ ho')
  exact hne (h.apart hvm hwn (by rw [hi, hj, hij]))

theorem step_cases (hstep : step cfg hashHex s a = some t) :
    s.now ≤ t.now ∧ t.store = s.store ∨
    t.now = s.now ∧ ((∃ token k fingerprint,
        t.store = (s.store.claim s.now token k fingerprint cfg.leaseTTL).1) ∨
      ∃ ref again entry, t.store = (s.store.settle ref again entry).1) := by
  cases a with
  | tick now =>
    simp only [step] at hstep
    split at hstep <;> cases hstep
    next hle => exact .inl ⟨hle, rfl⟩
  | arrive r =>
    cases hstep
    exact .inl ⟨le_rfl, rfl⟩
  | claim n token =>
    simp only [step] at hstep
    split at hstep <;> cases hstep
    next k fingerprint _ => exact .inr ⟨rfl, .inl ⟨token, k, fingerprint, rfl⟩⟩
  | start n =>
    simp only [step] at hstep
    split at hstep <;> cases hstep
    exact .inl ⟨le_rfl, rfl⟩
  | finish =>
    simp only [step] at hstep
    split at hstep <;> cases hstep
    · exact .inl ⟨le_rfl, rfl⟩
    · exact .inl ⟨le_rfl, rfl⟩
  | settle n =>
    simp only [step, settle] at hstep
    split at hstep <;> cases hstep
    · exact .inr ⟨rfl, .inr ⟨_, _, _, rfl⟩⟩
    · exact .inr ⟨rfl, .inr ⟨_, _, _, rfl⟩⟩

def Kept (c : String) (e : MemEntry) (s : System) : Prop :=
  s.now < e.doneExpiry → s.store.entries c = some e

theorem Kept.step {c : String} {rec : RecordedResponse} (h : s.Safe) (hkept : Kept c e s)
    (htoken : e.leaseToken = []) (hrec : e.recorded = some rec)
    (hstep : step cfg hashHex s a = some t) : Kept c e t := by
  intro hnow
  obtain ⟨hle, hstore⟩ | ⟨hnow', hstore⟩ := step_cases hstep
  · rw [hstore]
    exact hkept (lt_of_le_of_lt hle hnow)
  rw [hnow'] at hnow
  obtain ⟨token, k, fingerprint, hstore⟩ | ⟨ref, again, entry, hstore⟩ := hstore
  · have hreplay : e.replay s.now = some rec := by
      rw [MemEntry.replay, if_pos hnow, hrec]
    rw [hstore, MemStore.entries_claim (hkept hnow) hreplay]
  · rw [hstore, h.fenced.entries_settle (hkept hnow) htoken]

theorem Safe.not_running (h : s.Safe) (he : s.store.entries k.flat = some e)
    (htoken : e.leaseToken = []) (hv : s.requests[n]? = some (.running v)) : v.key ≠ k := by
  intro hkey
  obtain ⟨i, b, -, ho, hlive, -⟩ := (h.backed (invocation_of_pc hv rfl)).2
  obtain ⟨e', he', hb⟩ := hlive (h.timely hv)
  rw [hkey, he] at he'
  cases he'
  exact h.fenced.ne_nil ho (hb.symm.trans htoken)

theorem Safe.claim_answer (h : s.Safe) {token : Option Bytes} {rec : RecordedResponse}
    {fingerprint : Bytes} (hn : s.requests[n]? = some (.claiming k fingerprint))
    (he : s.store.entries k.flat = some e) (hrec : e.recorded = some rec)
    (hnow : s.now < e.doneExpiry) (hfp : e.fingerprint ≠ [])
    (hstep : step cfg hashHex s (.claim n token) = some t) :
    t.requests[n]? = some (.answered (if fingerprint = e.fingerprint then replayResponse rec
      else .failed (keyReusedError e.fingerprint fingerprint) none)) := by
  obtain ⟨hns, hkey, hne⟩ := h.claims hn
  have hreplay : e.replay s.now = some rec := by
    rw [MemEntry.replay, if_pos hnow, hrec]
  simp only [step, hn, some.injEq] at hstep
  subst hstep
  rw [requests_setPc, getElem?_set_of_some hn, if_pos rfl,
    MemStore.claim_of_live hns hkey he hreplay rfl]
  by_cases heq : fingerprint = e.fingerprint
  · have hsame : fpMismatch e.fingerprint fingerprint = false := by simp [fpMismatch, heq]
    rw [if_pos heq, hsame]
    rfl
  · have hdiffer : fpMismatch e.fingerprint fingerprint = true := by
      simp [fpMismatch, hfp, hne, Ne.symm heq]
    rw [if_neg heq, hdiffer]
    rfl

theorem Safe.recorded (h : s.Safe) {resp : RecordedResponse}
    (hn : s.requests[n]? = some (.recording v resp))
    (hstep : step cfg hashHex s (.settle n) = some t)
    (hserved : t.requests[n]? = some (.answered .served)) :
    t.now = s.now ∧ t.store.entries v.key.flat =
      some { recorded := some { resp with recordedAt := s.now }
             doneExpiry := s.now + cfg.doneTTL
             fingerprint := v.fingerprint } := by
  obtain ⟨i, b, hi, ho, -, hentry⟩ := (h.backed (invocation_of_pc hn rfl)).2
  obtain ⟨r, hr, heq⟩ := map_eq_some_iff.1 ho
  obtain ⟨hcomposed, htoken⟩ := Prod.mk.inj heq
  simp only [step, System.settle, hn, some.injEq] at hstep
  subst hstep
  rw [requests_setPc, getElem?_set_of_some hn, if_pos rfl] at hserved
  have hok : (s.store.record s.now s.now v.receipt resp cfg.doneTTL).2 = .ok () := by
    by_contra herr
    rw [if_neg herr] at hserved
    cases hserved
  rw [hi] at hok
  obtain ⟨e, -, hheld, hentries⟩ := MemStore.record_ok hr (Prod.ext rfl hok)
  obtain ⟨he, hb⟩ := MemStore.held_eq_some.1 hheld
  refine ⟨rfl, ?_⟩
  show (s.store.record s.now s.now v.receipt resp cfg.doneTTL).1.entries v.key.flat = _
  rw [hi, hentries, hcomposed, Function.update_self,
    (hentry e (hcomposed ▸ he) (hb.trans htoken)).2]

theorem Safe.replayed (h : s.Safe) {resp : RecordedResponse} {bs : List Action} {u : System}
    (hn : s.requests[n]? = some (.recording v resp))
    (hstep : step cfg hashHex s (.settle n) = some t)
    (hserved : t.requests[n]? = some (.answered .served))
    (hrun : exec (step cfg hashHex) t bs = some u)
    (horderly : Along (step cfg hashHex) t bs Orderly) (hnow : u.now < s.now + cfg.doneTTL) :
    u.Safe ∧ u.store.entries v.key.flat =
      some { recorded := some { resp with recordedAt := s.now }
             doneExpiry := s.now + cfg.doneTTL
             fingerprint := v.fingerprint } := by
  have hsettle : Orderly s (.settle n) := trivial
  obtain ⟨htnow, hentry⟩ := h.recorded hn hstep hserved
  have hkept := exec_invariant_along (fun u ↦ u.Safe ∧ Kept v.key.flat _ u)
    (fun x a y hx ha hstep ↦ ⟨safe_step hx.1 ha hstep, hx.2.step hx.1 rfl rfl hstep⟩) bs t u
    ⟨safe_step h hsettle hstep, fun _ ↦ hentry⟩ horderly hrun
  exact ⟨hkept.1, hkept.2 hnow⟩

/-- In every orderly run handlers of one key do not overlap; from a `Record` that succeeds to the
expiry of the response no handler of the key runs, and every claim is answered with the response or
with the error for another body; a receipt whose lease was replaced changes no entry. -/
theorem requests_safe (cfg : MiddlewareConfig) (hashHex : Bytes → Bytes) (as : List Action)
    (s : System) (hrun : exec (step cfg hashHex) {} as = some s)
    (horderly : Along (step cfg hashHex) {} as Orderly) :
    (∀ (m n : ℕ) (v w : Invocation), m ≠ n → s.requests[m]? = some (.running v) →
      s.requests[n]? = some (.running w) → v.key ≠ w.key) ∧
    (∀ (n : ℕ) (v : Invocation) (resp : RecordedResponse) (t : System) (bs : List Action)
        (u : System), s.requests[n]? = some (.recording v resp) →
      step cfg hashHex s (.settle n) = some t → t.requests[n]? = some (.answered .served) →
      exec (step cfg hashHex) t bs = some u → Along (step cfg hashHex) t bs Orderly →
      u.now < s.now + cfg.doneTTL →
      (∀ (m : ℕ) (w : Invocation), u.requests[m]? = some (.running w) → w.key ≠ v.key) ∧
      ∀ (m : ℕ) (fingerprint : Bytes) (token : Option Bytes) (u' : System),
        u.requests[m]? = some (.claiming v.key fingerprint) →
        step cfg hashHex u (.claim m token) = some u' →
        u'.requests[m]? = some (.answered (
          if fingerprint = v.fingerprint then replayResponse { resp with recordedAt := s.now }
          else .failed (keyReusedError v.fingerprint fingerprint) none))) ∧
    ∀ (i j : ℕ) (r r' : MemReceipt), i < j → s.store.receipts[i]? = some r →
      s.store.receipts[j]? = some r' → r.composed = r'.composed →
      (∀ now stamp resp doneTTL,
        (s.store.record now stamp (.lease i) resp doneTTL).1.entries = s.store.entries) ∧
      (s.store.release (.lease i)).1.entries = s.store.entries := by
  have h := safe_run hrun horderly
  refine ⟨fun m n v w hne hm hn ↦ h.running_ne hm hn hne, ?_, ?_⟩
  · intro n v resp t bs u hn hstep hserved hbs hbs' hnow
    obtain ⟨hu, hentry⟩ := h.replayed hn hstep hserved hbs hbs' hnow
    have hfp := (h.backed (invocation_of_pc hn rfl)).1
    refine ⟨fun m w hm ↦ hu.not_running hentry rfl hm, ?_⟩
    intro m fingerprint token u' hm hclaim
    exact hu.claim_answer hm hentry rfl hnow hfp hclaim
  · intro i j r r' hij hi hj hc
    exact ⟨fun now stamp resp doneTTL ↦ h.fenced.entries_settle_replaced hij hi hj hc,
      h.fenced.entries_settle_replaced hij hi hj hc⟩

def orderRequest : Request :=
  ⟨"POST", "/orders", "k-1", some ⟨.user, "u-1", "t-1"⟩, some (asciiBytes "\x7b\x7d")⟩

def orderServed : List Action :=
  [.arrive orderRequest, .claim 0 (some [1]), .start 0, .tick 5, .finish 0 [.write [0x6f] 1] false]

def orderInvocation : Invocation :=
  ⟨deriveKey "t-1" "u-1" "POST" "/orders" "k-1", computeFingerprint id (asciiBytes "\x7b\x7d"),
    .lease 0, defaultLeaseTTL⟩

def stateAfter (as : List Action) : System := (exec (step {} id) {} as).getD {}

theorem exec_stateAfter {as : List Action} (h : (exec (step {} id) {} as).isSome) :
    exec (step {} id) {} as = some (stateAfter as) := by
  obtain ⟨s, hs⟩ := isSome_iff_exists.1 h
  rw [stateAfter, hs]
  rfl

theorem step_stateAfter (as : List Action) (a : Action)
    (h : (exec (step {} id) {} (as ++ [a])).isSome) :
    step {} id (stateAfter as) a = some (stateAfter (as ++ [a])) := by
  obtain ⟨s, hs, ha⟩ := exec_append.1 (exec_stateAfter h)
  obtain ⟨t, ht, heq⟩ := exec_cons.1 ha
  rw [stateAfter, hs, ← heq]
  exact ht

/-- The same order again, once the response is recorded. -/
theorem requests_safe_order :
    (stateAfter (orderServed ++ [.settle 0] ++ [.arrive orderRequest] ++
        [.claim 1 (some [2])])).requests[1]? =
      some (.answered (replayResponse ⟨200, [0x6f], [], 5⟩)) := by
  have hrun : exec (step {} id) {} orderServed = some (stateAfter orderServed) :=
    exec_stateAfter (by decide +kernel)
  have hsafe := requests_safe {} id orderServed _ hrun (by decide +kernel)
  have hrecording : (stateAfter orderServed).requests[0]? =
      some (.recording orderInvocation ⟨200, [0x6f], [], 5⟩) := by decide +kernel
  have hrecord := step_stateAfter orderServed (.settle 0) (by decide +kernel)
  have hwindow := hsafe.2.1 0 orderInvocation _ _ [.arrive orderRequest] _ hrecording hrecord
    (by decide +kernel) (exec_cons.2 ⟨_, step_stateAfter _ _ (by decide +kernel), rfl⟩)
    (by decide +kernel) (by decide +kernel)
  exact hwindow.2 1 orderInvocation.fingerprint (some [2]) _ (by decide +kernel)
    (step_stateAfter _ _ (by decide +kernel))

end System

end GoCell.HttpIdempotency
