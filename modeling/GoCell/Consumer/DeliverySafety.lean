import GoCell.Consumer.ConsumerBase

namespace GoCell.Consumer

open Foundation Kernel Idempotency List Option

variable {ρ : Type}

def HandleResult.isFinal (r : HandleResult) : Bool :=
  r.disposition = .ack || r.disposition = .reject

namespace Event

def isInvoked : Event ρ → Bool
  | .invoked => true
  | _ => false

def result? : Event ρ → Option HandleResult
  | .handled r => some r
  | _ => none

def isFinal (x : Event ρ) : Bool := x.result?.any HandleResult.isFinal

def isDone : Event ρ → Bool
  | .claimed _ _ _ (.ok (.done, _)) => true
  | _ => false

def isSkip : Event ρ → Bool
  | .claimed _ _ _ (.ok (.done, _)) | .claimed _ _ _ (.ok (.busy, _)) => true
  | _ => false

def isLost : Event ρ → Bool
  | .extended _ .leaseExpired => true
  | _ => false

end Event

variable (log : List (Event ρ))

def results : List HandleResult := log.filterMap Event.result?

def invocations : ℕ := log.countP Event.isInvoked

@[simp] theorem results_append (e : Event ρ) :
    results (log ++ [e]) = results log ++ e.result?.toList := by
  cases e <;> simp [results, Event.result?]

@[simp] theorem invocations_append (e : Event ρ) :
    invocations (log ++ [e]) = invocations log + if e.isInvoked then 1 else 0 := by
  simp [invocations]

theorem ConsumerBase.retryCount_pos (cb : ConsumerBase) : 0 < cb.config.retryCount := by
  obtain ⟨c, hc⟩ := cb.built
  rw [hc]
  simp only [ConsumerBaseConfig.setDefaults, orElse]
  split
  next => decide
  next hpos => exact Int.not_le.1 hpos

/-- The handler has returned `n` times, each time with a result that is retried, and runs once more
if `running`. -/
structure Attempts (log : List (Event ρ)) (n : ℕ) (running : Bool) : Prop where
  invoked : invocations log = n + running.toNat
  returned : (results log).length = n
  retried : ∀ r ∈ results log, r.isFinal = false
  acquired : ∀ x ∈ log, x.isSkip = false

structure Explained (cb : ConsumerBase) (log : List (Event ρ)) (out : DeliveryOutcome) : Prop where
  ack : out.disposition = .ack → ∃ r, (results log).getLast? = some r ∧ r.disposition = .ack
  reject : out.disposition = .reject → (∃ r ∈ results log, r.disposition = .reject) ∨
    ((results log).length = cb.config.retryCount ∧ ∀ r ∈ results log, r.disposition ≠ .ack)

def MainInv (cb : ConsumerBase) (log : List (Event ρ)) (renewal : RenewalPc) : MainPc ρ → Prop
  | .claiming _ | .claimFailed _ _ | .claimBackoff _ => Attempts log 0 false ∧ renewal = .off
  | .busyBackoff => renewal = .off
  | .invoking n => Attempts log n false ∧ (n : ℤ) < cb.config.retryCount
  | .handling n => Attempts log n true ∧ (n : ℤ) < cb.config.retryCount
  | .waitBackoff n | .backoff n =>
    Attempts log (n + 1) false ∧ ((n + 1 : ℕ) : ℤ) < cb.config.retryCount
  | .exhausted _ => ∃ n : ℕ, Attempts log n false ∧ (n : ℤ) = cb.config.retryCount
  | .looped out | .join out => Explained cb log out
  | .returned out _ => renewal ≠ .ticking ∧ ((out.disposition = .ack ∧ ∃ x ∈ log, x.isDone = true) ∨
      (Explained cb log out ∧ (out.disposition = .ack → ∀ x ∈ log, x.isLost = false)))

/-- The handler is not invoked after a skipped claim, not too often, and not after a final
result. -/
structure LogInv (cb : ConsumerBase) (log : List (Event ρ)) : Prop where
  skipped : (∃ x ∈ log, x.isSkip = true) → invocations log = 0
  bounded : (invocations log : ℤ) ≤ cb.config.retryCount
  ordered : log.Pairwise fun x y ↦ x.isFinal = true → y.isInvoked = false

structure RenewalInv (log : List (Event ρ)) (renewal : RenewalPc) (leaseLost : Bool) : Prop where
  unlost : renewal = .off ∨ renewal = .ticking → ∀ x ∈ log, x.isLost = false
  latch : (∃ x ∈ log, x.isLost = true) → renewal = .lost ∨ leaseLost = true

structure Inv (cb : ConsumerBase) (s : Delivery ρ) : Prop where
  log : LogInv cb s.log
  main : MainInv cb s.log s.renewal s.main
  renewal : RenewalInv s.log s.renewal s.leaseLost

section

variable {cb : ConsumerBase} {log : List (Event ρ)} {e : Event ρ} {n : ℕ} {running : Bool}

theorem Explained.requeue (cb : ConsumerBase) (log : List (Event ρ)) {out : DeliveryOutcome}
    (hout : out.disposition = .requeue) : Explained cb log out where
  ack h := by
    rw [hout] at h
    cases h
  reject h := by
    rw [hout] at h
    cases h

theorem Attempts.append (h : Attempts log n running) (hinvoked : e.isInvoked = false)
    (hresult : e.result? = none) (hskip : e.isSkip = false) :
    Attempts (log ++ [e]) n running where
  invoked := by simpa [hinvoked] using h.invoked
  returned := by simpa [hresult] using h.returned
  retried := by simpa [hresult] using h.retried
  acquired := forall_mem_append.2 ⟨h.acquired, forall_mem_singleton.2 hskip⟩

theorem Attempts.invoke (h : Attempts log n false) : Attempts (log ++ [.invoked]) n true where
  invoked := by simpa [Event.isInvoked] using h.invoked
  returned := by simpa [Event.result?] using h.returned
  retried := by simpa [Event.result?] using h.retried
  acquired := forall_mem_append.2 ⟨h.acquired, forall_mem_singleton.2 rfl⟩

theorem Attempts.handle (h : Attempts log n true) {r : HandleResult} (hr : r.isFinal = false) :
    Attempts (log ++ [.handled r]) (n + 1) false where
  invoked := by simpa [Event.isInvoked] using h.invoked
  returned := by simpa [Event.result?] using h.returned
  retried := by
    rw [results_append]
    exact forall_mem_append.2 ⟨h.retried, forall_mem_singleton.2 hr⟩
  acquired := forall_mem_append.2 ⟨h.acquired, forall_mem_singleton.2 rfl⟩

theorem Explained.of_result (cb : ConsumerBase) (log : List (Event ρ)) (r : HandleResult) :
    Explained cb (log ++ [.handled r]) (deliveryFrom r) where
  ack h := ⟨r, by simp [Event.result?], h⟩
  reject h := .inl ⟨r, by simp [Event.result?], h⟩

theorem LogInv.append (h : LogInv cb log) (hinvoked : e.isInvoked = false)
    (hskip : e.isSkip = true → invocations log = 0) : LogInv cb (log ++ [e]) where
  skipped := by
    rintro ⟨x, hx, hxskip⟩
    rw [invocations_append, hinvoked]
    rcases mem_append.1 hx with hx | hx
    · exact h.skipped ⟨x, hx, hxskip⟩
    · rw [mem_singleton.1 hx] at hxskip
      exact hskip hxskip
  bounded := by simpa [hinvoked] using h.bounded
  ordered := by
    rw [pairwise_append]
    refine ⟨h.ordered, pairwise_singleton _ _, fun x _ y hy _ ↦ ?_⟩
    rw [mem_singleton.1 hy]
    exact hinvoked

theorem LogInv.invoke (h : LogInv cb log) (hattempts : Attempts log n false)
    (hn : (n : ℤ) < cb.config.retryCount) : LogInv cb (log ++ [.invoked]) where
  skipped := by
    rintro ⟨x, hx, hxskip⟩
    rw [hattempts.invoke.acquired x hx] at hxskip
    cases hxskip
  bounded := by
    have hinvoked := hattempts.invoke.invoked
    rw [Bool.toNat_true] at hinvoked
    omega
  ordered := by
    rw [pairwise_append]
    refine ⟨h.ordered, pairwise_singleton _ _, fun x hx y _ hfinal ↦ ?_⟩
    -- every result so far was one that is retried
    obtain ⟨r, hr, hrfinal⟩ := (any_eq_true _ _).1 hfinal
    rw [hattempts.retried r (mem_filterMap.2 ⟨x, hx, hr⟩)] at hrfinal
    cases hrfinal

theorem RenewalInv.append {renewal : RenewalPc} {leaseLost : Bool}
    (h : RenewalInv log renewal leaseLost) (hlost : e.isLost = false) :
    RenewalInv (log ++ [e]) renewal leaseLost where
  unlost hrenewal :=
    forall_mem_append.2 ⟨h.unlost hrenewal, forall_mem_singleton.2 hlost⟩
  latch := by
    rintro ⟨x, hx, hxlost⟩
    rcases mem_append.1 hx with hx | hx
    · exact h.latch ⟨x, hx, hxlost⟩
    · rw [mem_singleton.1 hx, hlost] at hxlost
      cases hxlost

theorem MainInv.renewal {renewal renewal' : RenewalPc} {pc : MainPc ρ}
    (h : MainInv cb log renewal pc) (hrunning : renewal ≠ .off) (hstopped : renewal' ≠ .ticking) :
    MainInv cb log renewal' pc := by
  cases pc with
  | claiming n | claimFailed n err | claimBackoff n => exact absurd h.2 hrunning
  | busyBackoff => exact absurd h hrunning
  | invoking n | handling n | waitBackoff n | backoff n | exhausted last | looped out | join out =>
    exact h
  | returned => exact ⟨hstopped, h.2⟩

theorem MainInv.extended {pc : MainPc ρ} (h : MainInv cb log .ticking pc) (ttl : Duration)
    (reply : ExtendReply) : MainInv cb (log ++ [.extended ttl reply]) .ticking pc := by
  cases pc with
  | claiming n | claimFailed n err | claimBackoff n => exact absurd h.2 (by decide)
  | busyBackoff => exact absurd (show RenewalPc.ticking = .off from h) (by decide)
  | invoking n | handling n | waitBackoff n | backoff n => exact ⟨h.1.append rfl rfl rfl, h.2⟩
  | exhausted last =>
    obtain ⟨n, hattempts, hn⟩ := h
    exact ⟨n, hattempts.append rfl rfl rfl, hn⟩
  | looped out | join out =>
    have hsame : results (log ++ [.extended ttl reply]) = results log := by simp [Event.result?]
    exact ⟨by rw [hsame]; exact h.ack, by rw [hsame]; exact h.reject⟩
  | returned => exact absurd rfl h.1

end

namespace Inv

variable {cb : ConsumerBase} {s t : Delivery ρ}

theorem goto (h : Inv cb s) {pc : MainPc ρ} (hmain : MainInv cb s.log s.renewal pc) :
    Inv cb (s.goto pc) :=
  ⟨h.log, hmain, h.renewal⟩

theorem finish_requeue (h : Inv cb s) (hoff : s.renewal = .off) (err : Option Err) :
    Inv cb (s.finish (requeueResult err)) := by
  refine h.goto ⟨?_, .inr ⟨.requeue cb s.log rfl, fun hack ↦ by cases hack⟩⟩
  rw [hoff]
  decide

theorem loopReturn (hlog : LogInv cb s.log) (hrenewal : RenewalInv s.log s.renewal s.leaseLost)
    {result : DeliveryOutcome} (hresult : Explained cb s.log result) :
    Inv cb (s.loopReturn result) := by
  unfold Delivery.loopReturn
  split
  next hoff =>
    have hstopped : s.renewal ≠ .ticking := by
      rw [hoff]
      decide
    exact ⟨hlog, ⟨hstopped, .inr ⟨hresult, fun _ ↦ hrenewal.unlost (.inl hoff)⟩⟩, hrenewal⟩
  next => exact ⟨hlog, hresult, hrenewal⟩

theorem runWithRenewal (hlog : LogInv cb s.log) (hrenewal : RenewalInv s.log s.renewal s.leaseLost)
    (hoff : s.renewal = .off) (hattempts : Attempts s.log 0 false) (receipt : Option ρ) :
    Inv cb (s.runWithRenewal cb receipt) := by
  have hmain : MainInv cb s.log s.renewal (.invoking 0) := ⟨hattempts, cb.retryCount_pos⟩
  unfold Delivery.runWithRenewal
  split
  · exact ⟨hlog, hmain, hrenewal⟩
  · exact ⟨hlog, ⟨hattempts, cb.retryCount_pos⟩,
      ⟨fun _ ↦ hrenewal.unlost (.inl hoff), fun hlost ↦ by
        rcases hrenewal.latch hlost with hpc | hlatch
        · rw [hoff] at hpc
          cases hpc
        · exact .inr hlatch⟩⟩

section

variable (h : Inv cb s)
include h

theorem claim {n : ℕ} (hmain : s.main = .claiming n) (key : String)
    (reply : Except Err (ClaimState × Option ρ)) :
    Inv cb ((s.record (.claimed key cb.config.leaseTTL cb.config.idempotencyTTL reply)).onClaim
      cb n reply) := by
  obtain ⟨hattempts, hoff⟩ : Attempts s.log 0 false ∧ s.renewal = .off := by
    have hinv := h.main
    rw [hmain] at hinv
    exact hinv
  have hlog := h.log.append
    (e := .claimed key cb.config.leaseTTL cb.config.idempotencyTTL reply) rfl
    fun _ ↦ hattempts.invoked
  have hrenewal := h.renewal.append
    (e := .claimed key cb.config.leaseTTL cb.config.idempotencyTTL reply) rfl
  cases reply with
  | error err =>
    have hfailed := hattempts.append
      (e := .claimed key cb.config.leaseTTL cb.config.idempotencyTTL (.error err)) rfl rfl rfl
    simp only [Delivery.onClaim]
    cases cb.config.claimPolicy with
    | failClosed => exact ⟨hlog, ⟨hfailed, hoff⟩, hrenewal⟩
    | failOpen => exact ⟨hlog, ⟨hfailed, cb.retryCount_pos⟩, hrenewal⟩
  | ok answer =>
    obtain ⟨state, receipt⟩ := answer
    cases state with
    | done =>
      have hstopped : s.renewal ≠ .ticking := by
        rw [hoff]
        decide
      exact ⟨hlog, ⟨hstopped, .inl ⟨rfl, _, mem_append_right _ mem_cons_self, rfl⟩⟩, hrenewal⟩
    | busy => exact ⟨hlog, hoff, hrenewal⟩
    | acquired =>
      exact runWithRenewal (s := s.record (.claimed key _ _ (.ok (.acquired, receipt)))) hlog
        hrenewal hoff (hattempts.append rfl rfl rfl) receipt
    | unknown =>
      exact runWithRenewal (s := s.record (.claimed key _ _ (.ok (.unknown, receipt)))) hlog
        hrenewal hoff (hattempts.append rfl rfl rfl) receipt

theorem invoke {n : ℕ} (hmain : s.main = .invoking n) :
    Inv cb ((s.record .invoked).goto (.handling n)) := by
  have hinv := h.main
  rw [hmain] at hinv
  obtain ⟨hattempts, hn⟩ := hinv
  exact ⟨h.log.invoke hattempts hn, ⟨hattempts.invoke, hn⟩, h.renewal.append rfl⟩

theorem handle {n : ℕ} (hmain : s.main = .handling n) (passthrough : Bool) (result : HandleResult) :
    Inv cb ((s.record (.handled result)).onResult cb passthrough n result) := by
  have hinv := h.main
  rw [hmain] at hinv
  obtain ⟨hattempts, hn⟩ := hinv
  have hlog : LogInv cb (s.log ++ [.handled result]) := h.log.append rfl fun hskip ↦ by cases hskip
  have hrenewal := h.renewal.append (e := .handled result) rfl
  unfold Delivery.onResult
  split
  next => exact loopReturn hlog hrenewal (.of_result cb s.log result)
  next hretried =>
    have hfinal : result.isFinal = false := by
      simp only [not_or] at hretried
      simp [HandleResult.isFinal, hretried.2.1, hretried.2.2]
    have hnext := hattempts.handle hfinal
    split
    next hmore =>
      refine ⟨hlog, ⟨hnext, ?_⟩, hrenewal⟩
      omega
    next hlast =>
      refine ⟨hlog, ⟨n + 1, hnext, ?_⟩, hrenewal⟩
      omega

theorem onExhausted {last : HandleResult} (hmain : s.main = .exhausted last) :
    Inv cb (s.onExhausted last) := by
  have hinv := h.main
  rw [hmain] at hinv
  obtain ⟨n, hattempts, hn⟩ := hinv
  unfold Delivery.onExhausted
  split
  · exact loopReturn h.log h.renewal (.requeue cb s.log rfl)
  · refine loopReturn h.log h.renewal ⟨?_, fun _ ↦ .inr ⟨?_, fun r hr ↦ ?_⟩⟩
    · intro hack
      cases hack
    · rw [hattempts.returned, hn]
    · have hretried := hattempts.retried r hr
      simp only [HandleResult.isFinal, Bool.or_eq_false_iff, decide_eq_false_iff_not] at hretried
      exact hretried.1

theorem onClaimFailed {n : ℕ} {err : Err} (hmain : s.main = .claimFailed n err) :
    Inv cb (s.onClaimFailed cb n err) := by
  have hinv := h.main
  rw [hmain] at hinv
  obtain ⟨hattempts, hoff⟩ := hinv
  unfold Delivery.onClaimFailed
  split
  · exact h.finish_requeue hoff _
  · split
    · exact h.goto ⟨hattempts, hoff⟩
    · exact h.finish_requeue hoff _

/-- A lost lease has been latched when the renewal has ended, so that no acknowledgement passes. -/
theorem fence {result : DeliveryOutcome} (hmain : s.main = .join result)
    (hexited : s.renewal = .exited) :
    Inv cb (s.goto (.returned (Delivery.fence s.leaseLost result) s.receipt)) := by
  have hinv := h.main
  rw [hmain] at hinv
  refine h.goto ⟨?_, .inr ?_⟩
  · rw [hexited]
    decide
  · unfold Delivery.fence
    split
    next => exact ⟨.requeue cb s.log rfl, fun hack ↦ by cases hack⟩
    next hpass =>
      refine ⟨hinv, fun hack x hx ↦ ?_⟩
      by_contra hlost
      rcases h.renewal.latch ⟨x, hx, by simpa using hlost⟩ with hpc | hlatch
      · rw [hexited] at hpc
        cases hpc
      · exact hpass ⟨hlatch, hack⟩

theorem proceed (hstep : s.proceed cb = some t) : Inv cb t := by
  unfold Delivery.proceed at hstep
  split at hstep
  next n err hmain =>
    cases hstep
    exact h.onClaimFailed hmain
  next n hmain =>
    have hinv := h.main
    rw [hmain] at hinv
    split at hstep
    · cases hstep
      exact loopReturn h.log h.renewal (.requeue cb s.log rfl)
    · cases hstep
      exact h.goto hinv
  next last hmain =>
    cases hstep
    exact h.onExhausted hmain
  next result hmain =>
    have hinv := h.main
    rw [hmain] at hinv
    cases hstep
    exact ⟨h.log, hinv, h.renewal⟩
  next result hmain =>
    split at hstep
    next hexited =>
      cases hstep
      exact h.fence hmain hexited
    next => cases hstep
  next => cases hstep

theorem timer (hstep : s.timer = some t) : Inv cb t := by
  have hinv := h.main
  unfold Delivery.timer at hstep
  split at hstep
  next n hmain =>
    rw [hmain] at hinv
    cases hstep
    exact h.goto hinv
  next hmain =>
    rw [hmain] at hinv
    cases hstep
    exact h.finish_requeue hinv none
  next n hmain =>
    rw [hmain] at hinv
    cases hstep
    exact h.goto hinv
  next => cases hstep

theorem aborted (hstep : s.aborted = some t) : Inv cb t := by
  have hinv := h.main
  unfold Delivery.aborted at hstep
  split at hstep
  next n hmain =>
    rw [hmain] at hinv
    obtain ⟨err, -, rfl⟩ := map_eq_some_iff.1 hstep
    exact h.finish_requeue hinv.2 _
  next hmain =>
    rw [hmain] at hinv
    obtain ⟨err, -, rfl⟩ := map_eq_some_iff.1 hstep
    exact h.finish_requeue hinv none
  next n hmain =>
    obtain ⟨err, -, rfl⟩ := map_eq_some_iff.1 hstep
    exact loopReturn h.log h.renewal (.requeue cb s.log rfl)
  next => cases hstep

theorem renewal_step {renewal : RenewalPc} {leaseLost : Bool}
    (hrunning : s.renewal ≠ .off) (hoff : renewal ≠ .off) (hstopped : renewal ≠ .ticking)
    (hlatch : (∃ x ∈ s.log, x.isLost = true) → renewal = .lost ∨ leaseLost = true)
    (renewCtx : Option Err) :
    Inv cb { s with renewal := renewal, leaseLost := leaseLost, renewCtx := renewCtx } :=
  ⟨h.log, h.main.renewal hrunning hstopped,
    ⟨fun hidle ↦ absurd hidle (not_or.2 ⟨hoff, hstopped⟩), hlatch⟩⟩

theorem renew (hstep : s.renew = some t) : Inv cb t := by
  unfold Delivery.renew at hstep
  split at hstep
  next hpc =>
    obtain ⟨err, -, rfl⟩ := map_eq_some_iff.1 hstep
    refine h.renewal_step (by rw [hpc]; decide) (by decide) (by decide) ?_ s.renewCtx
    rintro ⟨x, hx, hlost⟩
    rw [h.renewal.unlost (.inr hpc) x hx] at hlost
    cases hlost
  next hpc =>
    cases hstep
    exact h.renewal_step (by rw [hpc]; decide) (by decide) (by decide) (fun _ ↦ .inr rfl) s.renewCtx
  next hpc =>
    cases hstep
    refine h.renewal_step (by rw [hpc]; decide) (by decide) (by decide) (fun hlost ↦ .inr ?_) _
    rcases h.renewal.latch hlost with hpc' | hlatch
    · rw [hpc] at hpc'
      cases hpc'
    · exact hlatch
  next => cases hstep

theorem extend {reply : ExtendReply} (hstep : s.extend cb reply = some t) : Inv cb t := by
  unfold Delivery.extend at hstep
  split at hstep
  next hpc =>
    have hlog : LogInv cb (s.log ++ [.extended cb.config.leaseTTL reply]) :=
      h.log.append rfl fun hskip ↦ by cases hskip
    have hinv := h.main
    have hrenewal := h.renewal
    rw [hpc] at hinv hrenewal
    have hmain := hinv.extended cb.config.leaseTTL reply
    cases hstep
    cases reply with
    | leaseExpired =>
      have hlost : RenewalInv (s.log ++ [.extended cb.config.leaseTTL .leaseExpired]) .lost
          s.leaseLost := ⟨fun hidle ↦ absurd hidle (by decide), fun _ ↦ .inl rfl⟩
      have hmain' : MainInv cb _ .lost s.main := hmain.renewal (by decide) (by decide)
      exact ⟨hlog, hmain', hlost⟩
    | ok | failed =>
      rw [← hpc] at hmain hrenewal
      exact ⟨hlog, hmain, hrenewal.append rfl⟩
  next => cases hstep

theorem step {sub : Subscription} {entryID : String} {a : Action ρ}
    (hstep : s.step cb sub entryID a = some t) : Inv cb t := by
  cases a with
  | cancel err =>
    cases hstep
    exact ⟨h.log, h.main, h.renewal⟩
  | claim reply =>
    simp only [Delivery.step] at hstep
    split at hstep
    next n hmain =>
      cases hstep
      exact h.claim hmain _ reply
    next => cases hstep
  | invoke =>
    simp only [Delivery.step] at hstep
    split at hstep
    next n hmain =>
      cases hstep
      exact h.invoke hmain
    next => cases hstep
  | handle result =>
    simp only [Delivery.step] at hstep
    split at hstep
    next n hmain =>
      cases hstep
      exact h.handle hmain _ result
    next => cases hstep
  | proceed => exact h.proceed hstep
  | timer => exact h.timer hstep
  | aborted => exact h.aborted hstep
  | extend reply => exact h.extend hstep
  | renew => exact h.renew hstep

end

theorem start (cb : ConsumerBase) : Inv cb ({} : Delivery ρ) where
  log :=
    { skipped := fun ⟨_, hx, _⟩ ↦ absurd hx not_mem_nil
      bounded := Int.le_of_lt cb.retryCount_pos
      ordered := List.Pairwise.nil }
  main := ⟨⟨rfl, rfl, fun _ h ↦ absurd h not_mem_nil, fun _ h ↦ absurd h not_mem_nil⟩, rfl⟩
  renewal :=
    { unlost := fun _ _ h ↦ absurd h not_mem_nil
      latch := fun ⟨_, hx, _⟩ ↦ absurd hx not_mem_nil }

end Inv

structure Safe (cb : ConsumerBase) (s : Delivery ρ) : Prop where
  skipped : (∃ x ∈ s.log, x.isSkip = true) → ∀ x ∈ s.log, x.isInvoked = false
  bounded : (invocations s.log : ℤ) ≤ cb.config.retryCount
  ordered : s.log.Pairwise fun x y ↦ x.isFinal = true → y.isInvoked = false
  ack : ∀ out settlement, s.main = .returned out settlement → out.disposition = .ack →
    (∃ x ∈ s.log, x.isDone = true) ∨
      ((∃ r, (results s.log).getLast? = some r ∧ r.disposition = .ack) ∧
        ∀ x ∈ s.log, x.isLost = false)
  reject : ∀ out settlement, s.main = .returned out settlement → out.disposition = .reject →
    (∃ r ∈ results s.log, r.disposition = .reject) ∨
      ((results s.log).length = cb.config.retryCount ∧ ∀ r ∈ results s.log, r.disposition ≠ .ack)

theorem Inv.safe {cb : ConsumerBase} {s : Delivery ρ} (h : Inv cb s) : Safe cb s where
  skipped hskip := by
    have hnone := h.log.skipped hskip
    rw [invocations, countP_eq_zero] at hnone
    intro x hx
    simpa using hnone x hx
  bounded := h.log.bounded
  ordered := h.log.ordered
  ack out settlement hmain hack := by
    have hinv := h.main
    rw [hmain] at hinv
    rcases hinv.2 with ⟨-, hdone⟩ | ⟨hexplained, hunlost⟩
    · exact .inl hdone
    · exact .inr ⟨hexplained.ack hack, hunlost hack⟩
  reject out settlement hmain hreject := by
    have hinv := h.main
    rw [hmain] at hinv
    rcases hinv.2 with ⟨hack, -⟩ | ⟨hexplained, -⟩
    · rw [hack] at hreject
      cases hreject
    · exact hexplained.reject hreject

/-- Every run of a delivery through `Wrap`, with any answers of the claimer, any handler results,
any renewals and any cancellation, is safe. -/
theorem deliveries_safe (cb : ConsumerBase) (sub : Subscription) (entryID : String)
    {actions : List (Action ρ)} {s : Delivery ρ}
    (h : exec (Delivery.step cb sub entryID) {} actions = some s) : Safe cb s :=
  (exec_invariant (Inv cb) (fun _ _ _ hinv hstep ↦ hinv.step hstep) actions {} s (.start cb) h).safe

/-- The first claim fails, the second one acquires the lease, and the handler acknowledges on its
second attempt, after a renewal was told that the lease is lost. -/
def fencedDelivery : List (Action ℕ) :=
  [.claim (.error errNoClaimLease), .proceed, .timer, .claim (.ok (.acquired, some 7)), .invoke,
    .extend .ok, .handle { disposition := .requeue }, .proceed, .timer, .invoke,
    .extend .leaseExpired, .handle { disposition := .ack }, .renew, .proceed, .renew, .proceed]

theorem deliveries_safe_fenced :
    ∃ s : Delivery ℕ, exec (Delivery.step (newConsumerBase {}) { consumerGroup := "billing" } "e1")
        {} fencedDelivery = some s ∧
      s.main = .returned { disposition := .requeue, err := some errLeaseExpired } (some 7) ∧
      Safe (newConsumerBase {}) s := by
  have hrun : ∃ s : Delivery ℕ, exec (Delivery.step (newConsumerBase {})
      { consumerGroup := "billing" } "e1") {} fencedDelivery = some s ∧
      s.main = .returned { disposition := .requeue, err := some errLeaseExpired } (some 7) :=
    ⟨_, rfl, rfl⟩
  obtain ⟨s, hs, hmain⟩ := hrun
  exact ⟨s, hs, hmain, deliveries_safe _ _ _ hs⟩

end GoCell.Consumer
