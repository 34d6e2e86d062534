import Mathlib.Data.List.Basic
import Mathlib.Data.List.Induction

namespace GoCell.Foundation

open List Option

variable {σ α ω : Type*}

/-- Runs a schedule of actions; `none` when one of them is not enabled where it is taken. -/
def exec (step : σ → α → Option σ) : σ → List α → Option σ
  | s, [] => some s
  | s, a :: as => (step s a).bind fun t ↦ exec step t as

@[simp] theorem exec_nil (step : σ → α → Option σ) (s : σ) : exec step s [] = some s := rfl

variable {step : σ → α → Option σ} {as : List α}

theorem exec_cons {s t : σ} {a : α} :
    exec step s (a :: as) = some t ↔ ∃ u, step s a = some u ∧ exec step u as = some t := by
  simp only [exec, bind_eq_some_iff]

theorem exec_append {s t : σ} {as bs : List α} :
    exec step s (as ++ bs) = some t ↔ ∃ u, exec step s as = some u ∧ exec step u bs = some t := by
  induction as generalizing s with
  | nil => simp
  | cons a as ih =>
    simp only [cons_append, exec_cons, ih]
    constructor
    · rintro ⟨v, hv, u, hu, ht⟩
      exact ⟨u, ⟨v, hv, hu⟩, ht⟩
    · rintro ⟨u, ⟨v, hv, hu⟩, ht⟩
      exact ⟨v, hv, u, hu, ht⟩

def Along (step : σ → α → Option σ) (s : σ) (as : List α) (C : σ → α → Prop) : Prop :=
  ∀ pre a post u, as = pre ++ a :: post → exec step s pre = some u → C u a

variable {C : σ → α → Prop} {s : σ}

theorem along_of_mem (h : ∀ a ∈ as, ∀ u, C u a) : Along step s as C := by
  rintro pre a post u rfl -
  exact h a (mem_append_right _ mem_cons_self) u

theorem Along.head {a : α} (h : Along step s (a :: as) C) : C s a := h [] a as s rfl rfl

theorem Along.of_append {as bs : List α} (h : Along step s (as ++ bs) C) : Along step s as C :=
  fun pre a post u heq hu ↦ h pre a (post ++ bs) u (by rw [heq]; simp) hu

theorem Along.tail {s u : σ} {a : α}
    (h : Along step s (a :: as) C) (hu : step s a = some u) : Along step u as C :=
  fun pre b post v heq hv ↦ h (a :: pre) b post v (by rw [heq]; rfl) (exec_cons.2 ⟨u, hu, hv⟩)

theorem along_cons {a : α} :
    Along step s (a :: as) C ↔ C s a ∧ ∀ u ∈ step s a, Along step u as C := by
  constructor
  · intro h
    exact ⟨h.head, fun u hu ↦ h.tail hu⟩
  · rintro ⟨ha, has⟩ pre b post u heq hu
    cases pre with
    | nil =>
      obtain ⟨rfl, -⟩ := cons.inj heq
      cases hu
      exact ha
    | cons c pre =>
      obtain ⟨rfl, hrest⟩ := cons.inj heq
      obtain ⟨v, hv, hu⟩ := exec_cons.1 hu
      exact has v hv pre b post u hrest hu

instance Along.decidable {step : σ → α → Option σ} {C : σ → α → Prop} [∀ s a, Decidable (C s a)] :
    ∀ (s : σ) (as : List α), Decidable (Along step s as C)
  | _, [] => .isTrue (along_of_mem fun _ h ↦ absurd h List.not_mem_nil)
  | _, _ :: as =>
    have : ∀ u, Decidable (Along step u as C) := fun u ↦ Along.decidable u as
    decidable_of_iff' _ along_cons

theorem exec_invariant_along (P : σ → Prop)
    (preserved : ∀ s a t, P s → C s a → step s a = some t → P t) :
    ∀ (as : List α) (s t : σ), P s → Along step s as C → exec step s as = some t → P t := by
  intro as
  induction as with
  | nil =>
    intro s t hs _ h
    cases h
    exact hs
  | cons a as ih =>
    intro s t hs hC h
    obtain ⟨u, hu, ht⟩ := exec_cons.1 h
    exact ih u t (preserved s a u hs hC.head hu) (hC.tail hu) ht

theorem exec_invariant (P : σ → Prop)
    (preserved : ∀ s a t, P s → step s a = some t → P t) (as : List α) (s t : σ) (hs : P s)
    (h : exec step s as = some t) : P t :=
  exec_invariant_along P (C := fun _ _ ↦ True) (fun s a t hs _ ↦ preserved s a t hs) as s t hs
    (fun _ _ _ _ _ _ ↦ trivial) h

def answers (call : σ → α → σ × ω) : σ → List α → List ω
  | _, [] => []
  | s, a :: as => (call s a).2 :: answers call (call s a).1 as

def after (call : σ → α → σ × ω) (s : σ) (as : List α) : σ :=
  as.foldl (fun t a ↦ (call t a).1) s

theorem after_invariant_of_mem (call : σ → α → σ × ω) (P : σ → Prop) (as : List α) (s : σ)
    (preserved : ∀ s, ∀ a ∈ as, P s → P (call s a).1) (hs : P s) : P (after call s as) := by
  induction as generalizing s with
  | nil => exact hs
  | cons a as ih =>
    exact ih _ (fun t b hb ↦ preserved t b (mem_cons_of_mem a hb))
      (preserved s a mem_cons_self hs)

variable {call : σ → α → σ × ω}

theorem after_invariant (P : σ → Prop)
    (preserved : ∀ s a, P s → P (call s a).1) (as : List α) (s : σ) (hs : P s) :
    P (after call s as) :=
  after_invariant_of_mem call P as s (fun s a _ ↦ preserved s a) hs

theorem forall_prefix_nil :
    ∀ pre a, pre ++ [a] <+: [] → C (after call s pre) a :=
  fun pre a h ↦ absurd (prefix_nil.1 h) (append_ne_nil_of_right_ne_nil pre (cons_ne_nil a []))

theorem forall_prefix_cons {b : α}
    (hb : C s b) (has : ∀ pre a, pre ++ [a] <+: as → C (after call (call s b).1 pre) a) :
    ∀ pre a, pre ++ [a] <+: b :: as → C (after call s pre) a := by
  intro pre a h
  cases pre with
  | nil =>
    obtain ⟨rfl, -⟩ := cons_prefix_cons.1 h
    exact hb
  | cons c pre =>
    obtain ⟨rfl, hrest⟩ := cons_prefix_cons.1 h
    exact has pre a hrest

/-- Where a call keeps `P` exactly under a condition, a run keeps it exactly when its calls meet
it. -/
theorem after_forall_iff {P : σ → Prop} (as : List α)
    (step : ∀ pre a, pre ++ [a] <+: as → P (after call s pre) →
      (P (call (after call s pre) a).1 ↔ C (after call s pre) a)) (hs : P s) :
    (∀ pre, pre <+: as → P (after call s pre)) ↔
      ∀ pre a, pre ++ [a] <+: as → C (after call s pre) a := by
  have hnext : ∀ pre a, after call s (pre ++ [a]) = (call (after call s pre) a).1 := by
    intro pre a
    rw [after, foldl_append]
    rfl
  constructor
  · intro h pre a hpre
    have hlast := h _ hpre
    rw [hnext] at hlast
    exact (step pre a hpre (h pre ((prefix_append _ _).trans hpre))).1 hlast
  · intro h pre hpre
    induction pre using reverseRecOn with
    | nil => exact hs
    | append_singleton pre a ih =>
      rw [hnext]
      exact (step pre a hpre (ih ((prefix_append _ _).trans hpre))).2 (h pre a hpre)

variable {call₁ : σ → α → σ × ω}

theorem after_related {τ ω' : Type*} {call₂ : τ → α → τ × ω'} {R : List α → σ → τ → Prop}
    (next : ∀ a as s t, R (a :: as) s t → R as (call₁ s a).1 (call₂ t a).1) (as : List α)
    {bs : List α} {t : τ} (h : R (as ++ bs) s t) : R bs (after call₁ s as) (after call₂ t as) := by
  induction as generalizing s t with
  | nil => exact h
  | cons a as ih => exact ih (next a (as ++ bs) s t h)

theorem answers_eq_of_simulation {τ : Type*} {call₂ : τ → α → τ × ω} {R : List α → σ → τ → Prop}
    (step : ∀ a as s t, R (a :: as) s t →
      (call₁ s a).2 = (call₂ t a).2 ∧ R as (call₁ s a).1 (call₂ t a).1) {t : τ} (h : R as s t) :
    answers call₁ s as = answers call₂ t as ∧ R [] (after call₁ s as) (after call₂ t as) := by
  induction as generalizing s t with
  | nil => exact ⟨rfl, h⟩
  | cons a as ih =>
    obtain ⟨hanswer, hnext⟩ := step a as s t h
    obtain ⟨hrest, hend⟩ := ih hnext
    rw [answers, answers, hanswer, hrest]
    exact ⟨rfl, hend⟩

/-- Machines that are called in lockstep answer alike exactly when each call agrees by itself. -/
theorem answers_map_eq_iff_along {τ ω' β : Type*} {call₂ : τ → α → τ × ω'}
    {f : ω → β} {g : ω' → β} {R : List α → σ → τ → Prop} {Agree : σ → τ → α → Prop}
    (next : ∀ a as s t, R (a :: as) s t → Agree s t a → R as (call₁ s a).1 (call₂ t a).1)
    (agree : ∀ a as s t, R (a :: as) s t → (f (call₁ s a).2 = g (call₂ t a).2 ↔ Agree s t a))
    {t : τ} (h : R as s t) :
    (answers call₁ s as).map f = (answers call₂ t as).map g ↔
      ∀ pre a post, as = pre ++ a :: post → Agree (after call₁ s pre) (after call₂ t pre) a := by
  induction as generalizing s t with
  | nil => simp [answers]
  | cons b as ih =>
    rw [answers, answers, map_cons, map_cons, cons.injEq, agree b as s t h]
    constructor
    · rintro ⟨hb, has⟩ pre a post heq
      cases pre with
      | nil =>
        obtain ⟨rfl, -⟩ := cons.inj heq
        exact hb
      | cons c pre =>
        obtain ⟨rfl, hrest⟩ := cons.inj heq
        exact (ih (next _ as s t h hb)).1 has pre a post hrest
    · intro hall
      have hb : Agree s t b := hall [] b as rfl
      refine ⟨hb, (ih (next b as s t h hb)).2 fun pre a post heq ↦ ?_⟩
      exact hall (b :: pre) a post (by rw [heq]; rfl)

theorem answers_map_eq_iff {τ ω' β : Type*} {call₂ : τ → α → τ × ω'}
    {f : ω → β} {g : ω' → β} {R : List α → σ → τ → Prop} {Agree : σ → α → Prop}
    (next : ∀ a as s t, R (a :: as) s t → R as (call₁ s a).1 (call₂ t a).1)
    (agree : ∀ a as s t, R (a :: as) s t → (f (call₁ s a).2 = g (call₂ t a).2 ↔ Agree s a))
    {t : τ} (h : R as s t) :
    (answers call₁ s as).map f = (answers call₂ t as).map g ↔
      ∀ pre a post, as = pre ++ a :: post → Agree (after call₁ s pre) a :=
  answers_map_eq_iff_along (fun a as s t hR _ ↦ next a as s t hR) agree h

end GoCell.Foundation
