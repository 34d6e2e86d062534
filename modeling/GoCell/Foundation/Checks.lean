import Mathlib.Tactic.Common

universe u

namespace GoCell.Foundation

open List Option

variable {ε : Type*} {α β : Type u}

theorem bind_ok {x : Except ε α} {f : α → Except ε β} {b : β} :
    (x >>= f) = .ok b ↔ ∃ a, x = .ok a ∧ f a = .ok b := by
  cases x with
  | error | ok => simp [bind, Except.bind]

theorem map_ok {x : Except ε α} {f : α → β} {b : β} :
    x.map f = .ok b ↔ ∃ a, x = .ok a ∧ f a = b := by
  cases x with
  | error | ok => simp [Except.map]

def require (ok : Bool) (e : ε) : Except ε Unit := if ok then .ok () else .error e

@[simp] theorem require_ok {ok : Bool} {e : ε} {u : Unit} :
    require ok e = .ok u ↔ ok = true := by
  cases ok <;> simp [require]

theorem check_ok {ε β : Type} {x : Except ε Unit} {f : Unit → Except ε β} {b : β} :
    (x >>= f) = .ok b ↔ x = .ok () ∧ f () = .ok b := by
  rw [bind_ok]
  exact ⟨fun ⟨(), hx, hf⟩ ↦ ⟨hx, hf⟩, fun ⟨hx, hf⟩ ↦ ⟨(), hx, hf⟩⟩

theorem mapM_eq_pure {m : Type → Type} [Monad m] [LawfulMonad m] {α β : Type} {f : α → m β}
    {g : α → β} {l : List α} (h : ∀ a ∈ l, f a = pure (g a)) : l.mapM f = pure (l.map g) := by
  induction l with
  | nil => rfl
  | cons a l ih =>
    rw [mapM_cons, h a mem_cons_self, ih fun b hb ↦ h b (mem_cons_of_mem a hb), pure_bind,
      pure_bind, map_cons]

theorem mem_of_mapM_some {α β : Type} {f : α → Option β} {l : List α} {bs : List β} {a : α}
    (h : l.mapM f = some bs) (ha : a ∈ l) : ∃ b ∈ bs, f a = some b := by
  induction l generalizing bs with
  | nil => exact absurd ha not_mem_nil
  | cons x l ih =>
    rw [mapM_cons] at h
    obtain ⟨b, hb, h⟩ := bind_eq_some_iff.1 h
    obtain ⟨bs', hbs, h⟩ := bind_eq_some_iff.1 h
    cases h
    obtain rfl | ha := mem_cons.1 ha
    · exact ⟨b, mem_cons_self, hb⟩
    · obtain ⟨c, hc, hfc⟩ := ih hbs ha
      exact ⟨c, mem_cons_of_mem b hc, hfc⟩

theorem map_inj_of_mem {α β : Type*} {f : α → β} {l l' : List α}
    (hf : ∀ a ∈ l, ∀ b ∈ l', f a = f b → a = b) (h : l.map f = l'.map f) : l = l' := by
  induction l generalizing l' with
  | nil => exact (map_eq_nil_iff.1 h.symm).symm
  | cons a l ih =>
    cases l' with
    | nil => exact absurd h (by simp)
    | cons b l' =>
      obtain ⟨hhead, htail⟩ := cons.inj h
      have hrest : ∀ a ∈ l, ∀ b ∈ l', f a = f b → a = b := fun a ha b hb ↦
        hf a (mem_cons_of_mem _ ha) b (mem_cons_of_mem _ hb)
      rw [hf a mem_cons_self b mem_cons_self hhead, ih hrest htail]

end GoCell.Foundation
