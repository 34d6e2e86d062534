import Mathlib.Logic.Equiv.Basic
import Mathlib.Order.Lattice
import Mathlib.Tactic.Common

namespace GoCell.Foundation

variable {σ K : Type*}

structure HeapInterface (σ : Type*) where
  less : σ → ℕ → ℕ → Bool
  swap : σ → ℕ → ℕ → σ

namespace HeapInterface

variable (H : HeapInterface σ)

/-- Exchanges with the parent as long as the parent is greater; the fuel is at least the place. -/
def siftUp : ℕ → σ → ℕ → σ
  | 0, s, _ => s
  | fuel + 1, s, j =>
    if (j - 1) / 2 = j ∨ H.less s j ((j - 1) / 2) = false then s
    else siftUp fuel (H.swap s ((j - 1) / 2) j) ((j - 1) / 2)

variable (s : σ)

def up (j : ℕ) : σ := H.siftUp (j + 1) s j

def child (i n : ℕ) : ℕ :=
  if 2 * i + 2 < n ∧ H.less s (2 * i + 2) (2 * i + 1) = true then 2 * i + 2 else 2 * i + 1

def siftDown : ℕ → σ → ℕ → ℕ → σ × ℕ
  | 0, s, i, _ => (s, i)
  | fuel + 1, s, i, n =>
    if n ≤ 2 * i + 1 then (s, i)
    else if H.less s (H.child s i n) i = true then
      siftDown fuel (H.swap s i (H.child s i n)) (H.child s i n) n
    else (s, i)

def down (i n : ℕ) : σ × Bool :=
  ((H.siftDown n s i n).1, i < (H.siftDown n s i n).2)

/-- Restores the order of the first `n` places after a change at one of them. -/
def fix (i n : ℕ) : σ :=
  if (H.down s i n).2 then (H.down s i n).1 else H.up (H.down s i n).1 i

def lastFromRoot (n : ℕ) : σ := (H.down (H.swap s 0 n) 0 n).1

def lastFrom (i n : ℕ) : σ := if n = i then s else H.fix (H.swap s i n) i n

section Invariants

variable {H}

theorem child_lt {s : σ} {i n : ℕ} (h : 2 * i + 1 < n) : i < H.child s i n ∧ H.child s i n < n := by
  unfold child
  split <;> omega

section

variable {P : σ → Prop} {n : ℕ} (preserved : ∀ s i j, i < n → j < n → P s → P (H.swap s i j))
include preserved

theorem siftUp_invariant {fuel : ℕ} {s : σ} {j : ℕ}
    (hj : j < n) (h : P s) : P (H.siftUp fuel s j) := by
  induction fuel generalizing s j with
  | zero => exact h
  | succ fuel ih =>
    rw [siftUp]
    split
    · exact h
    · exact ih (by omega) (preserved s _ _ (by omega) hj h)

theorem siftDown_invariant {fuel : ℕ} {s : σ} {i : ℕ} (h : P s) : P (H.siftDown fuel s i n).1 := by
  induction fuel generalizing s i with
  | zero => exact h
  | succ fuel ih =>
    rw [siftDown]
    split
    · exact h
    · next hchild =>
      obtain ⟨hlt, hn⟩ := child_lt (H := H) (s := s) (Nat.lt_of_not_le hchild)
      split
      · exact ih (preserved s _ _ (by omega) hn h)
      · exact h

theorem fix_invariant {s : σ} {i : ℕ} (hi : i < n) (h : P s) : P (H.fix s i n) := by
  unfold fix
  split
  · exact siftDown_invariant preserved h
  · exact siftUp_invariant preserved hi (siftDown_invariant preserved h)

theorem lastFromRoot_invariant {s : σ} (h : P (H.swap s 0 n)) :
    P (H.lastFromRoot s n) := siftDown_invariant preserved h

theorem lastFrom_invariant {s : σ} {i : ℕ} (hi : i ≤ n)
    (hlast : n = i → P s) (h : P (H.swap s i n)) : P (H.lastFrom s i n) := by
  unfold lastFrom
  split
  · next heq => exact hlast heq
  · exact fix_invariant preserved (by omega) h

end

end Invariants

end HeapInterface

section Order

variable [LinearOrder K] {n : ℕ} {f : ℕ → K} {i j : ℕ}

def HeapOrdered (n : ℕ) (f : ℕ → K) : Prop := ∀ c, 0 < c → c < n → f ((c - 1) / 2) ≤ f c

structure OrderedAround (n : ℕ) (f : ℕ → K) (i : ℕ) : Prop where
  off : ∀ c, 0 < c → c < n → c ≠ i → (c - 1) / 2 ≠ i → f ((c - 1) / 2) ≤ f c
  grand : ∀ c, 0 < c → c < n → (c - 1) / 2 = i → 0 < i → f ((i - 1) / 2) ≤ f c

theorem HeapOrdered.root_le (h : HeapOrdered n f) (hi : i < n) : f 0 ≤ f i := by
  induction i using Nat.strongRecOn with
  | _ i ih =>
    obtain rfl | hpos := Nat.eq_zero_or_pos i
    · exact le_rfl
    · exact (ih ((i - 1) / 2) (by omega) (by omega)).trans (h i hpos hi)

theorem HeapOrdered.mono {m : ℕ} (h : HeapOrdered n f) (hm : m ≤ n) : HeapOrdered m f :=
  fun c hpos hc ↦ h c hpos (by omega)

theorem HeapOrdered.congr {g : ℕ → K} (h : HeapOrdered n f) (heq : ∀ c, c < n → g c = f c) :
    HeapOrdered n g := by
  intro c hpos hc
  rw [heq c hc, heq _ (by omega)]
  exact h c hpos hc

theorem HeapOrdered.around (h : HeapOrdered n f) (i : ℕ) : OrderedAround n f i where
  off c hpos hc _ _ := h c hpos hc
  grand c hpos hc hparent hi := by
    have hchild := h c hpos hc
    rw [hparent] at hchild
    exact (h i hi (by omega)).trans hchild

theorem OrderedAround.congr {g : ℕ → K} (h : OrderedAround n f i)
    (heq : ∀ c, c < n → c ≠ i → g c = f c) : OrderedAround n g i where
  off c hpos hc hne hparent := by
    rw [heq c hc hne, heq _ (by omega) hparent]
    exact h.off c hpos hc hne hparent
  grand c hpos hc hparent hi := by
    rw [heq c hc (by omega), heq _ (by omega) (by omega)]
    exact h.grand c hpos hc hparent hi

theorem OrderedAround.ordered (h : OrderedAround n f i) (habove : 0 < i → f ((i - 1) / 2) ≤ f i)
    (hbelow : ∀ c, 0 < c → c < n → (c - 1) / 2 = i → f i ≤ f c) : HeapOrdered n f := by
  intro c hpos hc
  by_cases hparent : (c - 1) / 2 = i
  · rw [hparent]
    exact hbelow c hpos hc hparent
  by_cases hne : c = i
  · subst hne
    exact habove hpos
  · exact h.off c hpos hc hne hparent

theorem OrderedAround.swap_up (h : OrderedAround n f j) (hpos : 0 < j) (hj : j < n)
    (hlt : f j < f ((j - 1) / 2)) :
    OrderedAround n (f ∘ Equiv.swap ((j - 1) / 2) j) ((j - 1) / 2) ∧
      ∀ c, 0 < c → c < n → (c - 1) / 2 = (j - 1) / 2 →
        (f ∘ Equiv.swap ((j - 1) / 2) j) ((j - 1) / 2) ≤ (f ∘ Equiv.swap ((j - 1) / 2) j) c := by
  have hparent : (f ∘ Equiv.swap ((j - 1) / 2) j) ((j - 1) / 2) = f j := by simp
  have hself : (f ∘ Equiv.swap ((j - 1) / 2) j) j = f ((j - 1) / 2) := by simp
  have hother : ∀ c, c ≠ (j - 1) / 2 → c ≠ j → (f ∘ Equiv.swap ((j - 1) / 2) j) c = f c := by
    intro c hp hne
    simp [Equiv.swap_apply_of_ne_of_ne hp hne]
  -- the parent's other children are not less than the parent
  have hsibling : ∀ c, 0 < c → c < n → c ≠ j → (c - 1) / 2 = (j - 1) / 2 →
      f ((j - 1) / 2) ≤ f c := by
    intro c hcpos hc hne heq
    have hoff := h.off c hcpos hc hne (by omega)
    rwa [heq] at hoff
  refine ⟨⟨fun c hcpos hc hne hcp ↦ ?_, fun c hcpos hc hcp hppos ↦ ?_⟩, fun c hcpos hc hcp ↦ ?_⟩
  · by_cases hcj : c = j
    · exact absurd (by rw [hcj]) hcp
    rw [hother c hne hcj]
    by_cases hpj : (c - 1) / 2 = j
    · rw [hpj, hself]
      exact h.grand c hcpos hc hpj hpos
    · rw [hother _ hcp hpj]
      exact h.off c hcpos hc hcj hpj
  · have hgrand := h.off ((j - 1) / 2) hppos (by omega) (by omega) (by omega)
    rw [hother _ (by omega) (by omega)]
    by_cases hcj : c = j
    · rw [hcj, hself]
      exact hgrand
    · rw [hother c (by omega) hcj]
      exact hgrand.trans (hsibling c hcpos hc hcj hcp)
  · rw [hparent]
    by_cases hcj : c = j
    · rw [hcj, hself]
      exact hlt.le
    · rw [hother c (by omega) hcj]
      exact hlt.le.trans (hsibling c hcpos hc hcj hcp)

theorem OrderedAround.swap_down (h : OrderedAround n f i) (hj : j < n) (hchild : (j - 1) / 2 = i)
    (hpos : 0 < j) (hleast : ∀ c, 0 < c → c < n → (c - 1) / 2 = i → f j ≤ f c) (hlt : f j < f i) :
    OrderedAround n (f ∘ Equiv.swap i j) j ∧
      (f ∘ Equiv.swap i j) ((j - 1) / 2) ≤ (f ∘ Equiv.swap i j) j := by
  have hparent : (f ∘ Equiv.swap i j) i = f j := by simp
  have hself : (f ∘ Equiv.swap i j) j = f i := by simp
  have hother : ∀ c, c ≠ i → c ≠ j → (f ∘ Equiv.swap i j) c = f c := by
    intro c hi hne
    simp [Equiv.swap_apply_of_ne_of_ne hi hne]
  refine ⟨⟨fun c hcpos hc hne hcp ↦ ?_, fun c hcpos hc hcp _ ↦ ?_⟩, ?_⟩
  · by_cases hci : c = i
    · rw [hci, hparent, hother _ (by omega) (by omega)]
      exact h.grand j hpos hj hchild (by omega)
    rw [hother c hci hne]
    by_cases hpi : (c - 1) / 2 = i
    · rw [hpi, hparent]
      exact hleast c hcpos hc hpi
    · rw [hother _ hpi hcp]
      exact h.off c hcpos hc hci hpi
  · rw [hchild, hparent, hother c (by omega) (by omega)]
    have hoff := h.off c hcpos hc (by omega) (by omega)
    rwa [hcp] at hoff
  · rw [hchild, hparent, hself]
    exact hlt.le

end Order

namespace HeapInterface

variable [LinearOrder K]

/-- The sequence holds `len` keys; it is compared by them and an exchange exchanges them. -/
structure Keyed (H : HeapInterface σ) (len : σ → ℕ) (key : σ → ℕ → K) : Prop where
  less : ∀ s i j, i < len s → j < len s → (H.less s i j = true ↔ key s i < key s j)
  len_swap : ∀ s i j, len (H.swap s i j) = len s
  key_swap : ∀ s i j, i < len s → j < len s → key (H.swap s i j) = key s ∘ Equiv.swap i j

variable {H : HeapInterface σ} {len : σ → ℕ} {key : σ → ℕ → K} {s : σ} {i j n fuel : ℕ}

theorem Keyed.siftUp_ordered (h : Keyed H len key) (hn : n ≤ len s) (hj : j < n) (hfuel : j < fuel)
    (haround : OrderedAround n (key s) j)
    (hbelow : ∀ c, 0 < c → c < n → (c - 1) / 2 = j → key s j ≤ key s c) :
    HeapOrdered n (key (H.siftUp fuel s j)) := by
  induction fuel generalizing s j with
  | zero => omega
  | succ fuel ih =>
    rw [siftUp]
    split
    · next hstop =>
      refine haround.ordered (fun hpos ↦ ?_) hbelow
      obtain hroot | hless := hstop
      · omega
      · have hge := mt (h.less s j ((j - 1) / 2) (by omega) (by omega)).2
        rw [hless] at hge
        exact not_lt.1 (hge nofun)
    · next hgo =>
      obtain ⟨hroot, hless⟩ := not_or.1 hgo
      have hlt := (h.less s j ((j - 1) / 2) (by omega) (by omega)).1 (by simpa using hless)
      have hswap := h.key_swap s ((j - 1) / 2) j (by omega) (by omega)
      obtain ⟨haround, hbelow⟩ := haround.swap_up (by omega) hj hlt
      rw [← hswap] at haround hbelow
      exact ih (by rw [h.len_swap]; exact hn) (by omega) (by omega) haround hbelow

theorem Keyed.child_least (h : Keyed H len key) (hn : n ≤ len s) (hchild : 2 * i + 1 < n) {c : ℕ}
    (hpos : 0 < c) (hc : c < n) (hparent : (c - 1) / 2 = i) : key s (H.child s i n) ≤ key s c := by
  unfold child
  split
  · next hright =>
    have hlt := (h.less s _ _ (by omega) (by omega)).1 hright.2
    obtain rfl | rfl : c = 2 * i + 1 ∨ c = 2 * i + 2 := by omega
    · exact hlt.le
    · exact le_rfl
  · next hleft =>
    obtain rfl | rfl : c = 2 * i + 1 ∨ c = 2 * i + 2 := by omega
    · exact le_rfl
    · have hge := mt (h.less s (2 * i + 2) (2 * i + 1) (by omega) (by omega)).2
      exact not_lt.1 (hge fun hless ↦ hleft ⟨hc, hless⟩)

theorem child_parent : (H.child s i n - 1) / 2 = i ∧ 0 < H.child s i n := by
  unfold child
  split <;> omega

section

variable (h : Keyed H len key)
include h

theorem Keyed.siftDown_cases (hn : n ≤ len s) (hfuel : n ≤ fuel + i)
    (hi : i < n) (haround : OrderedAround n (key s) i) :
    (H.siftDown fuel s i n = (s, i) ∧ ∀ c, 0 < c → c < n → (c - 1) / 2 = i → key s i ≤ key s c) ∨
      i < (H.siftDown fuel s i n).2 ∧ HeapOrdered n (key (H.siftDown fuel s i n).1) := by
  induction fuel generalizing s i with
  | zero => omega
  | succ fuel ih =>
    rw [siftDown]
    split
    · exact .inl ⟨rfl, fun c hpos hc hparent ↦ by omega⟩
    · next hchild =>
      have hlt := Nat.lt_of_not_le hchild
      obtain ⟨hij, hjn⟩ := child_lt (H := H) (s := s) hlt
      obtain ⟨hparent, hpos⟩ := child_parent (H := H) (s := s) (i := i) (n := n)
      split
      · next hless =>
        right
        have hkey := (h.less s _ _ (by omega) (by omega)).1 hless
        have hswap := h.key_swap s i (H.child s i n) (by omega) (by omega)
        obtain ⟨haround, habove⟩ := haround.swap_down hjn hparent hpos
          (fun c hcpos hc hcp ↦ h.child_least hn hlt hcpos hc hcp) hkey
        rw [← hswap] at haround habove
        obtain ⟨hstop, hbelow⟩ | ⟨hmoved, hordered⟩ :=
          ih (by rw [h.len_swap]; exact hn) (by omega) hjn haround
        · rw [hstop]
          exact ⟨hij, haround.ordered (fun _ ↦ habove) hbelow⟩
        · exact ⟨Nat.lt_trans hij hmoved, hordered⟩
      · next hless =>
        refine .inl ⟨rfl, fun c hcpos hc hcp ↦ ?_⟩
        have hge := mt (h.less s (H.child s i n) i (by omega) (by omega)).2 hless
        exact (not_lt.1 hge).trans (h.child_least hn hlt hcpos hc hcp)

theorem Keyed.fix_ordered (hn : n ≤ len s) (hi : i < n)
    (haround : OrderedAround n (key s) i) : HeapOrdered n (key (H.fix s i n)) := by
  unfold fix down
  obtain ⟨hstop, hbelow⟩ | ⟨hmoved, hordered⟩ :=
    h.siftDown_cases hn (Nat.le_add_right n i) hi haround
  · rw [hstop]
    rw [if_neg (by simp)]
    exact h.siftUp_ordered hn hi (Nat.lt_succ_self i) haround hbelow
  · simp only [hmoved, decide_true, if_true]
    exact hordered

theorem Keyed.up_ordered (hlen : len s = n + 1)
    (hordered : HeapOrdered n (key s)) : HeapOrdered (n + 1) (key (H.up s n)) := by
  refine h.siftUp_ordered (by omega) (by omega) (Nat.lt_succ_self n) ⟨?_, ?_⟩ ?_
  · intro c hpos hc hne _
    exact hordered c hpos (by omega)
  · intro c hpos hc hparent _
    omega
  · intro c hpos hc hparent
    omega

theorem Keyed.lastFromRoot_ordered (hlen : len s = n + 1)
    (hordered : HeapOrdered (n + 1) (key s)) : HeapOrdered n (key (H.lastFromRoot s n)) := by
  obtain rfl | hpos := Nat.eq_zero_or_pos n
  · intro c hpos hc
    omega
  have haround : OrderedAround n (key (H.swap s 0 n)) 0 := by
    rw [h.key_swap s 0 n (by omega) (by omega)]
    refine ((hordered.mono (Nat.le_succ n)).around 0).congr fun c hc hne ↦ ?_
    simp [Equiv.swap_apply_of_ne_of_ne hne (Nat.ne_of_lt hc)]
  have hswap : len (H.swap s 0 n) = n + 1 := by rw [h.len_swap, hlen]
  unfold lastFromRoot down
  obtain ⟨hstop, hbelow⟩ | ⟨-, hordered⟩ :=
    h.siftDown_cases (s := H.swap s 0 n) (by omega) (Nat.le_add_right n 0) hpos haround
  · rw [hstop]
    exact haround.ordered (fun hpos ↦ by omega) hbelow
  · exact hordered

theorem Keyed.lastFrom_ordered (hlen : len s = n + 1) (hi : i ≤ n)
    (hordered : HeapOrdered (n + 1) (key s)) : HeapOrdered n (key (H.lastFrom s i n)) := by
  unfold lastFrom
  split
  · exact hordered.mono (Nat.le_succ n)
  · next hne =>
    have hswap : len (H.swap s i n) = n + 1 := by rw [h.len_swap, hlen]
    refine h.fix_ordered (by omega) (by omega) ?_
    rw [h.key_swap s i n (by omega) (by omega)]
    refine ((hordered.mono (Nat.le_succ n)).around i).congr fun c hc hci ↦ ?_
    simp [Equiv.swap_apply_of_ne_of_ne hci (Nat.ne_of_lt hc)]

end

end HeapInterface

end GoCell.Foundation
