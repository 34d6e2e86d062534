import GoCell.Foundation.DepthFirst
import GoCell.Kernel.Values
import Mathlib.Data.List.Chain

namespace GoCell.Governance

open Foundation Kernel List Function

abbrev CellID := Bytes

/-- A map of maps, each as the list of its keys in the order in which `range` visits them. -/
abbrev Graph := List (CellID × List CellID)

inductive Color
  | white
  | gray
  | black
  deriving DecidableEq

structure Search where
  color : CellID → Color := fun _ ↦ .white
  parent : CellID → CellID := fun _ ↦ []

/-- How the search ends early: `deep` is a bound on its loops, which it never meets. -/
inductive Stop
  | deep
  | cycle (path : List CellID)

def trace (parent : CellID → CellID) (backTo : CellID) : ℕ → CellID → Option (List CellID)
  | 0, _ => none
  | fuel + 1, n =>
    if n = backTo then some [n] else (trace parent backTo fuel (parent n)).map (n :: ·)

def reconstructCycle (fuel : ℕ) (parent : CellID → CellID) (current backTo : CellID) : Stop :=
  match trace parent backTo fuel current with
  | none => .deep
  | some path => .cycle (path.reverse ++ [backTo])

namespace Graph

variable (g : Graph)

def succ (node : CellID) : List CellID := (g.lookup node).getD []

def cells : List CellID := g.flatMap fun entry ↦ entry.1 :: entry.2

def dfs : ℕ → CellID → Search → Except Stop Search
  | 0, _, _ => .error .deep
  | depth + 1, node, s => do
    let s ← (g.succ node).foldlM (fun s neighbor ↦
      match s.color neighbor with
      | .gray => .error (reconstructCycle g.cells.length s.parent node neighbor)
      | .white => dfs depth neighbor { s with parent := update s.parent neighbor node }
      | .black => .ok s) { s with color := update s.color node .gray }
    return { s with color := update s.color node .black }

/-- The cycle that is returned, `none` for nil; without an answer the bound was met. -/
def detectCycle : Option (Option (List CellID)) :=
  match (g.map Prod.fst).foldlM (fun s node ↦
      if s.color node = .white then g.dfs (g.cells.length + 1) node s else .ok s) {} with
  | .ok _ => some none
  | .error .deep => none
  | .error (.cycle path) => some (some path)

def Edge (a b : CellID) : Prop := b ∈ g.succ a

structure IsCycle (path : List CellID) : Prop where
  length : 2 ≤ path.length
  closed : path.head? = path.getLast?
  edges : path.IsChain g.Edge
  nodup : path.dropLast.Nodup

/-- The gray cells are the current path, the last one first, with the parents along it. The black
ones lead to black ones only, and are on no cycle. -/
structure Inv (stack : List CellID) (s : Search) : Prop where
  gray : ∀ v, s.color v = .gray ↔ v ∈ stack
  nodup : stack.Nodup
  mem : stack ⊆ g.cells
  chain : stack.IsChain fun x y ↦ s.parent x = y ∧ g.Edge y x
  closed : ∀ a b, s.color a = .black → g.Edge a b → s.color b = .black
  acyclic : ∀ a, s.color a = .black → ¬Relation.TransGen g.Edge a a

/-- Nothing that was colored before is colored anew. -/
def Kept (s s' : Search) : Prop := ∀ v, s.color v ≠ .white → s'.color v = s.color v

def Ends (Q : Search → Prop) : Except Stop Search → Prop
  | .ok s => Q s
  | .error stop => ∃ path, stop = .cycle path ∧ g.IsCycle path

variable {g} {stack : List CellID} {node : CellID} {s : Search} {Q Q' : Search → Prop}

theorem Ends.bind {x : Except Stop Search} {f : Search → Except Stop Search} (h : g.Ends Q x)
    (hf : ∀ s, Q s → g.Ends Q' (f s)) : g.Ends Q' (x >>= f) := by
  cases x with
  | ok s => exact hf s h
  | error => exact h

theorem Ends.mono {x : Except Stop Search} (h : g.Ends Q x) (hQ : ∀ s, Q s → Q' s) :
    g.Ends Q' x := by
  cases x with
  | ok s => exact hQ s h
  | error => exact h

theorem Ends.foldlM (nodes : List CellID) {f : Search → CellID → Except Stop Search} (hs : Q s)
    (hstep : ∀ s n, n ∈ nodes → Q s →
      g.Ends (fun s' ↦ Q s' ∧ s'.color n = .black ∧ Kept s s') (f s n)) :
    g.Ends (fun s' ↦ Q s' ∧ (∀ n ∈ nodes, s'.color n = .black) ∧ Kept s s') (nodes.foldlM f s) := by
  induction nodes generalizing s with
  | nil => exact ⟨hs, forall_mem_nil _, fun _ _ ↦ rfl⟩
  | cons n nodes ih =>
    rw [foldlM_cons]
    refine (hstep s n mem_cons_self hs).bind fun s₁ ⟨hs₁, hn, hkeep⟩ ↦ ?_
    refine (ih hs₁ fun s m hm ↦ hstep s m (mem_cons_of_mem n hm)).mono ?_
    rintro s₂ ⟨hs₂, hnodes, hkeep'⟩
    refine ⟨hs₂, forall_mem_cons.2 ⟨?_, hnodes⟩, fun v hv ↦ ?_⟩
    · rw [hkeep' n (by simp [hn]), hn]
    · rw [hkeep' v (by rwa [hkeep v hv]), hkeep v hv]

theorem trace_spec {parent : CellID → CellID} {backTo n : CellID} {rest : List CellID} {fuel : ℕ}
    (hchain : (n :: rest).IsChain fun x y ↦ parent x = y ∧ g.Edge y x) (hmem : backTo ∈ n :: rest)
    (hfuel : (n :: rest).length ≤ fuel) :
    ∃ pre, pre ++ [backTo] <+: n :: rest ∧ trace parent backTo fuel n = some (pre ++ [backTo]) := by
  induction rest generalizing n fuel with
  | nil =>
    obtain rfl := mem_singleton.1 hmem
    obtain ⟨fuel, rfl⟩ := Nat.exists_eq_add_of_le' hfuel
    exact ⟨[], prefix_rfl, if_pos rfl⟩
  | cons m rest ih =>
    obtain ⟨fuel, rfl⟩ := Nat.exists_eq_add_of_le' ((Nat.le_add_left 1 _).trans hfuel)
    by_cases hn : n = backTo
    · subst hn
      exact ⟨[], (prefix_cons_inj n).2 nil_prefix, if_pos rfl⟩
    · obtain ⟨⟨hparent, -⟩, hchain⟩ := isChain_cons_cons.1 hchain
      obtain ⟨pre, hpre, htrace⟩ := ih hchain (mem_of_ne_of_mem (Ne.symm hn) hmem)
        (Nat.le_of_succ_le_succ hfuel)
      refine ⟨n :: pre, (prefix_cons_inj n).2 hpre, ?_⟩
      rw [trace, if_neg hn, hparent, htrace]
      rfl

theorem Inv.isCycle (h : g.Inv (node :: stack) s) {neighbor : CellID} (hedge : g.Edge node neighbor)
    (hgray : s.color neighbor = .gray) :
    ∃ path, reconstructCycle g.cells.length s.parent node neighbor = .cycle path ∧
      g.IsCycle path := by
  obtain ⟨pre, hpre, htrace⟩ := trace_spec h.chain ((h.gray neighbor).1 hgray)
    (subperm_of_subset h.nodup h.mem).length_le
  refine ⟨_, by rw [reconstructCycle, htrace], ?_, ?_, ?_, ?_⟩
  · simp
  · rw [getLast?_concat, reverse_concat]
    rfl
  · have hchain := IsChain.prefix h.chain hpre
    refine IsChain.append (isChain_reverse.2 (hchain.imp fun _ _ hxy ↦ hxy.2)) (.singleton _)
      fun x hx y hy ↦ ?_
    cases hy
    rw [getLast?_reverse] at hx
    obtain ⟨post, hpost⟩ := hpre
    have hhead := congrArg head? hpost
    rw [head?_append, hx] at hhead
    cases hhead
    exact hedge
  · rw [dropLast_concat]
    exact nodup_reverse.2 (h.nodup.sublist hpre.sublist)

theorem Inv.enter (h : g.Inv stack s) (hwhite : s.color node = .white) (hnode : node ∈ g.cells)
    (hchain : (node :: stack).IsChain fun x y ↦ s.parent x = y ∧ g.Edge y x) :
    g.Inv (node :: stack) { s with color := update s.color node .gray } := by
  have hblack : ∀ v, update s.color node .gray v = .black ↔ s.color v = .black := by
    intro v
    by_cases hv : v = node
    · simp [hv, hwhite]
    · rw [update_of_ne hv]
  refine ⟨fun v ↦ ?_, nodup_cons.2 ⟨fun hmem ↦ ?_, h.nodup⟩, cons_subset.2 ⟨hnode, h.mem⟩, hchain,
    fun a b ha hedge ↦ (hblack b).2 (h.closed a b ((hblack a).1 ha) hedge),
    fun a ha ↦ h.acyclic a ((hblack a).1 ha)⟩
  · by_cases hv : v = node
    · simp [hv]
    · simp [hv, h.gray]
  · cases hwhite.symm.trans ((h.gray node).2 hmem)

theorem Inv.black_of_reach (h : g.Inv stack s) {a b : CellID} (ha : s.color a = .black)
    (hreach : Relation.ReflTransGen g.Edge a b) : s.color b = .black := by
  induction hreach with
  | refl => exact ha
  | tail _ hedge ih => exact h.closed _ _ ih hedge

theorem Inv.leave (h : g.Inv (node :: stack) s) (hsucc : ∀ n ∈ g.succ node, s.color n = .black) :
    g.Inv stack { s with color := update s.color node .black } := by
  obtain ⟨hnode, hnodup⟩ := nodup_cons.1 h.nodup
  refine ⟨fun v ↦ ?_, hnodup, (cons_subset.1 h.mem).2, (isChain_cons.1 h.chain).2, ?_, ?_⟩
  · by_cases hv : v = node
    · simp [hv, hnode]
    · simp [hv, h.gray]
  · intro a b ha hedge
    by_cases hb : b = node
    · simp [hb]
    by_cases hanode : a = node
    · subst hanode
      simpa [hb] using hsucc b hedge
    · have hblack : s.color a = .black := by simpa [hanode] using ha
      simpa [hb] using h.closed a b hblack hedge
  · intro a ha hcycle
    by_cases hanode : a = node
    · subst hanode
      obtain ⟨b, hedge, hreach⟩ := Relation.TransGen.head'_iff.1 hcycle
      have hgray := (h.gray a).2 mem_cons_self
      cases hgray.symm.trans (h.black_of_reach (hsucc b hedge) hreach)
    · exact h.acyclic a (by simpa [hanode] using ha) hcycle

theorem Inv.reparent (h : g.Inv stack s) {n : CellID} (hwhite : s.color n = .white) (p : CellID) :
    g.Inv stack { s with parent := update s.parent n p } := by
  refine { h with chain := h.chain.imp_of_mem_imp fun x y hx _ hxy ↦ ⟨?_, hxy.2⟩ }
  have hne : x ≠ n := by
    rintro rfl
    cases hwhite.symm.trans ((h.gray x).2 hx)
  simpa [hne] using hxy.1

theorem Edge.mem {a b : CellID} (h : g.Edge a b) : a ∈ g.map Prod.fst ∧ b ∈ g.cells := by
  unfold Edge succ at h
  cases hlookup : g.lookup a with
  | none => simp [hlookup] at h
  | some bs =>
    obtain ⟨l₁, l₂, hsplit, -⟩ := lookup_eq_some_iff.1 hlookup
    rw [hlookup, Option.getD_some] at h
    simp [cells, hsplit, h]

theorem dfs_spec (depth : ℕ) (h : g.Inv stack s) (hwhite : s.color node = .white)
    (hnode : node ∈ g.cells)
    (hchain : (node :: stack).IsChain fun x y ↦ s.parent x = y ∧ g.Edge y x)
    (hdepth : remaining g.cells (fun v ↦ s.color v ≠ .white) < depth) :
    g.Ends (fun s' ↦ g.Inv stack s' ∧ s'.color node = .black ∧ Kept s s') (g.dfs depth node s) := by
  induction depth generalizing stack node s with
  | zero => exact absurd hdepth (Nat.not_lt_zero _)
  | succ depth ih =>
    have hne : ∀ v, s.color v ≠ .white → v ≠ node := by
      rintro v hv rfl
      exact hv hwhite
    have hgray : Kept s { s with color := update s.color node .gray } :=
      fun v hv ↦ update_of_ne (hne v hv) ..
    have hroom : remaining g.cells (fun v ↦ update s.color node .gray v ≠ .white) < depth :=
      (remaining_lt (fun v hv ↦ by rwa [← hgray v hv] at hv) hnode (not_not.2 hwhite)
        (by simp)).trans_le (Nat.lt_succ_iff.1 hdepth)
    rw [dfs]
    refine (Ends.foldlM (Q := fun s' ↦ g.Inv (node :: stack) s' ∧
      remaining g.cells (fun v ↦ s'.color v ≠ .white) < depth)
      _ ⟨h.enter hwhite hnode hchain, hroom⟩ ?_).bind ?_
    · rintro s₁ n hn ⟨h₁, hroom₁⟩
      split
      · next hgray => exact h₁.isCycle hn hgray
      · next hwhite₁ =>
        have h₁' := h₁.reparent hwhite₁ node
        refine (ih h₁' hwhite₁ (Edge.mem hn).2 ?_ hroom₁).mono ?_
        · exact isChain_cons_cons.2 ⟨⟨update_self .., hn⟩, h₁'.chain⟩
        · rintro s₂ ⟨h₂, hblack, hkeep⟩
          exact ⟨⟨h₂, (remaining_le fun v hv ↦ by rwa [hkeep v hv]).trans_lt hroom₁⟩, hblack, hkeep⟩
      · next hblack => exact ⟨⟨h₁, hroom₁⟩, hblack, fun _ _ ↦ rfl⟩
    · rintro s₂ ⟨⟨h₂, -⟩, hsucc, hkeep⟩
      refine ⟨h₂.leave hsucc, update_self .., fun v hv ↦ ?_⟩
      rw [← hgray v hv, ← hkeep v (by rwa [hgray v hv])]
      exact update_of_ne (hne v hv) ..

theorem IsCycle.transGen {path : List CellID} (h : g.IsCycle path) :
    ∃ node, Relation.TransGen g.Edge node node := by
  obtain ⟨hlength, hclosed, hedges, -⟩ := h
  match path with
  | a :: b :: rest =>
    obtain ⟨hab, hrest⟩ := isChain_cons_cons.1 hedges
    refine ⟨a, Relation.TransGen.head'_iff.2 ⟨b, hab, ?_⟩⟩
    refine relationReflTransGen_of_exists_isChain_cons rest hrest (Option.some.inj ?_)
    rw [← getLast?_eq_some_getLast, ← getLast?_cons_cons (a := a), ← hclosed]
    rfl

/-- `detectCycle` returns, and it returns nil exactly when the graph has no cycle. -/
theorem detectCycle_exact (g : Graph) :
    ∃ result, g.detectCycle = some result ∧
      (result = none ↔ ¬∃ node, Relation.TransGen g.Edge node node) ∧
      ∀ path, result = some path → g.IsCycle path := by
  have hstart : g.Inv [] {} :=
    ⟨by simp, nodup_nil, nil_subset _, .nil, fun _ _ h ↦ (by cases h), fun _ h ↦ (by cases h)⟩
  have hloop := Ends.foldlM (g := g) (g.map Prod.fst) (f := fun s node ↦
    if s.color node = .white then g.dfs (g.cells.length + 1) node s else .ok s) hstart ?_
  · unfold detectCycle
    split
    · next s hfold =>
      rw [hfold] at hloop
      obtain ⟨h, hkeys, -⟩ := hloop
      refine ⟨none, rfl, iff_of_true rfl ?_, nofun⟩
      rintro ⟨node, hcycle⟩
      obtain ⟨b, hedge, -⟩ := Relation.TransGen.head'_iff.1 hcycle
      exact h.acyclic node (hkeys node (Edge.mem hedge).1) hcycle
    · next hfold =>
      rw [hfold] at hloop
      obtain ⟨_, hstop, -⟩ := hloop
      cases hstop
    · next path hfold =>
      rw [hfold] at hloop
      obtain ⟨_, ⟨rfl⟩, hpath⟩ := hloop
      exact ⟨some path, rfl, iff_of_false nofun (not_not.2 hpath.transGen),
        fun _ heq ↦ Option.some.inj heq ▸ hpath⟩
  · intro s n hn h
    split
    · next hwhite =>
      refine dfs_spec _ h hwhite ?_ (.singleton _) (Nat.lt_succ_of_le (remaining_le_length _ _))
      obtain ⟨entry, hentry, rfl⟩ := mem_map.1 hn
      exact mem_flatMap.2 ⟨entry, hentry, mem_cons_self⟩
    · next hnot =>
      refine ⟨h, ?_, fun _ _ ↦ rfl⟩
      cases hcolor : s.color n with
      | white => exact absurd hcolor hnot
      | gray => cases (h.gray n).1 hcolor
      | black => rfl

end Graph

end GoCell.Governance
