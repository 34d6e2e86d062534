import GoCell.Foundation.DepthFirst
import GoCell.Kernel.Values
import Mathlib.Data.List.Chain

namespace GoCell.Depgraph

open Foundation Kernel List Function

abbrev PackageID := Bytes

structure Node where
  imports : List PackageID
  testOnly : Bool := false

structure Graph where
  modules : List PackageID
  byID : List (PackageID × Node)

/-- The packages that have been reached, with the chains they were reached by. -/
abbrev Paths := PackageID → Option (List PackageID)

namespace Graph

variable (g : Graph)

def inModule (id : PackageID) : Bool :=
  g.modules.any fun m ↦ m ≠ [] && (id = m || (m ++ [0x2f]).isPrefixOf id)

/-- The loaded package of the module that `dfs` walks on from, if it is not test-only. -/
def production (id : PackageID) : Option Node :=
  if g.inModule id then (g.byID.lookup id).filter fun node ↦ !node.testOnly else none

/-- The recursion of the source under a bound on its depth, which it never meets. -/
def dfs : ℕ → PackageID → List PackageID → Paths → Option Paths
  | 0, _, _, _ => none
  | depth + 1, id, currentPath, paths =>
    if (paths id).isSome then some paths
    else
      match g.production id with
      | none => some paths
      | some node =>
        node.imports.foldlM (fun paths dep ↦ dfs depth dep (currentPath ++ [dep]) paths)
          (update paths id (some currentPath))

def transitiveImportsWithPaths (id : PackageID) : Option Paths :=
  (g.dfs (g.byID.length + 1) id [id] fun _ ↦ none).map fun paths ↦ update paths id none

def Imports (a b : PackageID) : Prop := ∃ node, g.production a = some node ∧ b ∈ node.imports

/-- An import between two packages that `dfs` walks through. -/
def Edge (a b : PackageID) : Prop := g.Imports a b ∧ (g.production b).isSome

/-- An import chain from `start` through packages that `dfs` walks through. -/
structure Walk (start : PackageID) (path : List PackageID) (id : PackageID) : Prop where
  head : path.head? = some start
  last : path.getLast? = some id
  chain : path.IsChain g.Imports
  reached : (g.production id).isSome → Relation.ReflTransGen g.Edge start id

/-- What a call of `dfs` adds: packages with their chains, and with them what they import. -/
structure Extends (start : PackageID) (paths paths' : Paths) : Prop where
  kept : ∀ id path, paths id = some path → paths' id = some path
  walks : ∀ id path, paths' id = some path → paths id = some path ∨
    ((g.production id).isSome ∧ g.Walk start path id)
  closed : ∀ a b, g.Edge a b → (paths' a).isSome → paths a = none → (paths' b).isSome

variable {g} {start id : PackageID} {paths paths' paths'' : Paths} {path : List PackageID}

theorem Walk.step (h : g.Walk start path id) (hid : (g.production id).isSome) {dep : PackageID}
    (hdep : g.Imports id dep) : g.Walk start (path ++ [dep]) dep where
  head := by
    rw [head?_append, h.head]
    rfl
  last := getLast?_concat
  chain := by
    refine isChain_append.2 ⟨h.chain, .singleton _, fun x hx y hy ↦ ?_⟩
    cases h.last.symm.trans hx
    cases hy
    exact hdep
  reached hdep' := (h.reached hid).tail ⟨hdep, hdep'⟩

theorem Extends.refl (paths : Paths) : g.Extends start paths paths where
  kept _ _ h := h
  walks _ _ h := .inl h
  closed a b _ ha hnone := by
    rw [hnone] at ha
    cases ha

theorem Extends.isSome (h : g.Extends start paths paths') (hid : (paths id).isSome) :
    (paths' id).isSome := by
  obtain ⟨path, hpath⟩ := Option.isSome_iff_exists.1 hid
  rw [h.kept id path hpath]
  rfl

theorem Extends.trans (h : g.Extends start paths paths') (h' : g.Extends start paths' paths'') :
    g.Extends start paths paths'' where
  kept id path hpath := h'.kept id path (h.kept id path hpath)
  walks id path hpath := (h'.walks id path hpath).elim (h.walks id path) .inr
  closed a b hedge ha hnone := by
    cases ha' : paths' a with
    | none => exact h'.closed a b hedge ha ha'
    | some path => exact h'.isSome (h.closed a b hedge (by rw [ha']; rfl) hnone)

theorem mem_byID (h : (g.production id).isSome) : id ∈ g.byID.map Prod.fst := by
  unfold production at h
  split at h
  · cases hlookup : g.byID.lookup id with
    | none => simp [hlookup] at h
    | some node =>
      obtain ⟨l₁, l₂, hsplit, -⟩ := lookup_eq_some_iff.1 hlookup
      simp [hsplit]
  · cases h

theorem Extends.visit {node : Node} (hnode : g.production id = some node) (hnone : paths id = none)
    (hwalk : g.Walk start path id) (h : g.Extends start (update paths id (some path)) paths')
    (hdeps : ∀ dep ∈ node.imports, (g.production dep).isSome → (paths' dep).isSome) :
    g.Extends start paths paths' where
  kept k p hk := by
    refine h.kept k p ?_
    rwa [update_of_ne]
    rintro rfl
    cases hnone.symm.trans hk
  walks k p hk := by
    obtain hold | hnew := h.walks k p hk
    · by_cases hkid : k = id
      · subst hkid
        rw [update_self] at hold
        cases hold
        exact .inr ⟨by rw [hnode]; rfl, hwalk⟩
      · rw [update_of_ne hkid] at hold
        exact .inl hold
    · exact .inr hnew
  closed a b hedge ha hfresh := by
    by_cases haid : a = id
    · subst haid
      obtain ⟨⟨node', hnode', hb⟩, hsome⟩ := hedge
      cases hnode.symm.trans hnode'
      exact hdeps b hb hsome
    · exact h.closed a b hedge ha (by rwa [update_of_ne haid])

theorem dfs_spec (depth : ℕ) (hwalk : g.Walk start path id)
    (hdepth : remaining (g.byID.map Prod.fst) (fun k ↦ (paths k).isSome) < depth) :
    ∃ paths', g.dfs depth id path paths = some paths' ∧ g.Extends start paths paths' ∧
      ((g.production id).isSome → (paths' id).isSome) := by
  induction depth generalizing id path paths with
  | zero => exact absurd hdepth (Nat.not_lt_zero _)
  | succ depth ih =>
    unfold dfs
    split
    · next hseen => exact ⟨paths, rfl, .refl paths, fun _ ↦ hseen⟩
    · next hseen =>
      have hnone : paths id = none := by simpa using hseen
      cases hnode : g.production id with
      | none => exact ⟨paths, rfl, .refl paths, fun h ↦ by cases h⟩
      | some node =>
        have hid : (g.production id).isSome := by rw [hnode]; rfl
        -- The loop over the imports, each call of which starts with fewer packages to reach.
        have hloop : ∀ (deps : List PackageID) (paths₁ : Paths),
          (∀ dep ∈ deps, dep ∈ node.imports) →
            remaining (g.byID.map Prod.fst) (fun k ↦ (paths₁ k).isSome) < depth →
            ∃ paths₂, deps.foldlM (fun paths dep ↦ g.dfs depth dep (path ++ [dep]) paths) paths₁ =
              some paths₂ ∧ g.Extends start paths₁ paths₂ ∧
              ∀ dep ∈ deps, (g.production dep).isSome → (paths₂ dep).isSome := by
          intro deps
          induction deps with
          | nil => exact fun paths₁ _ _ ↦ ⟨paths₁, rfl, .refl paths₁, fun _ h ↦ by cases h⟩
          | cons dep deps ihdeps =>
            intro paths₁ hdeps hroom
            obtain ⟨hdep, hdeps⟩ := forall_mem_cons.1 hdeps
            obtain ⟨paths₂, hdfs, hext, hreached⟩ :=
              ih (hwalk.step hid ⟨node, hnode, hdep⟩) hroom
            obtain ⟨paths₃, hrest, hext', hreached'⟩ := ihdeps paths₂ hdeps
              ((remaining_le fun _ ↦ hext.isSome).trans_lt hroom)
            refine ⟨paths₃, ?_, hext.trans hext', forall_mem_cons.2 ⟨?_, hreached'⟩⟩
            · rw [foldlM_cons, hdfs]
              exact hrest
            · exact fun h ↦ hext'.isSome (hreached h)
        have hroom : remaining (g.byID.map Prod.fst)
            (fun k ↦ (update paths id (some path) k).isSome) < depth := by
          refine (remaining_lt (fun k hk ↦ ?_) (mem_byID hid) hseen (by simp)).trans_le
            (Nat.lt_succ_iff.1 hdepth)
          by_cases hkid : k = id
          · rw [hkid, update_self]
            rfl
          · rwa [update_of_ne hkid]
        obtain ⟨paths', hdfs, hext, hdeps⟩ := hloop node.imports _ (fun _ h ↦ h) hroom
        exact ⟨paths', hdfs, hext.visit hnode hnone hwalk hdeps, fun _ ↦ hext.isSome (by simp)⟩

theorem transitiveImportsWithPaths_exact (g : Graph) (start : PackageID) :
    ∃ paths, g.transitiveImportsWithPaths start = some paths ∧
      (∀ id, (paths id).isSome ↔ id ≠ start ∧ Relation.ReflTransGen g.Edge start id) ∧
      ∀ id path, paths id = some path →
        path.head? = some start ∧ path.getLast? = some id ∧ path.IsChain g.Imports := by
  have hwalk : g.Walk start [start] start := ⟨rfl, rfl, .singleton _, fun _ ↦ .refl⟩
  obtain ⟨paths, hdfs, hext, hstart⟩ := @dfs_spec g start start (fun _ ↦ none) [start] _ hwalk
    (Nat.lt_succ_of_le ((remaining_le_length _ _).trans_eq (length_map _)))
  have hwalks : ∀ {id path}, update paths start none id = some path → id ≠ start ∧
      (g.production id).isSome ∧ g.Walk start path id := by
    intro id path h
    have hne : id ≠ start := by
      rintro rfl
      simp at h
    rw [update_of_ne hne] at h
    exact ⟨hne, (hext.walks id path h).resolve_left (fun h ↦ by cases h)⟩
  refine ⟨update paths start none, by rw [transitiveImportsWithPaths, hdfs]; rfl,
    fun id ↦ ⟨fun h ↦ ?_, ?_⟩, ?_⟩
  · obtain ⟨path, hpath⟩ := Option.isSome_iff_exists.1 h
    obtain ⟨hne, hid, hwalk⟩ := hwalks hpath
    exact ⟨hne, hwalk.reached hid⟩
  · rintro ⟨hne, hreach⟩
    rw [update_of_ne hne]
    -- Everything on the way was reached, and so was what it imports.
    have hall : (g.production start).isSome → (paths id).isSome := by
      intro hprod
      clear hne
      induction hreach with
      | refl => exact hstart hprod
      | tail _ hedge ih => exact hext.closed _ _ hedge ih rfl
    obtain rfl | ⟨_, ⟨⟨node, hnode, -⟩, -⟩, -⟩ := hreach.cases_head
    · exact absurd rfl hne
    · exact hall (by rw [hnode]; rfl)
  · intro id path hpath
    obtain ⟨-, -, hwalk⟩ := hwalks hpath
    exact ⟨hwalk.head, hwalk.last, hwalk.chain⟩

end Graph

end GoCell.Depgraph
