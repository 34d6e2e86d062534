import GoCell.Query.Paging

namespace GoCell.Query

open Foundation Kernel List Option

structure Builder where
  parts : List String
  args : List Value
  deriving DecidableEq

def placeholder (n : ℕ) : String := "$" ++ toString n

namespace Builder

def append (b : Builder) (sql : String) : Builder := { b with parts := b.parts ++ [sql] }

def nextParam (b : Builder) (v : Value) : String × Builder :=
  (placeholder (b.args.length + 1), { b with args := b.args ++ [v] })

def appendParam (b : Builder) (sql : String) (v : Value) : Builder :=
  ⟨b.parts ++ [sql ++ placeholder (b.args.length + 1)], b.args ++ [v]⟩

end Builder

/-- The regular expression `^[a-z_][a-z0-9_]*$`. -/
def validColumnName (name : String) : Bool :=
  match name.toList with
  | [] => false
  | c :: cs =>
    (('a' ≤ c && c ≤ 'z') || c = '_') &&
      cs.all fun c ↦ ('a' ≤ c && c ≤ 'z') || ('0' ≤ c && c ≤ '9') || c = '_'

def sameDirection : List SortColumn → Bool
  | [] => true
  | c :: cs => cs.all fun d ↦ d.direction = c.direction

def directionOp (dir : SortDir) : String := if dir = .desc then "<" else ">"

def nextParams (b : Builder) : List Value → List String × Builder
  | [] => ([], b)
  | v :: vs =>
    let (p, b) := b.nextParam v
    let (ps, b) := nextParams b vs
    (p :: ps, b)

def appendTupleComparison (b : Builder) (cols : List SortColumn) (values : List Value) : Builder :=
  let op := directionOp ((cols.head?.map SortColumn.direction).getD .asc)
  let (placeholders, b) := nextParams b values
  b.append ("AND (" ++ ", ".intercalate (cols.map SortColumn.name) ++ ") " ++ op ++ " (" ++
    ", ".intercalate placeholders ++ ")")

def equalConditions (b : Builder) : List (SortColumn × Value) → List String × Builder
  | [] => ([], b)
  | (col, v) :: before =>
    let (p, b) := b.nextParam v
    let (conditions, b) := equalConditions b before
    ((col.name ++ " = " ++ p) :: conditions, b)

def joinConditions : List String → String
  | [condition] => condition
  | conditions => "(" ++ " AND ".intercalate conditions ++ ")"

/-- The outer loop of `appendCompoundOR`, behind the columns of the levels before. -/
def compoundParts (b : Builder) (before : List (SortColumn × Value)) :
    List (SortColumn × Value) → List String × Builder
  | [] => ([], b)
  | (col, v) :: rest =>
    let (conditions, b) := equalConditions b before
    let (p, b) := b.nextParam v
    let conditions := conditions ++ [col.name ++ " " ++ directionOp col.direction ++ " " ++ p]
    let (parts, b) := compoundParts b (before ++ [(col, v)]) rest
    (joinConditions conditions :: parts, b)

def appendCompoundOR (b : Builder) (cols : List SortColumn) (values : List Value) : Builder :=
  let (parts, b) := compoundParts b [] (cols.zip values)
  b.append ("AND (" ++ " OR ".intercalate parts ++ ")")

def appendKeysetWhere (b : Builder) (cols : List SortColumn) (values : List Value) : Builder :=
  match cols, values with
  | [col], v :: _ => b.appendParam ("AND " ++ col.name ++ " " ++ directionOp col.direction ++ " ") v
  | _, _ =>
    if sameDirection cols then appendTupleComparison b cols values
    else appendCompoundOR b cols values

def appendOrderBy (b : Builder) (cols : List SortColumn) : Builder :=
  b.append ("ORDER BY " ++ ", ".intercalate (cols.map fun c ↦ c.name ++ " " ++ c.direction.text))

def checkColumn (col : SortColumn) : Except Err Unit := do
  require (validColumnName col.name) (validationFailed "keyset: invalid column name")
  require (col.direction = .asc || col.direction = .desc)
    (validationFailed "keyset: invalid sort direction")

def appendKeyset (b : Builder) (params : ListParams) : Except Err Builder := do
  require (params.sort ≠ []) (validationFailed "keyset: at least one sort column is required")
  params.sort.forM checkColumn
  let b ←
    match params.cursorValues with
    | none => pure b
    | some values => do
      require (values.length = params.sort.length) errCursorInvalid
      pure (appendKeysetWhere b params.sort values)
  return (appendOrderBy b params.sort).appendParam "LIMIT " (.int params.fetchLimit)

inductive CompareOp
  | lt
  | gt
  | eq
  deriving DecidableEq

def CompareOp.text : CompareOp → String
  | .lt => "<"
  | .gt => ">"
  | .eq => "="

def CompareOp.holds : CompareOp → Ordering → Bool
  | .lt, o => o = .lt
  | .gt, o => o = .gt
  | .eq, o => o = .eq

structure Comparison where
  column : String
  op : CompareOp
  param : ℕ
  deriving DecidableEq

inductive Predicate
  | comparison (c : Comparison)
  | row (op : CompareOp) (columns : List (String × ℕ))
  | any (terms : List (List Comparison))
  deriving DecidableEq

def Comparison.text (c : Comparison) : String :=
  c.column ++ " " ++ c.op.text ++ " " ++ placeholder c.param

def termText (cs : List Comparison) : String := joinConditions (cs.map Comparison.text)

def Predicate.text : Predicate → String
  | .comparison c => c.text
  | .row op columns => "(" ++ ", ".intercalate (columns.map Prod.fst) ++ ") " ++ op.text ++ " (" ++
      ", ".intercalate (columns.map fun c ↦ placeholder c.2) ++ ")"
  | .any terms => "(" ++ " OR ".intercalate (terms.map termText) ++ ")"

def Predicate.placeholders : Predicate → List (String × ℕ)
  | .comparison c => [(c.column, c.param)]
  | .row _ columns => columns
  | .any terms => terms.flatten.map fun c ↦ (c.column, c.param)

section

variable (compareSQL : Value → Value → Ordering) (row : String → Value) (args : List Value)

def compareParam (column : String) (param : ℕ) : Option Ordering :=
  if param = 0 then none else (args[param - 1]?).map fun v ↦ compareSQL (row column) v

def Comparison.eval (c : Comparison) : Bool :=
  ((compareParam compareSQL row args c.column c.param).map c.op.holds).getD false

def evalRow (op : CompareOp) : List (String × ℕ) → Bool
  | [] => op.holds .eq
  | (column, param) :: columns =>
    match compareParam compareSQL row args column param with
    | none => false
    | some .eq => evalRow op columns
    | some o => op.holds o

def Predicate.eval : Predicate → Bool
  | .comparison c => c.eval compareSQL row args
  | .row op columns => evalRow compareSQL row args op columns
  | .any terms => terms.any fun cs ↦ cs.all (Comparison.eval compareSQL row args)

end

def SortDir.op (dir : SortDir) : CompareOp := if dir = .desc then .lt else .gt

/-- Columns with the numbers of the next parameters, behind `n` others. -/
def numbered : List SortColumn → ℕ → List (String × ℕ)
  | [], _ => []
  | col :: cols, n => (col.name, n + 1) :: numbered cols (n + 1)

def equalTerms (before : List SortColumn) (n : ℕ) : List Comparison :=
  (numbered before n).map fun c ↦ ⟨c.1, .eq, c.2⟩

/-- One term for each column: the columns before it are equal, and the column itself is behind. -/
def orTerms (before : List SortColumn) : List SortColumn → ℕ → List (List Comparison)
  | [], _ => []
  | col :: cols, n =>
    (equalTerms before n ++ [⟨col.name, col.direction.op, n + before.length + 1⟩]) ::
      orTerms (before ++ [col]) cols (n + before.length + 1)

def orArgs (before : List Value) : List Value → List Value
  | [] => []
  | v :: vs => before ++ v :: orArgs (before ++ [v]) vs

def keysetPredicate (cols : List SortColumn) (n : ℕ) : Predicate :=
  match cols with
  | [col] => .comparison ⟨col.name, col.direction.op, n + 1⟩
  | _ =>
    if sameDirection cols then
      .row ((cols.head?.map SortColumn.direction).getD .asc).op (numbered cols n)
    else .any (orTerms [] cols n)

def keysetArgs (cols : List SortColumn) (values : List Value) : List Value :=
  if sameDirection cols then values else orArgs [] values

abbrev Keys := List (SortColumn × Value)

section Text

theorem text_op (dir : SortDir) : dir.op.text = directionOp dir := by
  unfold SortDir.op directionOp
  split <;> rfl

theorem nextParams_eq (b : Builder) (keys : Keys) :
    nextParams b (keys.map Prod.snd) =
      ((numbered (keys.map Prod.fst) b.args.length).map fun c ↦ placeholder c.2,
        { b with args := b.args ++ keys.map Prod.snd }) := by
  induction keys generalizing b with
  | nil => simp [nextParams, numbered]
  | cons key keys ih =>
    have hrest := ih (b.nextParam key.2).2
    simp only [Builder.nextParam, length_append, length_singleton, append_assoc,
      singleton_append] at hrest
    simp only [map_cons, nextParams, Builder.nextParam, hrest, numbered]

theorem numbered_fst (cols : List SortColumn) (n : ℕ) :
    (numbered cols n).map Prod.fst = cols.map SortColumn.name := by
  induction cols generalizing n with
  | nil => rfl
  | cons col cols ih => rw [numbered, map_cons, map_cons, ih]

theorem text_equal (column : String) (param : ℕ) :
    Comparison.text ⟨column, .eq, param⟩ = column ++ " = " ++ placeholder param := by
  have hop : " = " = " " ++ "=" ++ " " := by decide
  rw [hop, Comparison.text, CompareOp.text]
  simp only [String.append_assoc]

theorem equalConditions_eq (b : Builder) (before : Keys) :
    equalConditions b before =
      ((equalTerms (before.map Prod.fst) b.args.length).map Comparison.text,
        { b with args := b.args ++ before.map Prod.snd }) := by
  induction before generalizing b with
  | nil => simp [equalConditions, equalTerms, numbered]
  | cons key before ih =>
    have hrest := ih (b.nextParam key.2).2
    simp only [Builder.nextParam, length_append, length_singleton, append_assoc,
      singleton_append] at hrest
    simp only [equalConditions, Builder.nextParam, hrest, equalTerms, numbered, map_cons,
      text_equal]

theorem compoundParts_eq (b : Builder) (before rest : Keys) :
    compoundParts b before rest =
      ((orTerms (before.map Prod.fst) (rest.map Prod.fst) b.args.length).map termText,
        { b with args := b.args ++ orArgs (before.map Prod.snd) (rest.map Prod.snd) }) := by
  induction rest generalizing b before with
  | nil => simp [compoundParts, orTerms, orArgs]
  | cons key rest ih =>
    have hrest := ih ⟨b.parts, b.args ++ before.map Prod.snd ++ [key.2]⟩ (before ++ [key])
    simp only [map_append, map_cons, map_nil, length_append, length_map,
      length_singleton, append_assoc, singleton_append] at hrest
    simp only [compoundParts, equalConditions_eq, Builder.nextParam, length_append,
      length_map, append_assoc, hrest, map_cons, orTerms, orArgs, termText,
      map_append, map_nil, Comparison.text, text_op, Prod.eta]
    rfl

theorem zip_keys (keys : Keys) : (keys.map Prod.fst).zip (keys.map Prod.snd) = keys := by
  rw [zip_map']
  exact map_id' keys

theorem appendKeysetWhere_eq (b : Builder) {keys : Keys} (hne : keys ≠ []) :
    appendKeysetWhere b (keys.map Prod.fst) (keys.map Prod.snd) =
      ⟨b.parts ++ ["AND " ++ (keysetPredicate (keys.map Prod.fst) b.args.length).text],
        b.args ++ keysetArgs (keys.map Prod.fst) (keys.map Prod.snd)⟩ := by
  match keys with
  | [] => exact absurd rfl hne
  | [key] =>
    simp only [map_singleton, appendKeysetWhere, Builder.appendParam, keysetPredicate, keysetArgs,
      Predicate.text, Comparison.text, text_op, String.append_assoc]
    rfl
  | key :: key' :: keys =>
    have hzip := zip_keys (key :: key' :: keys)
    have hparams := nextParams_eq b (key :: key' :: keys)
    have hparts := compoundParts_eq b [] (key :: key' :: keys)
    simp only [map_cons] at hzip hparams hparts ⊢
    simp only [appendKeysetWhere, keysetPredicate, keysetArgs]
    split
    · simp only [appendTupleComparison, hparams, Builder.append, Predicate.text, numbered_fst,
        text_op, String.append_assoc]
      rfl
    · simp only [appendCompoundOR, hzip, hparts, Builder.append, Predicate.text, map_nil,
        String.append_assoc]
      rfl

end Text

section Semantics

variable {compareSQL : Value → Value → Ordering} {row : String → Value}

/-- The row comes behind the keys of the cursor. -/
def behind (compareSQL : Value → Value → Ordering) (row : String → Value) : Keys → Bool
  | [] => false
  | (col, v) :: keys =>
    col.direction.op.holds (compareSQL (row col.name) v) ||
      (CompareOp.eq.holds (compareSQL (row col.name) v) && behind compareSQL row keys)

def Value.number? : Value → Option ℚ
  | .int n => some n
  | .number x => some x
  | _ => none

/-- The order of two keys by their values: like `CompareAny`, but numbers are compared as they
are. -/
def compareKeys (tt : TimeText) (a b : Value) : Option Ordering :=
  match a.number?, b.number? with
  | some x, some y => some (compare x y)
  | _, _ => (compareAny tt a b).toOption

/-- An `int` that is a `float64`. -/
def Value.Exact : Value → Prop
  | .int n => float64OfInt n = n
  | _ => True

instance : DecidablePred Value.Exact
  | .int n => inferInstanceAs (Decidable (float64OfInt n = n))
  | .string _ | .number _ | .time _ | .other _ => .isTrue trivial

theorem Value.exact_int {n : ℤ} (h : n.natAbs ≤ 2 ^ 53) : (Value.int n).Exact :=
  float64OfInt_of_natAbs_le h

theorem Value.Exact.normalize {v : Value} (h : v.Exact) :
    normalizeNumeric v = (v.number?.map Value.number).getD v := by
  cases v with
  | int n => exact congrArg (fun m : ℤ ↦ Value.number m) h
  | string | number | time | other => rfl

theorem compareAny_of_compareKeys {tt : TimeText} {a b : Value} {o : Ordering} (ha : a.Exact)
    (hb : b.Exact) (h : compareKeys tt a b = some o) : compareAny tt a b = .ok o := by
  unfold compareKeys at h
  split at h
  · next x y hx hy =>
    rw [compareAny, ha.normalize, hb.normalize, hx, hy]
    exact congrArg Except.ok (some.inj h)
  · cases hany : compareAny tt a b with
    | error e =>
      rw [hany] at h
      cases h
    | ok o' =>
      rw [hany] at h
      exact congrArg Except.ok (some.inj h)

theorem holds_eq (o : Ordering) : CompareOp.eq.holds o = decide (o = .eq) := rfl

theorem holds_op (dir : SortDir) (o : Ordering) :
    dir.op.holds o = if dir = .desc then decide (o = .lt) else decide (o = .gt) := by
  unfold SortDir.op
  split <;> rfl

theorem afterCursor_eq_behind {T : Type} {tt : TimeText} {fieldValue : T → String → Value}
    {item : T} {keys : Keys} (h : ∀ key ∈ keys, compareAny tt (fieldValue item key.1.name) key.2 =
      .ok (compareSQL (fieldValue item key.1.name) key.2)) :
    afterCursor tt fieldValue item (keys.map Prod.fst) (keys.map Prod.snd) =
      .ok (behind compareSQL (fieldValue item) keys) := by
  induction keys with
  | nil => rfl
  | cons key keys ih =>
    obtain ⟨hcol, h⟩ := forall_mem_cons.1 h
    have hrest := ih h
    cases hsql : compareSQL (fieldValue item key.1.name) key.2 with
    | eq =>
      rw [hsql] at hcol
      simp only [map_cons, afterCursor, hcol, hrest, behind, hsql, holds_op, holds_eq]
      split <;> simp
    | lt | gt =>
      rw [hsql] at hcol
      simp only [map_cons, afterCursor, hcol, behind, hsql, holds_op, holds_eq]
      split <;> simp

theorem compareParam_append (compareSQL : Value → Value → Ordering) (row : String → Value)
    (column : String) (pre : List Value) (v : Value) (post : List Value) :
    compareParam compareSQL row (pre ++ v :: post) column (pre.length + 1) =
      some (compareSQL (row column) v) := by
  simp [compareParam]

theorem evalRow_numbered {op : CompareOp} (keys : Keys)
    (hop : ∀ col ∈ keys.map Prod.fst, col.direction.op = op) (hne : op.holds .eq = false)
    (pre post : List Value) :
    evalRow compareSQL row (pre ++ (keys.map Prod.snd ++ post)) op
      (numbered (keys.map Prod.fst) pre.length) = behind compareSQL row keys := by
  induction keys generalizing pre with
  | nil => exact hne
  | cons key keys ih =>
    obtain ⟨hcol, hop⟩ := forall_mem_cons.1 hop
    have hrest := ih hop (pre ++ [key.2])
    rw [length_append, length_singleton, append_assoc, singleton_append] at hrest
    rw [map_cons, map_cons, cons_append, numbered, evalRow, compareParam_append, behind, hcol]
    cases hsql : compareSQL (row key.1.name) key.2 with
    | eq => simp only [hrest, hne, holds_eq, decide_true, Bool.true_and, Bool.false_or]
    | lt | gt => simp [holds_eq]

theorem all_equalTerms (compareSQL : Value → Value → Ordering) (row : String → Value)
    (keys : Keys) (pre post : List Value) :
    (equalTerms (keys.map Prod.fst) pre.length).all
        (Comparison.eval compareSQL row (pre ++ (keys.map Prod.snd ++ post))) =
      keys.all fun key ↦ CompareOp.eq.holds (compareSQL (row key.1.name) key.2) := by
  induction keys generalizing pre with
  | nil => rfl
  | cons key keys ih =>
    have hrest := ih (pre ++ [key.2])
    rw [length_append, length_singleton, append_assoc, singleton_append, equalTerms] at hrest
    rw [map_cons, map_cons, cons_append, equalTerms, numbered, map_cons, all_cons, hrest, all_cons,
      Comparison.eval, compareParam_append]
    rfl

/-- The terms hold exactly if the columns before are equal and the row is behind in those that
follow. -/
theorem any_orTerms (compareSQL : Value → Value → Ordering) (row : String → Value)
    (before keys : Keys) (pre post : List Value) :
    (orTerms (before.map Prod.fst) (keys.map Prod.fst) pre.length).any (fun cs ↦
        cs.all (Comparison.eval compareSQL row
          (pre ++ (orArgs (before.map Prod.snd) (keys.map Prod.snd) ++ post)))) =
      ((before.all fun key ↦ CompareOp.eq.holds (compareSQL (row key.1.name) key.2)) &&
        behind compareSQL row keys) := by
  induction keys generalizing before pre with
  | nil => simp [orTerms, behind]
  | cons key keys ih =>
    have hrest := ih (before ++ [key]) (pre ++ (before.map Prod.snd ++ [key.2]))
    have hequal := all_equalTerms compareSQL row before pre
      (key.2 :: (orArgs (before.map Prod.snd ++ [key.2]) (keys.map Prod.snd) ++ post))
    have hcol := compareParam_append compareSQL row key.1.name (pre ++ before.map Prod.snd) key.2
      (orArgs (before.map Prod.snd ++ [key.2]) (keys.map Prod.snd) ++ post)
    simp only [length_append, length_singleton, length_map, append_assoc, singleton_append,
      map_append, map_singleton, all_append, all_cons, all_nil, Bool.and_true] at hrest hcol
    rw [map_cons, map_cons, orTerms, orArgs, any_cons, append_assoc, cons_append,
      all_append, hequal]
    simp only [all_cons, all_nil, Bool.and_true, Comparison.eval, length_map]
    rw [hcol, Nat.add_assoc, hrest, behind, Bool.and_or_distrib_left, Bool.and_assoc]
    rfl

theorem op_of_sameDirection {cols : List SortColumn} (h : sameDirection cols = true) :
    ∀ col ∈ cols, col.direction.op = ((cols.head?.map SortColumn.direction).getD .asc).op := by
  cases cols with
  | nil => exact fun col hcol ↦ absurd hcol not_mem_nil
  | cons =>
    simp only [sameDirection, List.all_eq_true, decide_eq_true_eq] at h
    refine List.forall_mem_cons.2 ⟨rfl, fun col hcol ↦ ?_⟩
    rw [h col hcol]
    rfl

theorem eval_keysetPredicate {keys : Keys} (hne : keys ≠ []) (pre post : List Value) :
    (keysetPredicate (keys.map Prod.fst) pre.length).eval compareSQL row
        (pre ++ (keysetArgs (keys.map Prod.fst) (keys.map Prod.snd) ++ post)) =
      behind compareSQL row keys := by
  have hstrict : ∀ dir : SortDir, dir.op.holds .eq = false := by
    intro dir
    rw [holds_op]
    split <;> rfl
  match keys with
  | [] => exact absurd rfl hne
  | [key] =>
    have hcol := compareParam_append compareSQL row key.1.name pre key.2 post
    simp only [map_singleton, keysetPredicate, Predicate.eval, Comparison.eval, keysetArgs,
      sameDirection, all_nil, if_true, singleton_append, hcol, map_some, getD_some, behind,
      Bool.and_false, Bool.or_false]
  | key :: key' :: keys =>
    rw [map_cons, map_cons, keysetPredicate, keysetArgs]
    split
    · next hsame =>
      exact evalRow_numbered (key :: key' :: keys) (op_of_sameDirection hsame) (hstrict _) pre post
    · exact any_orTerms compareSQL row [] (key :: key' :: keys) pre post
    · simp

/-- The placeholder `c` stands for the value of its column. -/
def Refers (keys : Keys) (args : List Value) (c : String × ℕ) : Prop :=
  ∃ key ∈ keys, key.1.name = c.1 ∧ 0 < c.2 ∧ args[c.2 - 1]? = some key.2

theorem Refers.mono {keys keys' : Keys} {args : List Value} {c : String × ℕ}
    (h : Refers keys args c) (hsub : keys ⊆ keys') : Refers keys' args c := by
  obtain ⟨key, hkey, hc⟩ := h
  exact ⟨key, hsub hkey, hc⟩

theorem refers_numbered (keys : Keys) (pre post : List Value) :
    ∀ c ∈ numbered (keys.map Prod.fst) pre.length,
      Refers keys (pre ++ (keys.map Prod.snd ++ post)) c := by
  induction keys generalizing pre with
  | nil => exact fun c hc ↦ absurd hc not_mem_nil
  | cons key keys ih =>
    have hrest := ih (pre ++ [key.2])
    rw [length_append, length_singleton, append_assoc, singleton_append] at hrest
    rw [map_cons, map_cons, numbered]
    refine forall_mem_cons.2 ⟨⟨key, mem_cons_self, rfl, Nat.succ_pos _, by simp⟩, ?_⟩
    intro c hc
    exact (hrest c hc).mono (subset_cons_self _ _)

theorem refers_orTerms (before keys : Keys) (pre post : List Value) :
    ∀ cs ∈ orTerms (before.map Prod.fst) (keys.map Prod.fst) pre.length, ∀ c ∈ cs,
      Refers (before ++ keys) (pre ++ (orArgs (before.map Prod.snd) (keys.map Prod.snd) ++ post))
        (c.column, c.param) := by
  induction keys generalizing before pre with
  | nil => exact fun cs hcs ↦ absurd hcs not_mem_nil
  | cons key keys ih =>
    have hrest := ih (before ++ [key]) (pre ++ (before.map Prod.snd ++ [key.2]))
    simp only [length_append, length_singleton, length_map, append_assoc, singleton_append,
      map_append, map_singleton] at hrest
    rw [map_cons, map_cons, orTerms, orArgs, append_assoc, cons_append, length_map]
    refine forall_mem_cons.2 ⟨fun c hc ↦ ?_, hrest⟩
    obtain hc | hc := mem_append.1 hc
    · obtain ⟨d, hd, rfl⟩ := mem_map.1 hc
      exact (refers_numbered before pre _ d hd).mono (subset_append_left _ _)
    · obtain rfl := mem_singleton.1 hc
      refine ⟨key, mem_append_right _ mem_cons_self, rfl, Nat.succ_pos _, ?_⟩
      simp [← append_assoc]

theorem refers_keysetPredicate (keys : Keys) (pre post : List Value) :
    ∀ c ∈ (keysetPredicate (keys.map Prod.fst) pre.length).placeholders,
      Refers keys (pre ++ (keysetArgs (keys.map Prod.fst) (keys.map Prod.snd) ++ post)) c := by
  match keys with
  | [] => exact fun c hc ↦ absurd hc not_mem_nil
  | [key] => exact refers_numbered [key] pre post
  | key :: key' :: keys =>
    rw [map_cons, map_cons, keysetPredicate, keysetArgs]
    split
    · exact refers_numbered (key :: key' :: keys) pre post
    · intro c hc
      obtain ⟨d, hd, rfl⟩ := mem_map.1 hc
      obtain ⟨cs, hcs, hd⟩ := mem_flatten.1 hd
      exact refers_orTerms [] (key :: key' :: keys) pre post cs hcs d hd
    · simp

theorem forM_checkColumn {cols : List SortColumn}
    (h : ∀ col ∈ cols, validColumnName col.name = true ∧
      (col.direction = .asc ∨ col.direction = .desc)) : cols.forM checkColumn = .ok () := by
  induction cols with
  | nil => rfl
  | cons col cols ih =>
    obtain ⟨⟨hname, hdir⟩, h⟩ := forall_mem_cons.1 h
    have hcol : checkColumn col = .ok () := by
      rw [checkColumn, hname]
      obtain hdir | hdir := hdir <;> rw [hdir] <;> rfl
    rw [List.forM, hcol]
    exact ih h

def tenantQuery : Builder := ⟨["SELECT id FROM t WHERE tenant_id = $1"], [.string [0x74]]⟩

def newestFirst : List SortColumn := [⟨"timestamp", .desc⟩, ⟨"id", .asc⟩]

/-- The parameter of a query against the column of a row. -/
def sqlOrder (tt : TimeText) (a b : Value) : Ordering := (compareKeys tt a b).getD .eq

def loginRow : String → Value
  | "timestamp" => .time 7
  | _ => .string [0x66]

end Semantics

end GoCell.Query
