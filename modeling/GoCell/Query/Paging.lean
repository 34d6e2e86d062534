import GoCell.Foundation.Float64
import GoCell.Foundation.Orders
import GoCell.Kernel.JsonTimes

namespace GoCell.Query

open Foundation Kernel List

def defaultPageSize : ℤ := 50

def maxPageSize : ℤ := 500

inductive SortDir
  | asc
  | desc
  | other (text : String) (h : text ≠ "ASC" ∧ text ≠ "DESC")
  deriving DecidableEq

def SortDir.text : SortDir → String
  | .asc => "ASC"
  | .desc => "DESC"
  | .other text _ => text

structure SortColumn where
  name : String
  direction : SortDir
  deriving DecidableEq

/-- A key of a cursor; `number` is a finite `float64` and `other` any other JSON that the decoder
returns. -/
inductive Value
  | string (s : Bytes)
  | int (n : ℤ)
  | number (x : ℚ)
  | time (t : Time)
  | other (raw : Bytes)
  deriving DecidableEq

structure PageParams where
  limit : ℤ
  cursor : Bytes
  deriving DecidableEq

def PageParams.normalize (p : PageParams) : PageParams :=
  let limit := if p.limit ≤ 0 then defaultPageSize else p.limit
  { p with limit := if maxPageSize < limit then maxPageSize else limit }

/-- The parameters of a fetch; `none` is the nil slice of the first page. -/
structure ListParams where
  limit : ℤ
  cursorValues : Option (List Value)
  sort : List SortColumn
  deriving DecidableEq

def ListParams.fetchLimit (p : ListParams) : ℤ := p.limit + 1

/-- How a call ends without a result: with an error, one without a code, or a panic for an index out
of range. -/
inductive Failure
  | err (e : Err)
  | plain (message : String)
  | panic
  deriving DecidableEq

def errCursorInvalid : Err :=
  ⟨.invalid, .cursorInvalid,
    "invalid cursor; restart from first page (client should discard stored cursor)", []⟩

def normalizeNumeric : Value → Value
  | .int n => .number (float64OfInt n)
  | v => v

/-- The comparisons of `CompareAny` behind `normalizeNumeric`. -/
def compareNormalized (tt : TimeText) : Value → Value → Except Failure Ordering
  | .string a, .string b => .ok (compare a b)
  | .string a, .time b =>
    match tt.parse a with
    | some t => .ok (compare t b)
    | none => .error (.err errCursorInvalid)
  | .number a, .number b => .ok (compare a b)
  | .time a, .time b => .ok (compare a b)
  | .time a, .string b =>
    match tt.parse b with
    | some t => .ok (compare a t)
    | none => .error (.err errCursorInvalid)
  | _, _ => .error (.err errCursorInvalid)

def compareAny (tt : TimeText) (a b : Value) : Except Failure Ordering :=
  compareNormalized tt (normalizeNumeric a) (normalizeNumeric b)

def SortDir.direct (d : SortDir) (o : Ordering) : Ordering := if d = .desc then o.swap else o

section

variable {T : Type}

def compareItems (compareField : T → T → String → Ordering) : List SortColumn → T → T → Ordering
  | [], _, _ => .eq
  | col :: cols, a, b =>
    (col.direction.direct (compareField a b col.name)).then (compareItems compareField cols a b)

def sortItems (sf : SortFunc) (items : List T) (cols : List SortColumn)
    (compareField : T → T → String → Ordering) : List T :=
  if cols = [] then items else sf.sort (compareItems compareField cols) items

/-- Whether an item is strictly after the cursor. The last column needs no case of its own: where it
is equal no column is left. -/
def afterCursor (tt : TimeText) (fieldValue : T → String → Value) (item : T) :
    List SortColumn → List Value → Except Failure Bool
  | [], _ => .ok false
  | _ :: _, [] => .error .panic
  | col :: cols, v :: vs =>
    match compareAny tt (fieldValue item col.name) v with
    | .error e => .error e
    | .ok .eq => afterCursor tt fieldValue item cols vs
    | .ok c => .ok (if col.direction = .desc then c = .lt else c = .gt)

def validateCursorParams (p : ListParams) : Except Failure Unit :=
  match p.cursorValues with
  | none => .ok ()
  | some vs => do
    require (p.sort ≠ []) (.err errCursorInvalid)
    require (vs.length = p.sort.length) (.err errCursorInvalid)

/-- The loop of `findCursorStart`: the number of items before the first one after the cursor. -/
def cursorStart (tt : TimeText) (fieldValue : T → String → Value) (cols : List SortColumn)
    (vs : List Value) : List T → Except Failure ℕ
  | [] => .ok 0
  | item :: items =>
    match afterCursor tt fieldValue item cols vs with
    | .error e => .error e
    | .ok true => .ok 0
    | .ok false => (cursorStart tt fieldValue cols vs items).map (· + 1)

def findCursorStart (tt : TimeText) (items : List T) (p : ListParams)
    (fieldValue : T → String → Value) : Except Failure ℕ :=
  match p.cursorValues with
  | none => .ok 0
  | some vs => cursorStart tt fieldValue p.sort vs items

def slice (items : List T) (lo hi : ℤ) : Except Failure (List T) :=
  if 0 ≤ lo ∧ lo ≤ hi ∧ hi ≤ items.length then
    .ok ((items.drop lo.toNat).take (hi - lo).toNat)
  else .error .panic

def applyCursor (tt : TimeText) (items : List T) (p : ListParams)
    (fieldValue : T → String → Value) : Except Failure (List T) := do
  validateCursorParams p
  let start ← findCursorStart tt items p fieldValue
  slice items start (min (start + p.fetchLimit) items.length)

theorem cursorStart_split {tt : TimeText} {fieldValue : T → String → Value}
    {cols : List SortColumn} {vs : List Value} {before rest : List T}
    (hbefore : ∀ x ∈ before, afterCursor tt fieldValue x cols vs = .ok false)
    (hrest : ∀ x ∈ rest, afterCursor tt fieldValue x cols vs = .ok true) :
    cursorStart tt fieldValue cols vs (before ++ rest) = .ok before.length := by
  induction before with
  | nil =>
    cases rest with
    | nil => rfl
    | cons x rest =>
      rw [nil_append, cursorStart, hrest x mem_cons_self]
      rfl
  | cons x before ih =>
    obtain ⟨hx, hbefore⟩ := forall_mem_cons.1 hbefore
    rw [cons_append, cursorStart, hx]
    simp only [ih hbefore, Except.map, length_cons]

theorem slice_fetch (before rest : List T) (n : ℕ) :
    slice (before ++ rest) before.length
        (min (before.length + (n + 1 : ℤ)) (before ++ rest).length) =
      .ok (rest.take (n + 1)) := by
  have hlen : (before ++ rest).length = before.length + rest.length := length_append
  rw [slice, if_pos (by omega), Int.toNat_natCast, drop_left]
  refine congrArg Except.ok ?_
  by_cases hn : n + 1 ≤ rest.length
  · have hsize : (min (before.length + (n + 1 : ℤ)) (before ++ rest).length - before.length).toNat =
        n + 1 := by omega
    rw [hsize]
  · have hsize : (min (before.length + (n + 1 : ℤ)) (before ++ rest).length - before.length).toNat =
        rest.length := by omega
    rw [hsize, take_length, take_of_length_le (by omega)]

end

end GoCell.Query
