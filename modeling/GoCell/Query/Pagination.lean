import GoCell.Foundation.Pages
import GoCell.Query.PagedQuery

namespace GoCell.Query

open Foundation Kernel List

structure Listing (T : Type) where
  items : List T
  sort : List SortColumn
  compareField : T → T → String → Ordering
  fieldValue : T → String → Value
  extract : T → Option (List Value)
  codec : CursorCodec
  queryCtx : Bytes
  runMode : RunMode

namespace Listing

section

variable {T : Type} (env : Env) (sf : SortFunc) (l : Listing T)

def sorted : List T := sortItems sf l.items l.sort l.compareField

def fetch (p : ListParams) : Except Failure (List T) :=
  applyCursor env.times (sortItems sf l.items p.sort l.compareField) p l.fieldValue

def page (limit : ℤ) (token : Bytes) : Except Failure (PageResult T) :=
  executePagedQuery env
    { codec := l.codec
      pageParams := ⟨limit, token⟩
      sort := l.sort
      queryCtx := l.queryCtx
      fetch := l.fetch env sf
      extract := l.extract
      runMode := l.runMode }

def cursor (x : T) : Cursor := ⟨l.extract x, sortScope env l.sort, l.queryCtx⟩

end

end Listing

def PageResult.next {T : Type} (p : PageResult T) : Option Bytes :=
  if p.hasMore then some p.nextCursor else none

def pageSize (limit : ℤ) : ℕ := (PageParams.normalize ⟨limit, []⟩).limit.toNat

/-- A column whose keys are strings or whose keys are times, and which is sorted as `CompareAny`
compares. -/
structure KeyColumn {T : Type} (tt : TimeText) (l : Listing T) (name : String) : Prop where
  compare : ∀ a ∈ l.items, ∀ b ∈ l.items,
    compareAny tt (l.fieldValue a name) (l.fieldValue b name) = .ok (l.compareField a b name)
  keys : (∀ a ∈ l.items, ∃ s, l.fieldValue a name = .string s ∧ utf8Valid s = true) ∨
    ∀ a ∈ l.items, ∃ t, l.fieldValue a name = .time t ∧ inYears t = true

/-- What an endpoint has to provide: keys in every column, the ones of the last column distinct, and
the same keys for the cursor, where a time may be formatted already. -/
structure Listing.WellKeyed {T : Type} (env : Env) (l : Listing T) : Prop where
  columns : ∀ col ∈ l.sort, KeyColumn env.times l col.name
  distinct : ∃ last, l.sort.getLast? = some last ∧
    (l.items.map fun x ↦ l.fieldValue x last.name).Nodup
  extracts : ∀ x ∈ l.items, ∃ vs, l.extract x = some vs ∧
    List.Forall₂ (fun v (col : SortColumn) ↦ v = l.fieldValue x col.name ∨
      v = (l.fieldValue x col.name).wire env.times) vs l.sort
  context : l.queryCtx ≠ [] ∧ utf8Valid l.queryCtx = true

variable {cols : List SortColumn}

section

variable {T : Type} {tt : TimeText} {l : Listing T}

theorem pageSize_pos (limit : ℤ) : 0 < pageSize limit := by
  simp only [pageSize, PageParams.normalize, defaultPageSize, maxPageSize]
  split <;> split <;> omega

theorem normalize_eq (limit : ℤ) (token : Bytes) :
    PageParams.normalize ⟨limit, token⟩ = ⟨pageSize limit, token⟩ := by
  simp only [pageSize, PageParams.normalize, defaultPageSize, maxPageSize, PageParams.mk.injEq,
    and_true]
  split <;> split <;> omega

theorem compareAny_wire {name : String} (h : KeyColumn tt l name) {a b : T} (ha : a ∈ l.items)
    (hb : b ∈ l.items) :
    compareAny tt (l.fieldValue a name) ((l.fieldValue b name).wire tt) =
      .ok (l.compareField a b name) := by
  rw [← h.compare a ha b hb]
  obtain hkeys | hkeys := h.keys
  · obtain ⟨s, hs, -⟩ := hkeys b hb
    rw [hs, Value.wire]
    exact fun t ht ↦ by cases ht
  · obtain ⟨t, ht, hyears⟩ := hkeys b hb
    obtain ⟨u, hu, -⟩ := hkeys a ha
    rw [ht, hu]
    simp only [Value.wire, compareAny, normalizeNumeric, compareNormalized,
      tt.parse_format t hyears]

theorem afterCursor_wire {x y : T} (hx : x ∈ l.items) (hy : y ∈ l.items)
    (hcols : ∀ col ∈ cols, KeyColumn tt l col.name) :
    afterCursor tt l.fieldValue y cols
        (cols.map fun col ↦ (l.fieldValue x col.name).wire tt) =
      .ok (compareItems l.compareField cols y x = .gt) := by
  induction cols with
  | nil => rfl
  | cons col cols ih =>
    obtain ⟨hcol, hcols⟩ := forall_mem_cons.1 hcols
    have hany := compareAny_wire hcol hy hx
    cases hfield : l.compareField y x col.name with
    | eq =>
      rw [hfield] at hany
      simp only [map_cons, afterCursor, hany, ih hcols, compareItems, SortDir.direct, hfield,
        Ordering.swap_eq, ite_self, Ordering.then]
    | lt | gt =>
      rw [hfield] at hany
      simp only [map_cons, afterCursor, hany, compareItems, SortDir.direct, hfield]
      split <;> rfl

def Value.text : Value → Bytes
  | .string s => s
  | _ => []

def Value.instant : Value → Time
  | .time t => t
  | _ => 0

theorem KeyColumn.transCmp {name : String} (h : KeyColumn tt l name) :
    ∃ cmp : T → T → Ordering, Std.TransCmp cmp ∧
      ∀ a ∈ l.items, ∀ b ∈ l.items, l.compareField a b name = cmp a b := by
  obtain hkeys | hkeys := h.keys
  · refine ⟨compareOn fun x ↦ (l.fieldValue x name).text, inferInstance, fun a ha b hb ↦ ?_⟩
    obtain ⟨s, hs, -⟩ := hkeys a ha
    obtain ⟨u, hu, -⟩ := hkeys b hb
    have hcompare := h.compare a ha b hb
    rw [hs, hu] at hcompare
    simp only [compareOn, Value.text, hs, hu]
    exact (Except.ok.inj hcompare).symm
  · refine ⟨compareOn fun x ↦ (l.fieldValue x name).instant, inferInstance, fun a ha b hb ↦ ?_⟩
    obtain ⟨s, hs, -⟩ := hkeys a ha
    obtain ⟨u, hu, -⟩ := hkeys b hb
    have hcompare := h.compare a ha b hb
    rw [hs, hu] at hcompare
    simp only [compareOn, Value.instant, hs, hu]
    exact (Except.ok.inj hcompare).symm

theorem compareItems_transCmp (hcols : ∀ col ∈ cols, KeyColumn tt l col.name) :
    ∃ cmp : T → T → Ordering, Std.TransCmp cmp ∧
      ∀ a ∈ l.items, ∀ b ∈ l.items, compareItems l.compareField cols a b = cmp a b := by
  induction cols with
  | nil => exact ⟨compareOn fun _ ↦ 0, inferInstance, fun a _ b _ ↦ rfl⟩
  | cons col cols ih =>
    obtain ⟨hcol, hcols⟩ := forall_mem_cons.1 hcols
    obtain ⟨cmp, htrans, hcmp⟩ := hcol.transCmp
    obtain ⟨cmps, htranss, hcmps⟩ := ih hcols
    by_cases hdesc : col.direction = .desc
    · refine ⟨compareLex (fun a b ↦ cmp b a) cmps, inferInstance, fun a ha b hb ↦ ?_⟩
      rw [compareItems, SortDir.direct, if_pos hdesc, hcmp a ha b hb, hcmps a ha b hb,
        ← Std.OrientedCmp.eq_swap]
      rfl
    · refine ⟨compareLex cmp cmps, inferInstance, fun a ha b hb ↦ ?_⟩
      rw [compareItems, SortDir.direct, if_neg hdesc, hcmp a ha b hb, hcmps a ha b hb]
      rfl

theorem compareField_of_compareItems_eq {cf : T → T → String → Ordering}
    {a b : T} (h : compareItems cf cols a b = .eq) : ∀ col ∈ cols, cf a b col.name = .eq := by
  induction cols with
  | nil => exact fun col hcol ↦ absurd hcol not_mem_nil
  | cons col cols ih =>
    rw [compareItems, Ordering.then_eq_eq] at h
    refine forall_mem_cons.2 ⟨?_, ih h.2⟩
    have hfirst := h.1
    unfold SortDir.direct at hfirst
    split at hfirst
    · exact Ordering.swap_eq_eq.1 hfirst
    · exact hfirst

theorem KeyColumn.eq_of_compareField {name : String} (h : KeyColumn tt l name) {a b : T}
    (ha : a ∈ l.items) (hb : b ∈ l.items) (heq : l.compareField a b name = .eq) :
    l.fieldValue a name = l.fieldValue b name := by
  have hcompare := h.compare a ha b hb
  rw [heq] at hcompare
  obtain hkeys | hkeys := h.keys
  · obtain ⟨s, hs, -⟩ := hkeys a ha
    obtain ⟨u, hu, -⟩ := hkeys b hb
    rw [hs, hu] at hcompare ⊢
    rw [Std.LawfulEqOrd.eq_of_compare (Except.ok.inj hcompare)]
  · obtain ⟨s, hs, -⟩ := hkeys a ha
    obtain ⟨u, hu, -⟩ := hkeys b hb
    rw [hs, hu] at hcompare ⊢
    rw [Std.LawfulEqOrd.eq_of_compare (Except.ok.inj hcompare)]

theorem Listing.WellKeyed.sorted_lt {env : Env} (h : l.WellKeyed env) (sf : SortFunc) :
    (l.sorted sf).Perm l.items ∧
      (l.sorted sf).Pairwise fun a b ↦ compareItems l.compareField l.sort a b = .lt := by
  obtain ⟨last, hlast, hnodup⟩ := h.distinct
  have hmem := mem_of_getLast? hlast
  have hsorted : l.sorted sf = sf.sort (compareItems l.compareField l.sort) l.items :=
    if_neg (ne_nil_of_mem hmem)
  obtain ⟨cmp, htrans, hcmp⟩ := compareItems_transCmp h.columns
  have hapart : l.items.Pairwise fun a b ↦ compareItems l.compareField l.sort a b ≠ .eq := by
    rw [List.Nodup, pairwise_map] at hnodup
    refine hnodup.imp_of_mem fun {a b} ha hb hne heq ↦ hne ?_
    have hfield := compareField_of_compareItems_eq heq last hmem
    exact (h.columns last hmem).eq_of_compareField ha hb hfield
  rw [hsorted]
  exact ⟨sf.perm _ _, sf.sorted_lt (weakOrderOn_of_transCmp hcmp) hapart⟩

theorem wire_wire (tt : TimeText) (v : Value) : (v.wire tt).wire tt = v.wire tt := by
  cases v <;> rfl

theorem KeyColumn.encodable {env : Env} {name : String} (h : KeyColumn env.times l name) {x : T}
    (hx : x ∈ l.items) {v : Value}
    (hv : v = l.fieldValue x name ∨ v = (l.fieldValue x name).wire env.times) :
    v.IsKey ∧ (v.marshal env).isSome = true := by
  obtain hkeys | hkeys := h.keys
  · obtain ⟨s, hs, hvalid⟩ := hkeys x hx
    rw [hs, Value.wire, or_self] at hv
    · subst hv
      exact ⟨hvalid, rfl⟩
    · exact fun t ht ↦ by cases ht
  · obtain ⟨t, ht, hyears⟩ := hkeys x hx
    rw [ht] at hv
    obtain rfl | rfl := hv
    · exact ⟨trivial, by simp [Value.marshal, timeText, hyears]⟩
    · exact ⟨utf8Valid_of_ascii (env.times_ascii t hyears), rfl⟩

theorem extracted_wire {env : Env} {x : T} (hx : x ∈ l.items) {vs : List Value}
    (hcols : ∀ col ∈ cols, KeyColumn env.times l col.name)
    (h : List.Forall₂ (fun v (col : SortColumn) ↦ v = l.fieldValue x col.name ∨
      v = (l.fieldValue x col.name).wire env.times) vs cols) :
    vs.map (Value.wire env.times) = cols.map (fun col ↦ (l.fieldValue x col.name).wire env.times) ∧
      ∀ v ∈ vs, v.IsKey ∧ (v.marshal env).isSome = true := by
  induction h with
  | nil => exact ⟨rfl, fun v hv ↦ absurd hv not_mem_nil⟩
  | @cons v col vs cols hv _ ih =>
    obtain ⟨hcol, hcols⟩ := forall_mem_cons.1 hcols
    obtain ⟨hmap, hkeys⟩ := ih hcols
    refine ⟨?_, forall_mem_cons.2 ⟨hcol.encodable hx hv, hkeys⟩⟩
    rw [map_cons, map_cons, hmap]
    obtain rfl | rfl := hv
    · rfl
    · rw [wire_wire]

theorem mapM_isSome {α β : Type} {f : α → Option β} {as : List α}
    (h : ∀ a ∈ as, (f a).isSome = true) : (as.mapM f).isSome = true := by
  induction as with
  | nil => rfl
  | cons a as ih =>
    obtain ⟨ha, has⟩ := forall_mem_cons.1 h
    obtain ⟨b, hb⟩ := Option.isSome_iff_exists.1 ha
    obtain ⟨bs, hbs⟩ := Option.isSome_iff_exists.1 (ih has)
    rw [mapM_cons, hb, hbs]
    rfl

theorem Listing.WellKeyed.token {env : Env} (h : l.WellKeyed env) {x : T} (hx : x ∈ l.items) :
    ∃ token, l.codec.encode env (l.cursor env x) = .ok token ∧ token ≠ [] ∧
      (token.length ≤ maxCursorTokenBytes → ∃ cur, l.codec.decode env token = .ok cur ∧
          validateCursorScope env cur l.sort l.queryCtx = .ok () ∧
          cur.values = some (l.sort.map fun col ↦ (l.fieldValue x col.name).wire env.times)) := by
  obtain ⟨vs, hvs, hextract⟩ := h.extracts x hx
  obtain ⟨hwire, hkeys⟩ := extracted_wire hx h.columns hextract
  have hvalues : ∀ vs' ∈ (l.cursor env x).values, ∀ v ∈ vs', v.IsKey := by
    intro vs' hvs'
    rw [Listing.cursor, hvs] at hvs'
    cases hvs'
    exact fun v hv ↦ (hkeys v hv).1
  obtain ⟨texts, htexts⟩ := Option.isSome_iff_exists.1 (mapM_isSome fun v hv ↦ (hkeys v hv).2)
  obtain ⟨token, htoken⟩ : ∃ token, l.codec.encode env (l.cursor env x) = .ok token := by
    simp [CursorCodec.encode, Cursor.marshal, marshalValues, Listing.cursor, hvs, htexts]
  obtain ⟨payload, hpayload, -⟩ := encode_eq_ok htoken
  have hlength := length_encode hpayload htoken
  refine ⟨token, htoken, ?_, fun hsize ↦ ?_⟩
  · rintro rfl
    rw [length_nil] at hlength
    omega
  · have hdecode := decode_encode hvalues htoken
    rw [if_pos hsize] at hdecode
    have hctx : toValidUTF8 l.queryCtx = l.queryCtx := toValidUTF8_eq_iff.2 h.context.2
    refine ⟨_, hdecode, validateCursorScope_ok_iff.2 ⟨?_, hctx, ?_⟩, ?_⟩
    · rw [Listing.cursor, hctx]
      exact h.context.1
    · simp only [Listing.cursor, hvs, Option.map_some, Option.getD_some, length_map]
      exact hextract.length_eq
    · simp only [Listing.cursor, hvs, Option.map_some, hwire]

section Pages

variable {env : Env} {sf : SortFunc} {before rest : List T}

theorem fetch_first (env : Env) (hsorted : l.sorted sf = rest) (n : ℕ) :
    l.fetch env sf ⟨n, none, l.sort⟩ = .ok (rest.take (n + 1)) := by
  have hslice := slice_fetch [] rest n
  rw [nil_append, length_nil, ← hsorted] at hslice
  rw [← hsorted]
  exact hslice

theorem fetch_after (h : l.WellKeyed env) {x : T} (hsorted : l.sorted sf = (before ++ [x]) ++ rest)
    (n : ℕ) :
    l.fetch env sf
        ⟨n, some (l.sort.map fun col ↦ (l.fieldValue x col.name).wire env.times), l.sort⟩ =
      .ok (rest.take (n + 1)) := by
  obtain ⟨hperm, hlt⟩ := h.sorted_lt sf
  have hmem : ∀ y ∈ l.sorted sf, y ∈ l.items := fun y hy ↦ hperm.mem_iff.1 hy
  obtain ⟨cmp, htrans, hcmp⟩ := compareItems_transCmp h.columns
  have hweak := weakOrderOn_of_transCmp hcmp
  rw [hsorted] at hmem hlt
  have hx : x ∈ l.items := hmem x (by simp)
  rw [pairwise_append, pairwise_append] at hlt
  obtain ⟨⟨-, -, hbefore⟩, -, hrest⟩ := hlt
  have hafter : ∀ y ∈ rest, afterCursor env.times l.fieldValue y l.sort
      (l.sort.map fun col ↦ (l.fieldValue x col.name).wire env.times) = .ok true := by
    intro y hy
    have hyx := hweak.swap x hx y (hmem y (by simp [hy]))
    rw [hrest x (by simp) y hy] at hyx
    rw [afterCursor_wire hx (hmem y (by simp [hy])) h.columns, hyx]
    rfl
  have hnot : ∀ y ∈ before ++ [x], afterCursor env.times l.fieldValue y l.sort
      (l.sort.map fun col ↦ (l.fieldValue x col.name).wire env.times) = .ok false := by
    intro y hy
    rw [afterCursor_wire hx (hmem y (mem_append_left rest hy)) h.columns]
    obtain hy | hy := mem_append.1 hy
    · rw [hbefore y hy x (by simp)]
      rfl
    · rw [mem_singleton.1 hy, hweak.refl hx]
      rfl
  have hstart := cursorStart_split hnot hafter
  obtain ⟨last, hlast, -⟩ := h.distinct
  have hne : l.sort ≠ [] := ne_nil_of_mem (mem_of_getLast? hlast)
  unfold Listing.fetch applyCursor
  rw [show sortItems sf l.items l.sort l.compareField = l.sorted sf from rfl, hsorted]
  simp only [validateCursorParams, findCursorStart, hstart, hne, length_map, require,
    decide_true, if_true, ne_eq, not_false_eq_true, bind, Except.bind]
  exact slice_fetch (before ++ [x]) rest n

theorem buildPageResult_take (h : l.WellKeyed env) (hrest : ∀ x ∈ rest, x ∈ l.items) {n : ℕ}
    (hn : 0 < n) :
    ∃ p, buildPageResult env (rest.take (n + 1)) n l.codec l.sort l.queryCtx l.extract = .ok p ∧
      p.items = rest.take n ∧
      (n < rest.length → ∃ init x, rest.take n = init ++ [x] ∧ p.hasMore = true ∧
        l.codec.encode env (l.cursor env x) = .ok p.nextCursor) ∧
      (rest.length ≤ n → p.hasMore = false) := by
  unfold buildPageResult
  by_cases hlt : n < rest.length
  · have hlength : (rest.take (n + 1)).length = n + 1 := by
      rw [length_take]
      omega
    have hslice : slice (rest.take (n + 1)) 0 n = .ok (rest.take n) := by
      rw [slice, if_pos (by omega)]
      simp [take_take]
    have hne : rest.take n ≠ [] := by
      rw [ne_eq, take_eq_nil_iff]
      rintro (hzero | rfl)
      · omega
      · simp at hlt
    obtain ⟨init, x, hinit⟩ : ∃ init x, rest.take n = init ++ [x] :=
      ⟨_, _, (dropLast_append_getLast hne).symm⟩
    have hx : x ∈ l.items := hrest x (mem_of_mem_take (by rw [hinit]; simp))
    obtain ⟨token, htoken, -⟩ := h.token hx
    refine ⟨⟨rest.take n, token, true⟩, ?_, rfl, fun _ ↦ ⟨init, x, hinit, rfl, htoken⟩,
      fun hle ↦ by omega⟩
    rw [Listing.cursor] at htoken
    rw [if_pos (by omega), hslice]
    simp only [bind, Except.bind, hinit, getLast?_concat, htoken]
    rfl
  · have htake : rest.take (n + 1) = rest := take_of_length_le (by omega)
    rw [htake, if_neg (by omega)]
    have hitems : rest.take n = rest := take_of_length_le (by omega)
    exact ⟨_, rfl, hitems.symm, fun hlt' ↦ absurd hlt' hlt, fun _ ↦ rfl⟩

def Listing.At (env : Env) (sf : SortFunc) (l : Listing T) (token : Bytes) (rest : List T) : Prop :=
  token = [] ∧ l.sorted sf = rest ∨ ∃ before x, l.sorted sf = (before ++ [x]) ++ rest ∧
      l.codec.encode env (l.cursor env x) = .ok token

theorem page_at (h : l.WellKeyed env)
    (hsize : ∀ x ∈ l.items, ∀ token, l.codec.encode env (l.cursor env x) = .ok token →
      token.length ≤ maxCursorTokenBytes)
    {token : Bytes} (hat : l.At env sf token rest) (limit : ℤ) :
    l.page env sf limit token = buildPageResult env (rest.take (pageSize limit + 1))
      (pageSize limit) l.codec l.sort l.queryCtx l.extract := by
  obtain ⟨rfl, hsorted⟩ | ⟨before, x, hsorted, htoken⟩ := hat
  · have hfetch := fetch_first env hsorted (pageSize limit)
    simp only [Listing.page, executePagedQuery, normalize_eq, resolveCursor, if_true, bind,
      Except.bind, fetchPage, hfetch]
  · have hx : x ∈ l.items := (h.sorted_lt sf).1.mem_iff.1 (by rw [hsorted]; simp)
    have hfetch := fetch_after h hsorted (pageSize limit)
    obtain ⟨token', htoken', hne, hdecodes⟩ := h.token hx
    rw [htoken] at htoken'
    cases htoken'
    obtain ⟨cur, hdecode, hscope, hvalues⟩ := hdecodes (hsize x hx token htoken)
    simp only [Listing.page, executePagedQuery, normalize_eq, resolveCursor, hne, if_false, hdecode,
      hscope, hvalues, bind, Except.bind, pure, Except.pure, fetchPage, hfetch]

/-- Following the tokens from the first page on yields the sorted collection, page by page. -/
theorem pages_complete (h : l.WellKeyed env)
    (hsize : ∀ x ∈ l.items, ∀ token, l.codec.encode env (l.cursor env x) = .ok token →
      token.length ≤ maxCursorTokenBytes) (limit : ℤ) :
    (l.sorted sf).Perm l.items ∧
      (l.sorted sf).Pairwise (fun a b ↦ compareItems l.compareField l.sort a b = .lt) ∧
      ∃ pages last, Follows (l.page env sf limit) PageResult.next [] (pages ++ [last]) ∧
        (pages ++ [last]).flatMap PageResult.items = l.sorted sf ∧
        (∀ p ∈ pages, p.hasMore = true ∧ p.items.length = pageSize limit) ∧
        last.hasMore = false ∧ (pages ≠ [] → last.items ≠ []) := by
  obtain ⟨hperm, hlt⟩ := h.sorted_lt sf
  have hpage : ∀ token rest, l.At env sf token rest → ∃ p,
      l.page env sf limit token = .ok p ∧ p.items = rest.take (pageSize limit) ∧
      (pageSize limit < rest.length →
        ∃ token', p.next = some token' ∧ l.At env sf token' (rest.drop (pageSize limit))) ∧
      (rest.length ≤ pageSize limit → p.next = none) := by
    intro token rest hat
    have hrest : ∀ x ∈ rest, x ∈ l.items := by
      intro x hx
      refine hperm.mem_iff.1 ?_
      obtain ⟨-, hsorted⟩ | ⟨before, y, hsorted, -⟩ := hat
      · rwa [hsorted]
      · rw [hsorted]
        exact mem_append_right _ hx
    have hquery := page_at h hsize hat limit
    obtain ⟨p, hp, hitems, hmore, hlast⟩ := buildPageResult_take h hrest (pageSize_pos limit)
    refine ⟨p, hquery.trans hp, hitems, fun hlong ↦ ?_, fun hshort ↦ ?_⟩
    · obtain ⟨init, x, hinit, hhas, htoken⟩ := hmore hlong
      refine ⟨p.nextCursor, by rw [PageResult.next, if_pos hhas], .inr ?_⟩
      have hsplit : rest = (init ++ [x]) ++ rest.drop (pageSize limit) := by
        rw [← hinit, take_append_drop]
      obtain ⟨-, hsorted⟩ | ⟨before, y, hsorted, -⟩ := hat
      · exact ⟨init, x, hsorted.trans hsplit, htoken⟩
      · refine ⟨before ++ [y] ++ init, x, ?_, htoken⟩
        rw [hsorted, append_assoc (before ++ [y]) init, append_assoc (before ++ [y]), ← hsplit]
    · rw [PageResult.next, hlast hshort]
      rfl
  obtain ⟨pages, last, hfollows, hconcat, hpages, hlast, hne⟩ :=
    follows_pages (pageSize_pos limit) hpage (.inl ⟨rfl, rfl⟩ : l.At env sf [] (l.sorted sf))
  refine ⟨hperm, hlt, pages, last, hfollows, hconcat, fun p hp ↦ ?_, ?_, hne⟩
  · obtain ⟨hnext, hlength⟩ := hpages p hp
    refine ⟨?_, hlength⟩
    by_contra hfalse
    simp [PageResult.next, hfalse] at hnext
  · by_contra htrue
    simp [PageResult.next, htrue] at hlast

end Pages

section Devices

def Device.field (d : Device) (name : String) : Value :=
  if name = "name" then .string d.name else if name = "id" then .string d.id else .string []

def Device.compareField (a b : Device) (name : String) : Ordering :=
  if name = "name" then compare a.name b.name
  else if name = "id" then compare a.id b.id
  else .eq

def deviceList : Listing Device where
  items := [lamp, door]
  sort := deviceSort
  compareField := Device.compareField
  fieldValue := Device.field
  extract := Device.extract
  codec := sampleCodec
  queryCtx := deviceContext
  runMode := .prod

theorem deviceList_wellKeyed : deviceList.WellKeyed sampleEnv where
  columns col hcol := by
    have hvalid : ∀ d ∈ deviceList.items, utf8Valid d.name = true ∧ utf8Valid d.id = true := by
      decide +kernel
    obtain rfl | rfl : col = ⟨"name", .asc⟩ ∨ col = ⟨"id", .asc⟩ := by
      simpa [deviceList, deviceSort] using hcol
    · exact ⟨fun a _ b _ ↦ rfl, .inl fun a ha ↦ ⟨_, rfl, (hvalid a ha).1⟩⟩
    · exact ⟨fun a _ b _ ↦ rfl, .inl fun a ha ↦ ⟨_, rfl, (hvalid a ha).2⟩⟩
  distinct := ⟨⟨"id", .asc⟩, rfl, by decide⟩
  extracts x _ := ⟨_, rfl, .cons (.inl rfl) (.cons (.inl rfl) .nil)⟩
  context := by decide +kernel

theorem pages_complete_devices :
    deviceList.sorted insertionSorting = [door, lamp] ∧ ∃ pages last,
        Follows (deviceList.page sampleEnv insertionSorting 1) PageResult.next []
          (pages ++ [last]) ∧
        (pages ++ [last]).flatMap PageResult.items = [door, lamp] ∧ last.hasMore = false := by
  have hsorted : deviceList.sorted insertionSorting = [door, lamp] := by decide +kernel
  have hsize : ∀ x ∈ deviceList.items, ∀ token,
      deviceList.codec.encode sampleEnv (deviceList.cursor sampleEnv x) = .ok token →
        token.length ≤ maxCursorTokenBytes := by
    intro x hx token htoken
    have hencode := (encode_device x).symm.trans htoken
    have htokens : ∀ x ∈ [lamp, door], (deviceToken x).length ≤ maxCursorTokenBytes := by
      decide +kernel
    exact Except.ok.inj hencode ▸ htokens x hx
  obtain ⟨-, -, pages, last, hfollows, hconcat, -, hlast, -⟩ :=
    @pages_complete Device deviceList sampleEnv insertionSorting deviceList_wellKeyed hsize 1
  exact ⟨hsorted, pages, last, hfollows, hconcat.trans hsorted, hlast⟩

end Devices

end

end GoCell.Query
