import GoCell.Query.Cursor

namespace GoCell.Query

open Foundation Kernel List

structure PageResult (T : Type) where
  items : List T
  nextCursor : Bytes
  hasMore : Bool
  deriving DecidableEq

inductive RunMode
  | prod
  | demo
  deriving DecidableEq

def RunMode.isDemo : RunMode → Bool
  | .prod => false
  | .demo => true

structure PagedQueryConfig (T : Type) where
  codec : CursorCodec
  pageParams : PageParams
  sort : List SortColumn
  queryCtx : Bytes
  fetch : ListParams → Except Failure (List T)
  extract : T → Option (List Value)
  runMode : RunMode

section

variable (env : Env) {T : Type}

def buildPageResult (items : List T) (limit : ℤ) (codec : CursorCodec) (sort : List SortColumn)
    (queryCtx : Bytes) (extractCursor : T → Option (List Value)) :
    Except Failure (PageResult T) :=
  if limit < items.length then do
    let items ← slice items 0 limit
    match items.getLast? with
    | some last =>
      let token ← codec.encode env ⟨extractCursor last, sortScope env sort, queryCtx⟩
      return ⟨items, token, true⟩
    | none => return ⟨items, [], true⟩
  else return ⟨items, [], false⟩

variable (cfg : PagedQueryConfig T)

/-- The values for the fetch, or `none` to fall back to the first page. -/
def resolveCursor : Except Failure (Option (Option (List Value))) :=
  if cfg.pageParams.cursor = [] then .ok (some none)
  else
    match cfg.codec.decode env cfg.pageParams.cursor with
    | .error e => if cfg.runMode.isDemo then .ok none else .error e
    | .ok cur => do
      validateCursorScope env cur cfg.sort cfg.queryCtx
      return some cur.values

def fetchPage (cursorValues : Option (List Value)) : Except Failure (PageResult T) := do
  let items ← cfg.fetch ⟨cfg.pageParams.limit, cursorValues, cfg.sort⟩
  buildPageResult env items cfg.pageParams.limit cfg.codec cfg.sort cfg.queryCtx cfg.extract

def fetchFirstPage : Except Failure (PageResult T) := fetchPage env cfg none

def executePagedQuery : Except Failure (PageResult T) := do
  let cfg := { cfg with pageParams := cfg.pageParams.normalize }
  match ← resolveCursor env cfg with
  | none => fetchFirstPage env cfg
  | some cursorValues => fetchPage env cfg cursorValues

end

def PageResult.Usable {T : Type} (env : Env) (codec : CursorCodec) (sort : List SortColumn)
    (queryCtx : Bytes) (extract : T → Option (List Value)) (page : PageResult T) : Prop :=
  ∃ last cur, page.items.getLast? = some last ∧ codec.decode env page.nextCursor = .ok cur ∧
    validateCursorScope env cur sort queryCtx = .ok () ∧
    cur.values = (extract last).map (List.map (Value.wire env.times))

section

variable {env : Env} {T : Type} {items : List T} {limit : ℤ} {codec : CursorCodec}
  {sort : List SortColumn} {queryCtx : Bytes} {extract : T → Option (List Value)}
  {page : PageResult T}

theorem buildPageResult_more
    (h : buildPageResult env items limit codec sort queryCtx extract = .ok page)
    (hmore : page.hasMore = true) :
    0 ≤ limit ∧ limit < items.length ∧ page.items = items.take limit.toNat ∧
      (limit = 0 ∧ page.nextCursor = [] ∨ ∃ last, page.items.getLast? = some last ∧
        codec.encode env ⟨extract last, sortScope env sort, queryCtx⟩ = .ok page.nextCursor) := by
  unfold buildPageResult at h
  split at h
  · next hlt =>
    obtain ⟨visible, hslice, h⟩ := bind_ok.1 h
    unfold slice at hslice
    split at hslice
    · next hbounds =>
      have hvisible : visible = items.take limit.toNat := by
        simpa using (Except.ok.inj hslice).symm
      refine ⟨hbounds.2.1, hlt, ?_⟩
      split at h
      · next last hlast =>
        obtain ⟨token, htoken, h⟩ := bind_ok.1 h
        cases h
        exact ⟨hvisible, .inr ⟨last, hlast, htoken⟩⟩
      · next hlast =>
        cases h
        refine ⟨hvisible, .inl ⟨?_, rfl⟩⟩
        rw [getLast?_eq_none_iff, hvisible, take_eq_nil_iff] at hlast
        obtain hzero | rfl := hlast
        · omega
        · simp only [length_nil] at hlt
          omega
    · cases hslice
  · cases h
    cases hmore

/-- A token is usable exactly when the page is not empty, the query context is one, the keys of its
last item match the columns, and these keys and the context have at most 2973 bytes as JSON. -/
theorem nextCursor_usable_iff (hkeys : ∀ item ∈ items, ∀ vs ∈ extract item, ∀ v ∈ vs, v.IsKey)
    (hpage : buildPageResult env items limit codec sort queryCtx extract = .ok page)
    (hmore : page.hasMore = true) :
    page.Usable env codec sort queryCtx extract ↔
      0 < limit ∧ queryCtx ≠ [] ∧ utf8Valid queryCtx = true ∧
      ∀ last, (items.take limit.toNat).getLast? = some last →
        ((extract last).getD []).length = sort.length ∧
        keysLength env (extract last) + (quote queryCtx).length ≤ 2973 := by
  obtain ⟨hnonneg, hlt, hitems, ⟨hzero, hcursor⟩ | ⟨last, hlast, htoken⟩⟩ :=
    buildPageResult_more hpage hmore
  · constructor
    · rintro ⟨last, cur, hlast, -⟩
      rw [hitems, hzero] at hlast
      cases hlast
    · intro h
      omega
  · have hmem : last ∈ items := by
      have hlast := mem_of_getLast? hlast
      rw [hitems] at hlast
      exact mem_of_mem_take hlast
    have hpos : 0 < limit := by
      by_contra hle
      obtain rfl : limit = 0 := by omega
      rw [hitems] at hlast
      cases hlast
    have hdecode := decode_encode (hkeys last hmem) htoken
    have hfits : page.nextCursor.length ≤ maxCursorTokenBytes ↔
        keysLength env (extract last) + (quote queryCtx).length ≤ 2973 := by
      rw [length_encode_le_iff htoken]
      dsimp only
      rw [sortScope, length_quote_fingerprint]
      omega
    rw [← hitems]
    constructor
    · rintro ⟨last', cur, hlast', hcur, hscope, -⟩
      rw [hdecode] at hcur
      split at hcur
      · next hsize =>
        cases hcur
        obtain ⟨hne, hctx, hcount⟩ := validateCursorScope_ok_iff.1 hscope
        have hvalid := toValidUTF8_eq_iff.1 hctx
        refine ⟨hpos, hctx ▸ hne, hvalid, fun l hl ↦ ?_⟩
        rw [hlast] at hl
        cases hl
        refine ⟨?_, hfits.1 hsize⟩
        rw [← hcount]
        cases extract last <;> simp
      · cases hcur
    · rintro ⟨-, hne, hvalid, hkeys⟩
      obtain ⟨hcount, hsize⟩ := hkeys last hlast
      rw [if_pos (hfits.2 hsize)] at hdecode
      refine ⟨last, _, hlast, hdecode, validateCursorScope_ok_iff.2 ?_, rfl⟩
      rw [toValidUTF8_eq_iff.2 hvalid]
      refine ⟨hne, rfl, ?_⟩
      rw [← hcount]
      cases extract last <;> simp

end

section Devices

def checksumBytes (m : Bytes) : Bytes :=
  (List.range 32).map fun i ↦ UInt8.ofNat (checksum m / 256 ^ i % 256)

def sampleEnv : Env where
  times := rfc3339Nano
  times_ascii _ _ c hc := (timeByte_instantText _ c hc).2.1
  formatNumber x := decimal x.num
  parseNumber _ := none
  sha256 := checksumBytes
  sha256_length m := by simp [checksumBytes]
  hmac key m := checksumBytes (key ++ m)
  hmac_length key m := by simp [checksumBytes]

def sampleCodec : CursorCodec where
  current := List.replicate 32 1
  previous := []
  current_long := by decide
  previous_long := .inl rfl
  previous_ne := by decide

structure Device where
  name : Bytes
  id : Bytes
  deriving DecidableEq

def deviceSort : List SortColumn := [⟨"name", .asc⟩, ⟨"id", .asc⟩]

def Device.extract (d : Device) : Option (List Value) := some [.string d.name, .string d.id]

def deviceContext : Bytes :=
  queryContext sampleEnv [asciiBytes "endpoint", asciiBytes "device-list"]

def firstDevice (devices : List Device) : Except Failure (PageResult Device) :=
  buildPageResult sampleEnv devices 1 sampleCodec deviceSort deviceContext Device.extract

def deviceToken (d : Device) : Bytes :=
  (sampleCodec.encode sampleEnv
    ⟨d.extract, sortScope sampleEnv deviceSort, deviceContext⟩).toOption.getD []

theorem encode_device (d : Device) : sampleCodec.encode sampleEnv
    ⟨d.extract, sortScope sampleEnv deviceSort, deviceContext⟩ = .ok (deviceToken d) := by
  unfold deviceToken
  cases h : sampleCodec.encode sampleEnv
      ⟨d.extract, sortScope sampleEnv deviceSort, deviceContext⟩ with
  | ok token => rfl
  | error e =>
    simp [CursorCodec.encode, Cursor.marshal, marshalValues, Device.extract, Value.marshal] at h

theorem firstDevice_pair (d e : Device) : firstDevice [d, e] = .ok ⟨[d], deviceToken d, true⟩ := by
  have hslice : slice [d, e] 0 1 = .ok [d] := by simp [slice]
  unfold firstDevice buildPageResult
  rw [if_pos (by simp), hslice]
  simp only [bind, Except.bind, getLast?_singleton, encode_device]
  rfl

def lamp : Device := ⟨asciiBytes "lamp", asciiBytes "d-2"⟩

def door : Device := ⟨asciiBytes "door", asciiBytes "d-1"⟩

theorem nextCursor_usable_lamp : firstDevice [lamp, door] = .ok ⟨[lamp], deviceToken lamp, true⟩ ∧
      PageResult.Usable sampleEnv sampleCodec deviceSort deviceContext Device.extract
        ⟨[lamp], deviceToken lamp, true⟩ := by
  have hkeys : ∀ item ∈ [lamp, door], ∀ vs ∈ item.extract, ∀ v ∈ vs, v.IsKey := by decide +kernel
  have hpage := firstDevice_pair lamp door
  refine ⟨hpage, (nextCursor_usable_iff hkeys hpage rfl).2 ⟨by decide, ?_, ?_, ?_⟩⟩
  · decide +kernel
  · decide +kernel
  · rintro last ⟨⟩
    exact ⟨rfl, by decide +kernel⟩

def longDevice : Device := ⟨List.replicate 3008 0x61, asciiBytes "d-3"⟩

theorem isKey_longDevice : ∀ vs ∈ longDevice.extract, ∀ v ∈ vs, v.IsKey := by
  have hname : utf8Valid longDevice.name = true :=
    utf8Valid_of_ascii fun c hc ↦ by rw [eq_of_mem_replicate hc]; decide
  have hid : utf8Valid longDevice.id = true := by decide +kernel
  rintro vs ⟨⟩
  exact forall_mem_cons.2 ⟨hname, forall_mem_singleton.2 hid⟩

theorem long_name_token_rejected :
    (∀ item ∈ [longDevice, lamp], ∀ vs ∈ item.extract, ∀ v ∈ vs, v.IsKey) ∧
      firstDevice [longDevice, lamp] = .ok ⟨[longDevice], deviceToken longDevice, true⟩ ∧
      sampleCodec.decode sampleEnv (deviceToken longDevice) = .error (.err errCursorInvalid) := by
  have hencode := encode_device longDevice
  have hlong : ¬(deviceToken longDevice).length ≤ maxCursorTokenBytes := by
    have hname := length_le_quote longDevice.name
    have hlength : longDevice.name.length = 3008 := length_replicate
    rw [length_encode_le_iff hencode]
    simp only [Device.extract, keysLength, map_cons, sum_cons, Value.jsonLength]
    omega
  refine ⟨forall_mem_cons.2 ⟨isKey_longDevice, by decide +kernel⟩,
    firstDevice_pair longDevice lamp, ?_⟩
  rw [decode_encode isKey_longDevice hencode, if_neg hlong]

/-- A codec of a new key and the key before it reads every token of the old codec as that did. -/
theorem rotated_codec_decodes {env : Env} {cur : Cursor} {codec codec' : CursorCodec}
    {key token : Bytes} (hrotated : newCursorCodec key codec.current = .ok codec')
    (h : codec.encode env cur = .ok token) : codec'.decode env token = codec.decode env token := by
  obtain ⟨payload, -, rfl⟩ := encode_eq_ok h
  have hdot := lastIndexByte_append payload (dot_notMem_signWith env codec.current payload)
  have hdrop : (payload ++ 0x2e :: signWith env codec.current payload).drop (payload.length + 1) =
      signWith env codec.current payload := by
    rw [← drop_drop, drop_left]
    rfl
  have hold : codec.verifies env payload (signWith env codec.current payload) = true := by
    simp [CursorCodec.verifies]
  unfold CursorCodec.decode
  simp only [rawURLDecode_rawURLEncode, hdot, orInvalid, bind, Except.bind, take_left, hdrop, hold,
    verifies_rotated hrotated]

theorem rotated_codec_decodes_lamp :
    ∃ codec', newCursorCodec (replicate 32 2) sampleCodec.current = .ok codec' ∧
      codec'.decode sampleEnv (deviceToken lamp) =
        sampleCodec.decode sampleEnv (deviceToken lamp) := by
  refine ⟨_, rfl, ?_⟩
  apply rotated_codec_decodes
  · exact (rfl : newCursorCodec (replicate 32 2) sampleCodec.current = _)
  · exact encode_device lamp

end Devices

end GoCell.Query
