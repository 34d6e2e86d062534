import GoCell.Kernel.JsonArrays
import GoCell.Query.Paging

namespace GoCell.Query

open Foundation Kernel List Option

structure Env where
  times : TimeText
  times_ascii (t : Time) : inYears t = true → ∀ c ∈ times.format t, c < 0x80
  formatNumber : ℚ → Bytes
  parseNumber : Bytes → Option ℚ
  sha256 : Bytes → Bytes
  sha256_length (m : Bytes) : (sha256 m).length = 32
  hmac : Bytes → Bytes → Bytes
  hmac_length (key m : Bytes) : (hmac key m).length = 32

def minCursorKeyBytes : ℕ := 32

def maxCursorTokenBytes : ℕ := 4096

/-- The values are `none` for the nil slice. -/
structure Cursor where
  values : Option (List Value) := none
  scope : Bytes := []
  context : Bytes := []
  deriving DecidableEq

/-- The keys as `NewCursorCodec` accepts them; `previous` is empty in single-key mode. -/
structure CursorCodec where
  current : Bytes
  previous : Bytes
  current_long : minCursorKeyBytes ≤ current.length
  previous_long : previous = [] ∨ minCursorKeyBytes ≤ previous.length
  previous_ne : previous ≠ current

def errKeyTooShort (message : String) (key : Bytes) : Err :=
  ⟨.invalid, .cursorInvalid, message, [("got", .int key.length), ("min", .int minCursorKeyBytes)]⟩

def newCursorCodec (current previous : Bytes) : Except Err CursorCodec :=
  if hcurrent : minCursorKeyBytes ≤ current.length then
    if hprevious : previous = [] ∨ minCursorKeyBytes ≤ previous.length then
      if hne : previous ≠ current then .ok ⟨current, previous, hcurrent, hprevious, hne⟩
      else .error ⟨.invalid, .cursorInvalid, "previous cursor key must differ from current", []⟩
    else .error (errKeyTooShort "previous cursor HMAC key too short" previous)
  else .error (errKeyTooShort "cursor HMAC key too short" current)

inductive CursorField
  | values
  | scope
  | context
  deriving DecidableEq

def CursorField.name : CursorField → String
  | .values => "v"
  | .scope => "s"
  | .context => "c"

def CursorField.all : List CursorField := [.values, .scope, .context]

section

variable (env : Env)

def Value.marshal : Value → Option Bytes
  | .string s => some (quote s)
  | .int n => some (decimal n)
  | .number x => some (env.formatNumber x)
  | .time t => timeText env.times t
  | .other raw => some raw

def marshalValues : Option (List Value) → Option Bytes
  | none => some (asciiBytes "null")
  | some vs => (vs.mapM (Value.marshal env)).map arrayText

/-- The bytes of a key as JSON. -/
def Value.jsonLength : Value → ℕ
  | .string s => (quote s).length
  | .int n => (decimal n).length
  | .number x => (env.formatNumber x).length
  | .time t => (env.times.format t).length + 2
  | .other raw => raw.length

/-- The bytes of the keys as JSON, each with its comma or bracket. -/
def keysLength : Option (List Value) → ℕ
  | none => 4
  | some [] => 2
  | some vs => (vs.map fun v ↦ v.jsonLength env + 1).sum + 1

variable (cur : Cursor)

def Cursor.fields (values : Bytes) : List (CursorField × Bytes) :=
  [(.values, values), (.scope, quote cur.scope), (.context, quote cur.context)]

def Cursor.marshal : Option Bytes :=
  (marshalValues env cur.values).map fun values ↦ structText CursorField.name (cur.fields values)

/-- A value of a `[]any`; a numeral outside the range of a `float64` is an error. -/
def decodeValue (raw : Bytes) : Option Value :=
  match raw.head? with
  | none => none
  | some c =>
    if c = 0x22 then (unquote raw).map .string
    else if c = 0x2d ∨ Scanner.isDigit c = true then (env.parseNumber raw).map .number
    else some (.other raw)

def decodeValues (raw : Bytes) : Option (Option (List Value)) :=
  if isNull raw then some none
  else (elements raw).bind fun es ↦ (es.mapM (decodeValue env)).map some

def Cursor.decodeField : CursorField → Bytes → Option Cursor
  | .values, raw => (decodeValues env raw).map fun v ↦ { cur with values := v }
  | .scope, raw => (decodeBytes cur.scope raw).map fun v ↦ { cur with scope := v }
  | .context, raw => (decodeBytes cur.context raw).map fun v ↦ { cur with context := v }

def Cursor.unmarshal (raw : Bytes) : Option Cursor :=
  if jsonValid raw then
    decodeStruct CursorField.name CursorField.all (Cursor.decodeField env) {} raw
  else none

def signWith (key data : Bytes) : Bytes := hexEncode (env.hmac key data)

variable (codec : CursorCodec)

def CursorCodec.encode (cur : Cursor) : Except Failure Bytes :=
  match cur.marshal env with
  | none => .error (.err ⟨.internal, .internal, "cursor: marshal failed", []⟩)
  | some payload => .ok (rawURLEncode (payload ++ 0x2e :: signWith env codec.current payload))

/-- `bytes.LastIndexByte`; `none` in place of `-1`. -/
def lastIndexByte (raw : Bytes) (c : UInt8) : Option ℕ :=
  (raw.reverse.findIdx? (· = c)).map (raw.length - 1 - ·)

def CursorCodec.verifies (payload sigHex : Bytes) : Bool :=
  sigHex = signWith env codec.current payload ||
    (codec.previous ≠ [] && sigHex = signWith env codec.previous payload)

def orInvalid {α : Type} : Option α → Except Failure α
  | some a => .ok a
  | none => .error (.err errCursorInvalid)

def CursorCodec.decode (token : Bytes) : Except Failure Cursor := do
  require (token ≠ []) (.err errCursorInvalid)
  require (token.length ≤ maxCursorTokenBytes) (.err errCursorInvalid)
  let raw ← orInvalid (rawURLDecode token)
  let dotIdx ← orInvalid (lastIndexByte raw 0x2e)
  require (dotIdx < raw.length - 1) (.err errCursorInvalid)
  require (codec.verifies env (raw.take dotIdx) (raw.drop (dotIdx + 1))) (.err errCursorInvalid)
  orInvalid (Cursor.unmarshal env (raw.take dotIdx))

def fingerprint (parts : List Bytes) : Bytes :=
  (hexEncode (env.sha256 (parts.flatMap fun part ↦ part ++ [0]))).take 16

def sortScope (cols : List SortColumn) : Bytes :=
  fingerprint env (cols.flatMap fun col ↦ [utf8Bytes col.name, utf8Bytes col.direction.text])

def queryContext (pairs : List Bytes) : Bytes := fingerprint env pairs

def validateCursorScope (sort : List SortColumn) (queryCtx : Bytes) : Except Failure Unit := do
  require (cur.scope ≠ []) (.err errCursorInvalid)
  require (cur.scope = sortScope env sort) (.err errCursorInvalid)
  require (cur.context ≠ []) (.err errCursorInvalid)
  require (cur.context = queryCtx) (.err errCursorInvalid)
  require ((cur.values.getD []).length = sort.length) (.err errCursorInvalid)

end

/-- The keys that a codec promises to read back; a time outside the years 0 to 9999 is not encoded
at all. -/
def Value.IsKey : Value → Prop
  | .string s => utf8Valid s = true
  | .time _ => True
  | _ => False

instance (v : Value) : Decidable v.IsKey := by
  cases v <;> unfold Value.IsKey <;> infer_instance

def Value.wire (tt : TimeText) : Value → Value
  | .time t => .string (tt.format t)
  | v => v

variable {cur : Cursor} {codec : CursorCodec}

section

variable {env : Env}

theorem marshal_key {v : Value} {text : Bytes} (hkey : v.IsKey) (h : v.marshal env = some text) :
    decodeValue env text = some (v.wire env.times) ∧ Scanner.ValueText 0 text := by
  cases v with
  | string s =>
    obtain rfl : quote s = text := some.inj h
    refine ⟨?_, (Scanner.stringText_quote s).value⟩
    exact congrArg (Option.map Value.string) (unquote_quote hkey)
  | int | number | other => exact absurd hkey id
  | time t =>
    refine ⟨?_, valueText_timeText h 0⟩
    simp only [Value.marshal, timeText] at h
    split at h
    · next ht =>
      cases h
      have hplain := unquote_plain fun c hc ↦ ⟨env.times_ascii t ht c hc, env.times.plain t ht c hc⟩
      exact congrArg (Option.map Value.string) hplain
    · cases h

theorem marshal_keys {vs : List Value} {texts : List Bytes} (hkeys : ∀ v ∈ vs, v.IsKey)
    (h : vs.mapM (Value.marshal env) = some texts) :
    texts.mapM (decodeValue env) = some (vs.map (Value.wire env.times)) ∧
      ∀ text ∈ texts, Scanner.ValueText 0 text := by
  induction vs generalizing texts with
  | nil =>
    obtain rfl : [] = texts := some.inj h
    exact ⟨rfl, fun text htext ↦ absurd htext not_mem_nil⟩
  | cons v vs ih =>
    obtain ⟨hkey, hkeys⟩ := forall_mem_cons.1 hkeys
    rw [mapM_cons] at h
    obtain ⟨text, htext, h⟩ := bind_eq_some_iff.1 h
    obtain ⟨texts', htexts, h⟩ := bind_eq_some_iff.1 h
    cases h
    obtain ⟨hread, hvalue⟩ := marshal_key hkey htext
    obtain ⟨hreads, hvalues⟩ := ih hkeys htexts
    refine ⟨?_, forall_mem_cons.2 ⟨hvalue, hvalues⟩⟩
    rw [mapM_cons, hread, hreads]
    rfl

variable {values : Option (List Value)}

theorem marshalValues_keys {text : Bytes}
    (hkeys : ∀ vs ∈ values, ∀ v ∈ vs, v.IsKey) (h : marshalValues env values = some text) :
    decodeValues env text = some (values.map (map (Value.wire env.times))) ∧
      Scanner.ValueText 1 text := by
  cases values with
  | none =>
    obtain rfl : asciiBytes "null" = text := Option.some.inj h
    exact ⟨rfl, valueText_bytesText none 1⟩
  | some vs =>
    obtain ⟨texts, htexts, rfl⟩ := map_eq_some_iff.1 h
    obtain ⟨hreads, hvalues⟩ := marshal_keys (hkeys vs rfl) htexts
    refine ⟨?_, valueText_array hvalues⟩
    rw [decodeValues, isNull_arrayText, elements_arrayText hvalues (by decide)]
    simp only [Bool.false_eq_true, if_false, bind_some, hreads, map_some]

theorem unmarshal_marshal {payload : Bytes}
    (hkeys : ∀ vs ∈ cur.values, ∀ v ∈ vs, v.IsKey) (h : cur.marshal env = some payload) :
    Cursor.unmarshal env payload = some
      ⟨cur.values.map (List.map (Value.wire env.times)), toValidUTF8 cur.scope,
        toValidUTF8 cur.context⟩ := by
  obtain ⟨text, htext, rfl⟩ := map_eq_some_iff.1 h
  obtain ⟨hread, hvalue⟩ := marshalValues_keys hkeys htext
  have hfields : ∀ m ∈ cur.fields text, Scanner.ValueText 1 m.2 := by
    simp only [Cursor.fields, forall_mem_cons, not_mem_nil, IsEmpty.forall_iff,
      implies_true, and_true]
    exact ⟨hvalue, (Scanner.stringText_quote _).value, (Scanner.stringText_quote _).value⟩
  have hname : ∀ f, Ascii (CursorField.name f) := by
    intro f
    cases f <;> decide +kernel
  have hmatch : ∀ f, matchField CursorField.name CursorField.all (asciiBytes f.name) = some f := by
    intro f
    cases f <;> decide +kernel
  rw [Cursor.unmarshal, if_pos (jsonValid_structText hfields (by decide)),
    decodeStruct_structText hname hmatch hfields (by decide)]
  simp only [Cursor.fields, foldlM_cons, foldlM_nil, Cursor.decodeField, hread,
    decodeBytes, isNull_quote, unquote_quote_eq, Bool.false_eq_true, if_false, map_some,
    Option.bind_eq_bind, Option.bind_some, Option.pure_def]

theorem lastIndexByte_append (payload : Bytes) {c : UInt8} {sig : Bytes} (h : c ∉ sig) :
    lastIndexByte (payload ++ c :: sig) c = some payload.length := by
  have hsig : sig.reverse.findIdx? (· = c) = none := by
    rw [findIdx?_eq_none_iff]
    intro d hd
    rw [mem_reverse] at hd
    exact decide_eq_false fun heq ↦ h (heq ▸ hd)
  rw [lastIndexByte, reverse_append, reverse_cons, append_assoc,
    findIdx?_append, hsig, none_or, singleton_append, findIdx?_cons]
  simp only [decide_true, if_true, map_some, length_append, length_cons, length_reverse, some.injEq]
  omega

theorem length_signWith (key data : Bytes) : (signWith env key data).length = 64 := by
  rw [signWith, length_hexEncode, env.hmac_length]

theorem dot_notMem_signWith (env : Env) (key data : Bytes) : 0x2e ∉ signWith env key data :=
  fun h ↦ absurd (isLowerHex_hexEncode h) (by decide)

theorem encode_eq_ok {token : Bytes} (h : codec.encode env cur = .ok token) :
    ∃ payload, cur.marshal env = some payload ∧
      token = rawURLEncode (payload ++ 0x2e :: signWith env codec.current payload) := by
  unfold CursorCodec.encode at h
  split at h
  · cases h
  · next payload hpayload => exact ⟨payload, hpayload, (Except.ok.inj h).symm⟩

theorem verifies_rotated {codec' : CursorCodec} {key : Bytes}
    (h : newCursorCodec key codec.current = .ok codec') (payload : Bytes) :
    codec'.verifies env payload (signWith env codec.current payload) = true := by
  have hne : codec.current ≠ [] := by
    intro hnil
    simpa [hnil, minCursorKeyBytes] using codec.current_long
  unfold newCursorCodec at h
  split_ifs at h
  cases h
  simp [CursorCodec.verifies, hne]

theorem length_encode {token payload : Bytes}
    (hpayload : cur.marshal env = some payload) (h : codec.encode env cur = .ok token) :
    token.length = (4 * (payload.length + 65) + 2) / 3 := by
  obtain ⟨payload', hpayload', rfl⟩ := encode_eq_ok h
  rw [hpayload] at hpayload'
  cases hpayload'
  rw [length_rawURLEncode, length_append, length_cons, length_signWith]

theorem Value.length_marshal {v : Value} {text : Bytes} (h : v.marshal env = some text) :
    text.length = v.jsonLength env := by
  cases v with
  | string | int | number | other => exact congrArg length (some.inj h).symm
  | time =>
    simp only [Value.marshal, timeText] at h
    split at h
    · cases h
      simp [Value.jsonLength]
    · cases h

theorem length_elementTail {vs : List Value} {texts : List Bytes}
    (h : vs.mapM (Value.marshal env) = some texts) :
    (elementTail texts).length = (vs.map fun v ↦ v.jsonLength env + 1).sum + 1 := by
  induction vs generalizing texts with
  | nil =>
    obtain rfl : [] = texts := some.inj h
    rfl
  | cons v vs ih =>
    rw [mapM_cons] at h
    obtain ⟨text, htext, h⟩ := bind_eq_some_iff.1 h
    obtain ⟨texts', htexts, h⟩ := bind_eq_some_iff.1 h
    cases h
    have hlength := Value.length_marshal htext
    have hrest := ih htexts
    simp only [elementTail, length_cons, length_append, map_cons, sum_cons]
    omega

theorem length_marshalValues {text : Bytes}
    (h : marshalValues env values = some text) : text.length = keysLength env values := by
  cases values with
  | none =>
    obtain rfl : asciiBytes "null" = text := some.inj h
    rfl
  | some vs =>
    obtain ⟨texts, htexts, rfl⟩ := map_eq_some_iff.1 h
    have htail := length_elementTail htexts
    cases vs with
    | nil =>
      obtain rfl : [] = texts := some.inj htexts
      rfl
    | cons v vs =>
      cases texts with
      | nil => simp [elementTail] at htail
      | cons text texts => exact htail

theorem length_marshal {payload : Bytes} (h : cur.marshal env = some payload) : payload.length =
      keysLength env cur.values + (quote cur.scope).length + (quote cur.context).length + 16 := by
  obtain ⟨text, htext, rfl⟩ := map_eq_some_iff.1 h
  have hname : ∀ f, (quote (asciiBytes (CursorField.name f))).length = 3 := by
    intro f
    cases f <;> decide +kernel
  simp only [structText, Cursor.fields, map_cons, map_nil, objectText, memberTail, length_cons,
    length_append, length_nil, hname, length_marshalValues htext]
  omega

/-- The token fits if its JSON does. -/
theorem length_encode_le_iff {token : Bytes} (h : codec.encode env cur = .ok token) :
    token.length ≤ maxCursorTokenBytes ↔
      keysLength env cur.values + (quote cur.scope).length + (quote cur.context).length ≤ 2991 := by
  obtain ⟨payload, hpayload, -⟩ := encode_eq_ok h
  rw [length_encode hpayload h, length_marshal hpayload, maxCursorTokenBytes]
  omega

theorem decode_encode {token : Bytes}
    (hkeys : ∀ vs ∈ cur.values, ∀ v ∈ vs, v.IsKey) (h : codec.encode env cur = .ok token) :
    codec.decode env token =
      if token.length ≤ maxCursorTokenBytes then
        .ok ⟨cur.values.map (map (Value.wire env.times)), toValidUTF8 cur.scope,
          toValidUTF8 cur.context⟩
      else .error (.err errCursorInvalid) := by
  obtain ⟨payload, hpayload, -⟩ := encode_eq_ok h
  have hlength := length_encode hpayload h
  have hne : token ≠ [] := by
    rintro rfl
    rw [length_nil] at hlength
    omega
  obtain ⟨payload', hpayload', rfl⟩ := encode_eq_ok h
  rw [hpayload] at hpayload'
  cases hpayload'
  have hdot := lastIndexByte_append payload (dot_notMem_signWith env codec.current payload)
  have hlong : payload.length <
      (payload ++ 0x2e :: signWith env codec.current payload).length - 1 := by
    rw [length_append, length_cons, length_signWith]
    omega
  have hverifies : codec.verifies env payload (signWith env codec.current payload) = true := by
    simp [CursorCodec.verifies]
  have hdrop : (payload ++ 0x2e :: signWith env codec.current payload).drop (payload.length + 1) =
      signWith env codec.current payload := by
    rw [drop_append, drop_of_length_le (Nat.le_succ _), nil_append,
      Nat.add_sub_cancel_left, drop_one, tail_cons]
  unfold CursorCodec.decode
  split
  · next hsize =>
    simp only [hne, hsize, rawURLDecode_rawURLEncode, hdot, hlong, take_left, hdrop, hverifies,
      unmarshal_marshal hkeys hpayload, require, orInvalid, bind, Except.bind, decide_true, if_true,
      ne_eq, not_false_eq_true]
  · next hsize =>
    simp only [hne, hsize, require, bind, Except.bind, decide_true, decide_false, if_true, ne_eq,
      not_false_eq_true, Bool.false_eq_true, if_false]

variable (parts : List Bytes)

theorem fingerprint_ne_nil : fingerprint env parts ≠ [] := by
  intro h
  have hlength := congrArg length h
  rw [fingerprint, length_take, length_hexEncode, env.sha256_length] at hlength
  cases hlength

theorem length_quote_fingerprint : (quote (fingerprint env parts)).length = 18 := by
  unfold fingerprint
  rw [length_quote_lowerHex fun c hc ↦ isLowerHex_hexEncode (mem_of_mem_take hc), length_take,
    length_hexEncode, env.sha256_length]
  rfl

theorem utf8Valid_fingerprint : utf8Valid (fingerprint env parts) = true :=
  utf8Valid_of_ascii fun _ hc ↦ isLowerHex_lt (isLowerHex_hexEncode (mem_of_mem_take hc))

/-- A cursor for the columns is accepted for a valid query context and the number of its values. -/
theorem validateCursorScope_ok_iff {sort : List SortColumn} {context queryCtx : Bytes} :
    validateCursorScope env ⟨values, toValidUTF8 (sortScope env sort), context⟩ sort queryCtx =
        .ok () ↔
      context ≠ [] ∧ context = queryCtx ∧ (values.getD []).length = sort.length := by
  have hscope : toValidUTF8 (sortScope env sort) = sortScope env sort :=
    toValidUTF8_eq_iff.2 (utf8Valid_fingerprint _)
  have hne : sortScope env sort ≠ [] := fingerprint_ne_nil _
  simp only [validateCursorScope, hscope, bind_ok, require_ok, decide_eq_true_eq, hne, ne_eq,
    not_false_eq_true, exists_const, true_and]

end

end GoCell.Query
