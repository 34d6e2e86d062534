import GoCell.Kernel.JsonArrays
import GoCell.Kernel.JsonTimes
import GoCell.Kernel.Timestamps

namespace GoCell.HttpIdempotency

open Kernel

/-- An `http.Header`: the values of each name, in some order of the names. A nil map or slice is not
told apart from an empty one. -/
abbrev Header := List (Bytes × List Bytes)

structure RecordedResponse where
  status : ℤ := 0
  body : Bytes := []
  header : Header := []
  recordedAt : Time := 0
  deriving DecidableEq

inductive ResponseField
  | status
  | body
  | header
  | recordedAt
  deriving DecidableEq

def ResponseField.name : ResponseField → String
  | .status => "status"
  | .body => "body"
  | .header => "header"
  | .recordedAt => "recordedAt"

def ResponseField.all : List ResponseField := [.status, .body, .header, .recordedAt]

def valuesText (values : List Bytes) : Bytes := arrayText (values.map quote)

/-- `encoding/json` writes the names of a map in their order. -/
def Header.text (h : Header) : Bytes :=
  objectText ((h.foldl (fun m kv ↦ setPair kv.1 kv.2 m) []).map fun kv ↦
    (quote kv.1, valuesText kv.2))

def RecordedResponse.fields (r : RecordedResponse) (recordedAt : Bytes) :
    List (ResponseField × Bytes) :=
  [(.status, decimal r.status), (.body, bytesText (some r.body)), (.header, r.header.text),
    (.recordedAt, recordedAt)]

def marshalRecordedResponse (tt : TimeText) (r : RecordedResponse) : Option Bytes :=
  (timeText tt r.recordedAt).map fun recordedAt ↦
    structText ResponseField.name (r.fields recordedAt)

def decodeValues (raw : Bytes) : Option (List Bytes) :=
  if isNull raw then some [] else (elements raw).bind fun values ↦ values.mapM (decodeBytes [])

/-- A body that is not base64 text is refused; the array of numbers that `encoding/json` takes for
it too is never written. -/
def RecordedResponse.decodeField (tt : TimeText) (r : RecordedResponse) :
    ResponseField → Bytes → Option RecordedResponse
  | .status, raw =>
    if isNull raw then some r else (parseInt raw).map fun v ↦ { r with status := v }
  | .body, raw =>
    if isNull raw then some { r with body := [] }
    else ((unquote raw).bind stdDecode).map fun v ↦ { r with body := v }
  | .header, raw =>
    if isNull raw then some { r with header := [] }
    else (decodeObject (fun m key value ↦ (decodeValues value).map fun v ↦ setPair key v m)
      r.header raw).map fun v ↦ { r with header := v }
  | .recordedAt, raw => (decodeTime tt r.recordedAt raw).map fun v ↦ { r with recordedAt := v }

def errResponseDecode : Err := validationFailed "idempotency: recorded response decode failed"

def errResponseStatus (status : ℤ) : Err :=
  validationFailed "idempotency: recorded response has invalid HTTP status"
    [("status", .int status)]

def errResponseZeroTime : Err :=
  validationFailed "idempotency: recorded response has zero recordedAt"

def unmarshalRecordedResponse (tt : TimeText) (raw : Bytes) : Except Err RecordedResponse :=
  let dto : Option RecordedResponse :=
    if jsonValid raw then
      decodeStruct ResponseField.name ResponseField.all (RecordedResponse.decodeField tt) {} raw
    else none
  match dto with
  | none => .error errResponseDecode
  | some r =>
    if r.status < 100 ∨ 599 < r.status then .error (errResponseStatus r.status)
    else if r.recordedAt = 0 then .error errResponseZeroTime
    else .ok r

/-- A header that survives its encoding, with its names in the order in which they are written. -/
def Header.encodable (h : Header) : Bool :=
  decide ((h.map Prod.fst).Pairwise (· < ·)) &&
    h.all fun kv ↦ utf8Valid kv.1 && kv.2.all utf8Valid

/-- A response that `UnmarshalRecordedResponse` accepts once it is marshalled. -/
def RecordedResponse.Storable (resp : RecordedResponse) : Prop :=
  inYears resp.recordedAt = true ∧ resp.header.encodable = true ∧
    100 ≤ resp.status ∧ resp.status ≤ 599 ∧ resp.recordedAt ≠ 0

instance (resp : RecordedResponse) : Decidable resp.Storable :=
  inferInstanceAs (Decidable (_ ∧ _ ∧ _ ∧ _ ∧ _))

section RoundTrip

open Scanner List

section Header

variable {values : List Bytes}

theorem valueText_values : ∀ v ∈ values.map quote, ValueText 0 v := by
  intro v hv
  obtain ⟨v, -, rfl⟩ := mem_map.1 hv
  exact (stringText_quote v).value

theorem decodeValues_valuesText (h : ∀ v ∈ values, utf8Valid v = true) :
    decodeValues (valuesText values) = some values := by
  have hdecode : (values.map quote).mapM (decodeBytes []) = some values := by
    induction values with
    | nil => rfl
    | cons v values ih =>
      obtain ⟨hv, h⟩ := forall_mem_cons.1 h
      simp [decodeBytes_quote hv, ih h]
  unfold decodeValues valuesText
  rw [isNull_arrayText, if_neg Bool.false_ne_true, elements_arrayText valueText_values (by decide),
    Option.bind_some, hdecode]

theorem valueText_header (h : Header) : ValueText 2 h.text := by
  refine valueText_object fun m hm ↦ ?_
  obtain ⟨kv, -, rfl⟩ := mem_map.1 hm
  exact ⟨stringText_quote _, valueText_array valueText_values⟩

theorem decode_header {h : Header} (hencodable : h.encodable = true) :
    decodeObject (fun m key value ↦ (decodeValues value).map fun v ↦ setPair key v m) [] h.text =
      some h := by
  rw [Header.encodable, Bool.and_eq_true, decide_eq_true_eq, all_eq_true] at hencodable
  obtain ⟨hsorted, hvalid⟩ := hencodable
  have hfold : h.foldl (fun m kv ↦ setPair kv.1 kv.2 m) [] = [] ++ h := foldl_setPair hsorted
  have htexts : ∀ kv ∈ h, utf8Valid kv.1 = true ∧ decodeValues (valuesText kv.2) = some kv.2 := by
    intro kv hkv
    have hkv := hvalid kv hkv
    rw [Bool.and_eq_true, all_eq_true] at hkv
    exact ⟨hkv.1, decodeValues_valuesText hkv.2⟩
  have hvalues : ∀ kv ∈ h, ValueText 1 (valuesText kv.2) :=
    fun kv _ ↦ valueText_array valueText_values
  have hdecode := decodeObject_objectText htexts hvalues (by decide)
    (fun m key v ↦ setPair key v m) []
  rw [hfold, nil_append] at hdecode
  rw [Header.text, hfold, nil_append, hdecode]

end Header

variable {tt : TimeText} {r : RecordedResponse}

theorem valueText_response {recordedAt : Bytes}
    (hrecordedAt : timeText tt r.recordedAt = some recordedAt) :
    ∀ m ∈ r.fields recordedAt, ValueText 2 m.2 := by
  simp only [RecordedResponse.fields, forall_mem_cons]
  exact ⟨valueText_decimal _ _, valueText_bytesText _ _, valueText_header _,
    valueText_timeText hrecordedAt _, by simp⟩

theorem decodeField_status (h : InInt64 r.status) (x : RecordedResponse) :
    x.decodeField tt .status (decimal r.status) = some { x with status := r.status } := by
  have hnull : isNull (decimal r.status) = false := isNull_decimal _
  simp only [RecordedResponse.decodeField, hnull, parseInt_decimal h, Option.map_some]
  rfl

theorem decodeField_body (x : RecordedResponse) :
    x.decodeField tt .body (bytesText (some r.body)) = some { x with body := r.body } := by
  have hunquote : unquote (bytesText (some r.body)) = some (base64 r.body) :=
    unquote_plain (base64_plain r.body)
  have hnull : isNull (bytesText (some r.body)) = false := rfl
  simp only [RecordedResponse.decodeField, hnull, hunquote, stdDecode_base64, Option.bind_some,
    Option.map_some]
  rfl

theorem decodeField_header (h : r.header.encodable = true) {x : RecordedResponse}
    (hx : x.header = []) :
    x.decodeField tt .header r.header.text = some { x with header := r.header } := by
  have hnull : isNull r.header.text = false := isNull_objectText _
  simp only [RecordedResponse.decodeField, hnull, hx, decode_header h, Option.map_some]
  rfl

/-- What is marshalled of a response can be read back. -/
theorem RecordedResponse.Storable.blob (h : r.Storable) (tt : TimeText) :
    ∃ blob, marshalRecordedResponse tt r = some blob ∧
      unmarshalRecordedResponse tt blob = .ok r := by
  obtain ⟨hyears, hheader, hlow, hhigh, hzero⟩ := h
  obtain ⟨recordedAt, htime⟩ : ∃ text, timeText tt r.recordedAt = some text := ⟨_, if_pos hyears⟩
  have htexts := valueText_response htime
  refine ⟨_, congrArg (Option.map _) htime, ?_⟩
  have hdecode : decodeStruct ResponseField.name ResponseField.all (decodeField tt) {}
      (structText ResponseField.name (r.fields recordedAt)) = some r := by
    rw [decodeStruct_structText (by intro f; cases f <;> decide) (by intro f; cases f <;> decide)
      htexts (by decide)]
    simp only [fields, foldlM_cons, foldlM_nil, decodeField_status (r := r) ⟨by omega, by omega⟩,
      decodeField_body, Option.bind_eq_bind, Option.bind_some, decodeField_header hheader]
    simp only [decodeField, decodeTime_timeText htime, Option.map_some, Option.bind_some,
      Option.pure_def]
  unfold unmarshalRecordedResponse
  rw [if_pos (jsonValid_structText htexts (by decide)), hdecode]
  dsimp only
  rw [if_neg (by omega), if_neg hzero]

end RoundTrip

end GoCell.HttpIdempotency
