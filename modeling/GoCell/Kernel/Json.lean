import GoCell.Kernel.Values

namespace GoCell.Kernel

/-- The step functions of Go's `encoding/json` scanner. The tails of the three literals are the
bytes still expected, where the Go scanner has one step function per byte. -/
inductive ScanStep
  | beginValueOrEmpty
  | beginValue
  | beginStringOrEmpty
  | beginString
  | endValue
  | endTop
  | inString
  | inStringEsc
  | inStringEscU (digits : ℕ)
  | neg
  | digits
  | zero
  | dot
  | dotDigits
  | exp
  | expSign
  | expDigits
  | literal (rest : Bytes)
  deriving DecidableEq

inductive ParseState
  | objectKey
  | objectValue
  | arrayValue
  deriving DecidableEq

structure Scanner where
  step : ScanStep
  parseState : List ParseState
  endTop : Bool
  deriving DecidableEq

namespace Scanner

def reset : Scanner := ⟨.beginValue, [], false⟩

def maxNestingDepth : ℕ := 10000

def isSpace (c : UInt8) : Bool := c = 0x20 || c = 0x09 || c = 0x0d || c = 0x0a

def isDigit (c : UInt8) : Bool := 0x30 ≤ c && c ≤ 0x39

def isHex (c : UInt8) : Bool :=
  isDigit c || (0x61 ≤ c && c ≤ 0x66) || (0x41 ≤ c && c ≤ 0x46)

variable (s : Scanner)

def goto (step : ScanStep) : Option Scanner := some { s with step := step }

def pushParseState (step : ScanStep) (p : ParseState) : Option Scanner :=
  if s.parseState.length + 1 ≤ maxNestingDepth then
    some { s with step := step, parseState := p :: s.parseState }
  else none

def popParseState : Option Scanner :=
  match s.parseState.tail with
  | [] => some { s with step := .endTop, parseState := [], endTop := true }
  | ps => some { s with step := .endValue, parseState := ps }

variable (c : UInt8)

def stateEndTop : Option Scanner :=
  if isSpace c then some s else none

def stateEndValue : Option Scanner :=
  match s.parseState with
  | [] => stateEndTop { s with step := .endTop, endTop := true } c
  | top :: ps =>
    if isSpace c then s.goto .endValue
    else match top with
      | .objectKey =>
        if c = 0x3a then
          some { s with step := .beginValue, parseState := .objectValue :: ps }
        else none
      | .objectValue =>
        if c = 0x2c then
          some { s with step := .beginString, parseState := .objectKey :: ps }
        else if c = 0x7d then s.popParseState
        else none
      | .arrayValue =>
        if c = 0x2c then s.goto .beginValue
        else if c = 0x5d then s.popParseState
        else none

def stateBeginValue : Option Scanner :=
  if isSpace c then some s
  else if c = 0x7b then s.pushParseState .beginStringOrEmpty .objectKey
  else if c = 0x5b then s.pushParseState .beginValueOrEmpty .arrayValue
  else if c = 0x22 then s.goto .inString
  else if c = 0x2d then s.goto .neg
  else if c = 0x30 then s.goto .zero
  else if c = 0x74 then s.goto (.literal [0x72, 0x75, 0x65])
  else if c = 0x66 then s.goto (.literal [0x61, 0x6c, 0x73, 0x65])
  else if c = 0x6e then s.goto (.literal [0x75, 0x6c, 0x6c])
  else if isDigit c then s.goto .digits
  else none

def stateBeginString : Option Scanner :=
  if isSpace c then some s else if c = 0x22 then s.goto .inString else none

def stateZero : Option Scanner :=
  if c = 0x2e then s.goto .dot
  else if c = 0x65 || c = 0x45 then s.goto .exp
  else s.stateEndValue c

def stateExpSign : Option Scanner :=
  if isDigit c then s.goto .expDigits else none

def stateInStringEsc : Option Scanner :=
  if c ∈ ([0x62, 0x66, 0x6e, 0x72, 0x74, 0x5c, 0x2f, 0x22] : Bytes) then s.goto .inString
  else if c = 0x75 then s.goto (.inStringEscU 3)
  else none

def next : Option Scanner :=
  match s.step with
  | .beginValueOrEmpty =>
    if isSpace c then some s else if c = 0x5d then s.stateEndValue c else s.stateBeginValue c
  | .beginValue => s.stateBeginValue c
  | .beginStringOrEmpty =>
    if isSpace c then some s
    else if c = 0x7d then
      { s with parseState := .objectValue :: s.parseState.tail }.stateEndValue c
    else s.stateBeginString c
  | .beginString => s.stateBeginString c
  | .endValue => s.stateEndValue c
  | .endTop => s.stateEndTop c
  | .inString =>
    if c = 0x22 then s.goto .endValue
    else if c = 0x5c then s.goto .inStringEsc
    else if c < 0x20 then none
    else some s
  | .inStringEsc => s.stateInStringEsc c
  | .inStringEscU n =>
    if isHex c then s.goto (if n = 0 then .inString else .inStringEscU (n - 1)) else none
  | .neg => if c = 0x30 then s.goto .zero else if isDigit c then s.goto .digits else none
  | .digits => if isDigit c then some s else s.stateZero c
  | .zero => s.stateZero c
  | .dot => if isDigit c then s.goto .dotDigits else none
  | .dotDigits =>
    if isDigit c then some s
    else if c = 0x65 || c = 0x45 then s.goto .exp
    else s.stateEndValue c
  | .exp => if c = 0x2b || c = 0x2d then s.goto .expSign else s.stateExpSign c
  | .expSign => s.stateExpSign c
  | .expDigits => if isDigit c then some s else s.stateEndValue c
  | .literal [] => s.stateEndValue c
  | .literal (b :: rest) =>
    if c = b then s.goto (if rest = [] then .endValue else .literal rest) else none

def eof : Bool :=
  s.endTop || (s.next 0x20).any (·.endTop)

end Scanner

def jsonValid (data : Bytes) : Bool :=
  (data.foldlM Scanner.next Scanner.reset).any Scanner.eof

/-- `bytes.TrimSpace` on ASCII input; a byte above 0x7f never ends a valid JSON text. -/
def trimSpace (data : Bytes) : Bytes :=
  let isBlank : UInt8 → Bool := fun c ↦ c = 0x20 || (0x09 ≤ c && c ≤ 0x0d)
  ((data.dropWhile isBlank).reverse.dropWhile isBlank).reverse

def asciiBytes (s : String) : Bytes := s.toList.map fun c ↦ UInt8.ofNat c.toNat

example : jsonValid (asciiBytes "[01]") = false := by decide

def ScanStep.inNumber : ScanStep → Bool
  | .neg | .digits | .zero | .dot | .dotDigits | .exp | .expSign | .expDigits => true
  | _ => false

/-- The value at the top comes to its end, with numerals that `ParseFloat` accepts; `numeral` is the
one that the scanner is in. -/
def Scanner.closes (parsesFloat : Bytes → Bool) : Scanner → Bytes → Bytes → Bool
  | _, _, [] => false
  | s, numeral, c :: rest =>
    (s.next c).any fun s' ↦
      if s'.step.inNumber then s'.closes parsesFloat (numeral ++ [c]) rest
      else (numeral = [] || parsesFloat numeral) && (s'.endTop || s'.closes parsesFloat [] rest)

/-- `Decode` of a `json.Decoder` into a `map[string]any`: the first value of the text is an object
or null, whatever follows it. -/
def decodesObject (parsesFloat : Bytes → Bool) (data : Bytes) : Bool :=
  let text := data.dropWhile Scanner.isSpace
  text.take 4 = asciiBytes "null" ||
    text.head? = some 0x7b && Scanner.reset.closes parsesFloat [] text

example : decodesObject (fun _ ↦ true) (asciiBytes " \x7b\"a\":[1]\x7d]") = true := by decide

end GoCell.Kernel
