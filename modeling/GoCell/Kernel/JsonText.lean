import GoCell.Kernel.Json

namespace GoCell.Kernel

/-- The number of bytes that follow the leading byte of a UTF-8 sequence, and the range of the first
of them. -/
def acceptRange (a : UInt8) : Option (ℕ × UInt8 × UInt8) :=
  if 0xc2 ≤ a ∧ a ≤ 0xdf then some (1, 0x80, 0xbf)
  else if a = 0xe0 then some (2, 0xa0, 0xbf)
  else if a = 0xed then some (2, 0x80, 0x9f)
  else if 0xe1 ≤ a ∧ a ≤ 0xef then some (2, 0x80, 0xbf)
  else if a = 0xf0 then some (3, 0x90, 0xbf)
  else if 0xf1 ≤ a ∧ a ≤ 0xf3 then some (3, 0x80, 0xbf)
  else if a = 0xf4 then some (3, 0x80, 0x8f)
  else none

def isTail (lo hi : UInt8) : Bytes → Bool
  | [] => false
  | b :: bs => lo ≤ b && b ≤ hi && bs.all fun c ↦ 0x80 ≤ c && c ≤ 0xbf

/-- `utf8.DecodeRune`: the sequence at the front and what follows it; `none` is `RuneError` of one
byte. -/
def decodeRune : Bytes → Option (Bytes × Bytes)
  | [] => none
  | a :: rest =>
    if a < 0x80 then some ([a], rest)
    else match acceptRange a with
      | none => none
      | some (n, lo, hi) =>
        if n ≤ rest.length ∧ isTail lo hi (rest.take n) = true then
          some (a :: rest.take n, rest.drop n)
        else none

def runesFrom : ℕ → Bytes → List (Option Bytes)
  | _, [] => []
  | 0, _ :: _ => []
  | n + 1, a :: rest =>
    match decodeRune (a :: rest) with
    | some (r, rest) => some r :: runesFrom n rest
    | none => none :: runesFrom n rest

/-- The runes of a Go string, `none` for a byte that is not part of a UTF-8 sequence. -/
def runes (s : Bytes) : List (Option Bytes) := runesFrom s.length s

def utf8Valid (s : Bytes) : Bool := (runes s).all Option.isSome

def hexDigit (n : UInt8) : UInt8 := if n < 10 then 0x30 + n else 0x57 + n

def unicodeEscape (b : UInt8) : Bytes :=
  [0x5c, 0x75, 0x30, 0x30, hexDigit (b >>> 4), hexDigit (b &&& 0xf)]

def isHTML (b : UInt8) : Bool := b = 0x3c || b = 0x3e || b = 0x26

def escapeByte (b : UInt8) : Bytes :=
  if b = 0x22 ∨ b = 0x5c then [0x5c, b]
  else if b = 0x08 then [0x5c, 0x62]
  else if b = 0x0c then [0x5c, 0x66]
  else if b = 0x0a then [0x5c, 0x6e]
  else if b = 0x0d then [0x5c, 0x72]
  else if b = 0x09 then [0x5c, 0x74]
  else if b < 0x20 ∨ isHTML b = true then unicodeEscape b
  else [b]

def separatorEscape (b : UInt8) : Bytes := [0x5c, 0x75, 0x32, 0x30, 0x32, hexDigit (b &&& 0xf)]

def isSeparator (a b c : UInt8) : Bool := a = 0xe2 && b = 0x80 && (c = 0xa8 || c = 0xa9)

def escapeRune : Option Bytes → Bytes
  | none => [0x5c, 0x75, 0x66, 0x66, 0x66, 0x64]
  | some [a] => escapeByte a
  | some [a, b, c] => if isSeparator a b c then separatorEscape c else [a, b, c]
  | some r => r

/-- `appendString` of `encoding/json`, with HTML escapes. -/
def quote (s : Bytes) : Bytes := 0x22 :: ((runes s).flatMap escapeRune ++ [0x22])

def hexValue (c : UInt8) : Option ℕ :=
  if 0x30 ≤ c ∧ c ≤ 0x39 then some (c.toNat - 0x30)
  else if 0x61 ≤ c ∧ c ≤ 0x66 then some (c.toNat - 0x57)
  else if 0x41 ≤ c ∧ c ≤ 0x46 then some (c.toNat - 0x37)
  else none

def getu4 : Bytes → Option (ℕ × Bytes)
  | b :: u :: d₁ :: d₂ :: d₃ :: d₄ :: rest =>
    if b = 0x5c ∧ u = 0x75 then do
      let h₁ ← hexValue d₁
      let h₂ ← hexValue d₂
      let h₃ ← hexValue d₃
      let h₄ ← hexValue d₄
      return (((h₁ * 16 + h₂) * 16 + h₃) * 16 + h₄, rest)
    else none
  | _ => none

def encodeRune (r : ℕ) : Bytes := String.utf8EncodeChar (Char.ofNat r)

def replacement : Bytes := [0xef, 0xbf, 0xbd]

/-- `utf16.DecodeRune` on a pair of surrogates, in order. -/
def surrogatePair (hi lo : ℕ) : Option ℕ :=
  if 0xd800 ≤ hi ∧ hi < 0xdc00 ∧ 0xdc00 ≤ lo ∧ lo < 0xe000 then
    some ((hi - 0xd800) * 1024 + (lo - 0xdc00) + 0x10000)
  else none

def unquoteRune (r : ℕ) (rest : Bytes) : Bytes × Bytes :=
  if 0xd800 ≤ r ∧ r < 0xe000 then
    match getu4 rest with
    | none => (replacement, rest)
    | some (r₁, rest₁) =>
      match surrogatePair r r₁ with
      | some dec => (encodeRune dec, rest₁)
      | none => (replacement, rest)
  else (encodeRune r, rest)

def unquoteEscape (e : UInt8) : Option UInt8 :=
  if e = 0x22 ∨ e = 0x5c ∨ e = 0x2f ∨ e = 0x27 then some e
  else if e = 0x62 then some 0x08
  else if e = 0x66 then some 0x0c
  else if e = 0x6e then some 0x0a
  else if e = 0x72 then some 0x0d
  else if e = 0x74 then some 0x09
  else none

/-- One turn of the loop of `unquoteBytes`: what is written, and what is left to read. -/
def unquoteStep : Bytes → Option (Bytes × Bytes)
  | [] => none
  | c :: rest =>
    if c = 0x5c then
      match rest with
      | [] => none
      | e :: after =>
        if e = 0x75 then (getu4 (c :: rest)).map fun r ↦ unquoteRune r.1 r.2
        else (unquoteEscape e).map fun b ↦ ([b], after)
    else if c = 0x22 ∨ c < 0x20 then none
    -- what is not UTF-8 is read as U+FFFD
    else some ((decodeRune (c :: rest)).getD (replacement, rest))

def unquoteFrom : ℕ → Bytes → Option Bytes
  | _, [] => some []
  | 0, _ :: _ => none
  | n + 1, c :: rest => do
    let (out, left) ← unquoteStep (c :: rest)
    return out ++ (← unquoteFrom n left)

def unquote : Bytes → Option Bytes
  | [] => none
  | c :: rest =>
    if c = 0x22 ∧ rest.getLast? = some 0x22 then unquoteFrom rest.length rest.dropLast else none

/-- The byte is dropped by `compact`: it is a blank between two tokens. -/
def Scanner.skips (s : Scanner) (c : UInt8) : Bool := isSpace c && s.step ≠ .inString

def compactByte (s : Scanner) (c : UInt8) : Bytes :=
  if s.skips c then [] else if isHTML c then unicodeEscape c else [c]

def compactSeparator (c : UInt8) : Bytes → Option Bytes
  | a :: b :: _ => if isSeparator c a b then some (separatorEscape b) else none
  | _ => none

/-- The loop of `appendCompact`; `skip` bytes are already written. -/
def compactFrom : ℕ → Scanner → Bytes → Option Bytes
  | _, s, [] => if s.eof then some [] else none
  | skip + 1, s, c :: rest => do compactFrom skip (← s.next c) rest
  | 0, s, c :: rest => do
    let s' ← s.next c
    match compactSeparator c rest with
    | some out => return out ++ (← compactFrom 2 s' rest)
    | none => return compactByte s c ++ (← compactFrom 0 s' rest)

/-- `appendCompact` with HTML escapes, as `json.Marshal` applies it to the output of a marshaler. -/
def compact (data : Bytes) : Option Bytes := compactFrom 0 Scanner.reset data

theorem isSome_compactFrom (skip : ℕ) (s : Scanner) (data : Bytes) :
    (compactFrom skip s data).isSome = (data.foldlM Scanner.next s).any Scanner.eof := by
  induction data generalizing skip s with
  | nil =>
    rw [compactFrom]
    cases h : s.eof <;> simp [h]
  | cons c rest ih =>
    cases hs : s.next c with
    | none => cases skip <;> simp [compactFrom, hs]
    | some s' =>
      cases skip with
      | succ skip => simpa [compactFrom, hs] using ih skip s'
      | zero =>
        cases hsep : compactSeparator c rest with
        | some out =>
          simp only [compactFrom, hs, hsep, List.foldlM_cons, Option.bind_eq_bind, Option.bind_some]
          rw [← ih 2 s']
          cases compactFrom 2 s' rest <;> rfl
        | none =>
          simp only [compactFrom, hs, hsep, List.foldlM_cons, Option.bind_eq_bind, Option.bind_some]
          rw [← ih 0 s']
          cases compactFrom 0 s' rest <;> rfl

theorem isSome_compact (data : Bytes) : (compact data).isSome = jsonValid data :=
  isSome_compactFrom 0 Scanner.reset data

/-- The members after the first of an object, each with its key as it is quoted, and the brace. -/
def memberTail : List (Bytes × Bytes) → Bytes
  | [] => [0x7d]
  | (key, value) :: ms => 0x2c :: (key ++ 0x3a :: (value ++ memberTail ms))

def objectText : List (Bytes × Bytes) → Bytes
  | [] => [0x7b, 0x7d]
  | (key, value) :: ms => 0x7b :: (key ++ 0x3a :: (value ++ memberTail ms))

/-- The members of an object while it is read: `key` and `slot` are the bytes of the key and of the
value that are read so far. -/
structure Slicer where
  scanner : Scanner := Scanner.reset
  members : List (Bytes × Bytes) := []
  key : Bytes := []
  slot : Bytes := []
  deriving DecidableEq

def Slicer.next (z : Slicer) (c : UInt8) : Option Slicer := do
  let s ← z.scanner.next c
  let z' := { z with scanner := s }
  match z.scanner.parseState, s.parseState with
  | [], _ => return z'
  | [.objectKey], [.objectValue] => return { z' with key := z.slot, slot := [] }
  | [.objectValue], [.objectKey] =>
    return { z' with members := z.members ++ [(z.key, z.slot)], key := [], slot := [] }
  | [.objectValue], [] =>
    return { z' with members := z.members ++ [(z.key, z.slot)], key := [], slot := [] }
  | [_], _ => if z.scanner.skips c then return z' else return { z' with slot := z.slot ++ [c] }
  | _, _ => return { z' with slot := z.slot ++ [c] }

/-- The members of a JSON object in their order, each with its key as it is quoted and the bytes of
its value; `none` for any other JSON text. -/
def members (data : Bytes) : Option (List (Bytes × Bytes)) :=
  match data.dropWhile Scanner.isSpace with
  | c :: _ => if c = 0x7b then (data.foldlM Slicer.next {}).map Slicer.members else none
  | [] => none

example : compact (asciiBytes " [ \"a <\" , 1 ]") = some (asciiBytes "[\"a \\u003c\",1]") := by
  decide

end GoCell.Kernel
