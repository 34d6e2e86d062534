import GoCell.Kernel.Encodings
import GoCell.Kernel.Strings
import Mathlib.Data.List.Sort

namespace GoCell.Kernel

open Foundation List

def queryUnescape : Bytes → Option Bytes
  | [] => some []
  | c :: rest =>
    if c = 0x25 then
      match rest with
      | h :: l :: rest =>
        match hexValue h, hexValue l with
        | some high, some low =>
          (queryUnescape rest).map (UInt8.ofNat (high * 16 + low) :: ·)
        | _, _ => none
      | _ => none
    else (queryUnescape rest).map ((if c = 0x2b then 0x20 else c) :: ·)

def shouldEscape (c : UInt8) : Bool :=
  !((0x61 ≤ c && c ≤ 0x7a) || (0x41 ≤ c && c ≤ 0x5a) || (0x30 ≤ c && c ≤ 0x39) || c = 0x2d ||
    c = 0x5f || c = 0x2e || c = 0x7e)

def upperHexDigit (n : UInt8) : UInt8 := if n < 10 then 0x30 + n else 0x37 + n

def queryEscape (s : Bytes) : Bytes :=
  s.flatMap fun c ↦
    if c = 0x20 then [0x2b]
    else if shouldEscape c then [0x25, upperHexDigit (c >>> 4), upperHexDigit (c &&& 0xf)]
    else [c]

/-- The parameters of a query, up to `fuel` of them; `none` when one of them is malformed. -/
def queryParams : ℕ → Bytes → Option (List (Bytes × Bytes))
  | 0, _ => some []
  | fuel + 1, query =>
    if query = [] then some []
    else
      let (param, query) := (cut 0x26 query).getD (query, [])
      if 0x3b ∈ param then none
      else if param = [] then queryParams fuel query
      else do
        let (key, value) := (cut 0x3d param).getD (param, [])
        let key ← queryUnescape key
        let value ← queryUnescape value
        let params ← queryParams fuel query
        return (key, value) :: params

def maxQueryParams : ℕ := 10000

/-- `url.ParseQuery` without error. The pairs are in the order of the text. -/
def parseQuery (query : Bytes) : Option (List (Bytes × Bytes)) :=
  if maxQueryParams < query.count 0x26 + 1 then none
  else queryParams (query.length + 1) query

def bytesLE : Bytes → Bytes → Bool
  | [], _ => true
  | _ :: _, [] => false
  | a :: as, b :: bs => a < b || (a = b && bytesLE as bs)

/-- `Values.Encode`; the values of a key keep their order. -/
def encodeQuery (params : List (Bytes × Bytes)) : Bytes :=
  joinWith 0x26
    ((params.insertionSort fun p q ↦ bytesLE p.1 q.1 = true).map fun p ↦
      queryEscape p.1 ++ 0x3d :: queryEscape p.2)

theorem space_notMem_queryEscape (s : Bytes) : 0x20 ∉ queryEscape s := by
  intro h
  obtain ⟨c, -, hc⟩ := mem_flatMap.1 h
  have hbyte := forall_nibble (P := fun n ↦ upperHexDigit n ≠ 0x20) (by decide)
  split at hc
  · exact absurd (mem_singleton.1 hc) (by decide)
  · next hne =>
    split at hc
    · simp only [mem_cons, not_mem_nil, or_false] at hc
      obtain hc | hc | hc := hc
      · exact absurd hc (by decide)
      · exact (hbyte c).1 hc.symm
      · exact (hbyte c).2 hc.symm
    · exact hne (mem_singleton.1 hc).symm

theorem space_notMem_encodeQuery (params : List (Bytes × Bytes)) : 0x20 ∉ encodeQuery params := by
  unfold encodeQuery
  generalize params.insertionSort (fun p q ↦ bytesLE p.1 q.1 = true) = sorted
  have hword : ∀ p : Bytes × Bytes, 0x20 ∉ queryEscape p.1 ++ 0x3d :: queryEscape p.2 := by
    intro p h
    obtain h | h := mem_append.1 h
    · exact space_notMem_queryEscape p.1 h
    · obtain h | h := mem_cons.1 h
      · exact absurd h (by decide)
      · exact space_notMem_queryEscape p.2 h
  induction sorted with
  | nil => exact not_mem_nil
  | cons p sorted ih =>
    cases sorted with
    | nil => exact hword p
    | cons =>
      rw [map_cons, joinWith_cons (by simp)]
      intro h
      obtain h | h := mem_append.1 h
      · exact hword p h
      · obtain h | h := mem_cons.1 h
        · exact absurd h (by decide)
        · exact ih h

end GoCell.Kernel
