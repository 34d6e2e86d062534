import GoCell.Foundation.Checks
import GoCell.Kernel.JsonSpans

namespace GoCell.Kernel

open Foundation List Option

def utf8Bytes (s : String) : Bytes := s.toUTF8.data.toList

theorem utf8Bytes_inj {s t : String} (h : utf8Bytes s = utf8Bytes t) : s = t :=
  String.toByteArray_inj.1 (ByteArray.ext (Array.toList_inj.1 h))

variable (b : Bytes)

def hexEncode : Bytes := b.flatMap fun c : UInt8 ↦ [hexDigit (c >>> 4), hexDigit (c &&& 0xf)]

def hexDecode : Bytes → Option Bytes
  | [] => some []
  | [_] => none
  | h :: l :: rest =>
    match hexValue h, hexValue l with
    | some high, some low => (hexDecode rest).map (UInt8.ofNat (high * 16 + low) :: ·)
    | _, _ => none

def isLowerHex (c : UInt8) : Bool := (0x30 ≤ c && c ≤ 0x39) || (0x61 ≤ c && c ≤ 0x66)

/-- The regular expression `^[0-9a-f]{64}$`. -/
def isHexDigest (h : Bytes) : Bool := h.length = 64 && h.all isLowerHex

def checksum (m : Bytes) : ℕ := m.foldl (fun h b ↦ (h * 257 + b.toNat + 1) % 2 ^ 256) 7

def checksumHex (m : Bytes) : Bytes :=
  (List.range 64).map fun i ↦ hexDigit (UInt8.ofNat (checksum m / 16 ^ i % 16))

theorem isHexDigest_checksumHex (m : Bytes) : isHexDigest (checksumHex m) = true := by
  have hdigit : ∀ n < 16, isLowerHex (hexDigit (UInt8.ofNat n)) = true := by decide
  simp only [isHexDigest, checksumHex, List.length_map, List.length_range, decide_true,
    Bool.true_and, List.all_map, List.all_eq_true]
  exact fun i _ ↦ hdigit _ (Nat.mod_lt _ (by decide))

theorem isLowerHex_lt {c : UInt8} (h : isLowerHex c = true) : c < 0x80 := by
  simp only [isLowerHex, Bool.or_eq_true, Bool.and_eq_true, decide_eq_true_eq] at h
  obtain ⟨-, h⟩ | ⟨-, h⟩ := h
  · exact UInt8.lt_of_le_of_lt h (by decide)
  · exact UInt8.lt_of_le_of_lt h (by decide)

theorem length_hexEncode : (hexEncode b).length = 2 * b.length := by
  induction b with
  | nil => rfl
  | cons c b ih =>
    rw [hexEncode] at ih ⊢
    simp only [flatMap_cons, length_append, ih, length_cons, length_nil]
    omega

theorem isLowerHex_hexEncode {b : Bytes} {c : UInt8} (hc : c ∈ hexEncode b) :
    isLowerHex c = true := by
  have hdigits := forall_nibble (P := fun n ↦ isLowerHex (hexDigit n) = true) (by decide)
  obtain ⟨d, -, hc⟩ := mem_flatMap.1 hc
  simp only [mem_cons, not_mem_nil, or_false] at hc
  obtain rfl | rfl := hc
  · exact (hdigits d).1
  · exact (hdigits d).2

def sextets : Bytes → List ℕ
  | [] => []
  | [a] => [a.toNat / 4, a.toNat % 4 * 16]
  | [a, b] => [a.toNat / 4, a.toNat % 4 * 16 + b.toNat / 16, b.toNat % 16 * 4]
  | a :: b :: c :: rest =>
    a.toNat / 4 :: (a.toNat % 4 * 16 + b.toNat / 16) :: (b.toNat % 16 * 4 + c.toNat / 64) ::
      c.toNat % 64 :: sextets rest

/-- The bytes of groups of six bits; the bits that are left over at the end are dropped, and a
single group is no byte. -/
def octets : List ℕ → Option Bytes
  | [] => some []
  | [_] => none
  | [p, q] => some [UInt8.ofNat (p * 4 + q / 16)]
  | [p, q, r] => some [UInt8.ofNat (p * 4 + q / 16), UInt8.ofNat (q % 16 * 16 + r / 4)]
  | p :: q :: r :: s :: rest =>
    (octets rest).map fun out ↦ UInt8.ofNat (p * 4 + q / 16) :: UInt8.ofNat (q % 16 * 16 + r / 4) ::
        UInt8.ofNat (r % 4 * 64 + s) :: out

def base64Digit (plus slash : UInt8) (n : ℕ) : UInt8 :=
  if n < 26 then UInt8.ofNat (0x41 + n)
  else if n < 52 then UInt8.ofNat (0x47 + n)
  else if n < 62 then UInt8.ofNat (n - 4)
  else if n = 62 then plus
  else slash

def stdDigit : ℕ → UInt8 := base64Digit 0x2b 0x2f

def urlDigit : ℕ → UInt8 := base64Digit 0x2d 0x5f

def base64 : Bytes :=
  (sextets b).map stdDigit ++ List.replicate ((3 - b.length % 3) % 3) 0x3d

def rawURLEncode : Bytes := (sextets b).map urlDigit

def urlValue (c : UInt8) : Option ℕ :=
  if 0x41 ≤ c ∧ c ≤ 0x5a then some (c.toNat - 0x41)
  else if 0x61 ≤ c ∧ c ≤ 0x7a then some (c.toNat - 0x47)
  else if 0x30 ≤ c ∧ c ≤ 0x39 then some (c.toNat + 4)
  else if c = 0x2d then some 62
  else if c = 0x5f then some 63
  else none

/-- `base64.RawURLEncoding.DecodeString`, which skips line breaks. -/
def rawURLDecode (text : Bytes) : Option Bytes :=
  ((text.filter fun c ↦ c ≠ 0x0a && c ≠ 0x0d).mapM urlValue).bind octets

def stdValue (c : UInt8) : Option ℕ :=
  if c = 0x2b then some 62
  else if c = 0x2f then some 63
  else if c = 0x2d ∨ c = 0x5f then none
  else urlValue c

/-- `base64.StdEncoding.DecodeString`, which skips line breaks and wants the padding. -/
def stdDecode (text : Bytes) : Option Bytes :=
  let text := text.filter fun c ↦ c ≠ 0x0a && c ≠ 0x0d
  let pads := text.dropWhile (· ≠ 0x3d)
  if text.length % 4 = 0 ∧ pads.length ≤ 2 ∧ pads.all (· = 0x3d) then
    ((text.takeWhile (· ≠ 0x3d)).mapM stdValue).bind octets
  else none

theorem sextets_lt : ∀ n ∈ sextets b, n < 64 := by
  induction b using sextets.induct with
  | case1 => simp [sextets]
  | case2 a =>
    have ha := a.toNat_lt
    simp only [sextets, forall_mem_cons, not_mem_nil, IsEmpty.forall_iff, implies_true, and_true]
    omega
  | case3 a b =>
    have ha := a.toNat_lt
    have hb := b.toNat_lt
    simp only [sextets, forall_mem_cons, not_mem_nil, IsEmpty.forall_iff, implies_true, and_true]
    omega
  | case4 a b c rest ih =>
    have ha := a.toNat_lt
    have hb := b.toNat_lt
    have hc := c.toNat_lt
    simp only [sextets, forall_mem_cons]
    exact ⟨by omega, by omega, by omega, by omega, ih⟩

theorem ofNat_of_toNat_eq {a : UInt8} {n : ℕ} (h : n = a.toNat) : UInt8.ofNat n = a := by
  rw [h, UInt8.ofNat_toNat]

theorem octets_sextets : octets (sextets b) = some b := by
  induction b using sextets.induct with
  | case1 => rfl
  | case2 a =>
    rw [sextets, octets, ofNat_of_toNat_eq (a := a) (by omega)]
  | case3 a b =>
    have hb := b.toNat_lt
    rw [sextets, octets, ofNat_of_toNat_eq (a := a) (by omega),
      ofNat_of_toNat_eq (a := b) (by omega)]
  | case4 a b c rest ih =>
    have hb := b.toNat_lt
    have hc := c.toNat_lt
    rw [sextets, octets, ih, map_some, ofNat_of_toNat_eq (a := a) (by omega),
      ofNat_of_toNat_eq (a := b) (by omega), ofNat_of_toNat_eq (a := c) (by omega)]

theorem length_sextets : (sextets b).length = (4 * b.length + 2) / 3 := by
  induction b using sextets.induct with
  | case1 => rfl
  | case2 | case3 => simp [sextets]
  | case4 a b c rest ih =>
    simp only [sextets, length_cons, ih]
    omega

theorem length_rawURLEncode : (rawURLEncode b).length = (4 * b.length + 2) / 3 := by
  rw [rawURLEncode, length_map, length_sextets]

theorem length_octets {ns : List ℕ} {out : Bytes} (h : octets ns = some out) :
    ns.length = (4 * out.length + 2) / 3 := by
  induction ns using octets.induct generalizing out with
  | case1 => cases h; rfl
  | case2 => cases h
  | case3 | case4 => cases h; simp
  | case5 p q r s rest ih =>
    obtain ⟨out', hout, rfl⟩ := map_eq_some_iff.1 h
    simp only [length_cons, ih hout]
    omega

theorem sextets_octets_iff {ns : List ℕ} {out : Bytes} (h : octets ns = some out)
    (hns : ∀ n ∈ ns, n < 64) :
    sextets out = ns ↔ ∀ n ∈ ns.getLast?,
      (ns.length % 4 = 2 → 16 ∣ n) ∧ (ns.length % 4 = 3 → 4 ∣ n) := by
  induction ns using octets.induct generalizing out with
  | case1 => cases h; simp [sextets]
  | case2 => cases h
  | case3 p q =>
    obtain ⟨hp, hq, -⟩ : p < 64 ∧ q < 64 ∧ True := by simpa using hns
    cases h
    simp [sextets]
    omega
  | case4 p q r =>
    obtain ⟨hp, hq, hr⟩ : p < 64 ∧ q < 64 ∧ r < 64 := by simpa using hns
    cases h
    simp [sextets]
    omega
  | case5 p q r s rest ih =>
    obtain ⟨out', hout, rfl⟩ := map_eq_some_iff.1 h
    simp only [forall_mem_cons] at hns
    obtain ⟨hp, hq, hr, hs, hrest⟩ := hns
    have hgroups : sextets (UInt8.ofNat (p * 4 + q / 16) :: UInt8.ofNat (q % 16 * 16 + r / 4) ::
        UInt8.ofNat (r % 4 * 64 + s) :: out') = p :: q :: r :: s :: sextets out' := by
      simp [sextets]
      omega
    rw [hgroups]
    simp only [cons.injEq, true_and, ih hout hrest]
    cases rest with
    | nil => simp
    | cons n rest =>
      have hmod : (n :: rest).length % 4 = (p :: q :: r :: s :: n :: rest).length % 4 := by
        simp only [length_cons]
        omega
      rw [hmod]
      simp only [getLast?_cons_cons]

theorem urlValue_urlDigit : ∀ n < 64, urlValue (urlDigit n) = some n := by decide

theorem urlDigit_ne_break : ∀ n < 64, urlDigit n ≠ 0x0a ∧ urlDigit n ≠ 0x0d := by decide

theorem mapM_value_digit {value : UInt8 → Option ℕ} {digit : ℕ → UInt8} {base : ℕ}
    (h : ∀ n < base, value (digit n) = some n) {ns : List ℕ} (hns : ∀ n ∈ ns, n < base) :
    (ns.map digit).mapM value = some ns := by
  induction ns with
  | nil => rfl
  | cons n ns ih =>
    obtain ⟨hn, hns⟩ := forall_mem_cons.1 hns
    rw [map_cons, mapM_cons, h n hn, ih hns]
    rfl

theorem urlDigit_urlValue {c : UInt8} {n : ℕ} (h : urlValue c = some n) :
    n < 64 ∧ urlDigit n = c := by
  have hall : ∀ c : Fin 256, ∀ n ∈ urlValue (UInt8.ofNat c),
      n < 64 ∧ urlDigit n = UInt8.ofNat c := by
    decide +kernel
  have hc := hall ⟨c.toNat, c.toNat_lt⟩ n
  rw [UInt8.ofNat_toNat] at hc
  exact hc h

theorem map_digit_of_mapM_value {text : Bytes} {ns : List ℕ} (h : text.mapM urlValue = some ns) :
    (∀ n ∈ ns, n < 64) ∧ ns.map urlDigit = text := by
  induction text generalizing ns with
  | nil => cases h; simp
  | cons c text ih =>
    rw [mapM_cons, bind_eq_bind, bind_eq_some_iff] at h
    obtain ⟨n, hn, h⟩ := h
    obtain ⟨ns', hns', h⟩ := bind_eq_some_iff.1 h
    cases h
    obtain ⟨hlt, hdigit⟩ := urlDigit_urlValue hn
    obtain ⟨hall, hmap⟩ := ih hns'
    exact ⟨forall_mem_cons.2 ⟨hlt, hall⟩, by rw [map_cons, hdigit, hmap]⟩

theorem rawURLDecode_rawURLEncode : rawURLDecode (rawURLEncode b) = some b := by
  have hkept : (rawURLEncode b).filter (fun c ↦ c ≠ 0x0a && c ≠ 0x0d) = rawURLEncode b := by
    rw [filter_eq_self]
    intro c hc
    obtain ⟨n, hn, rfl⟩ := mem_map.1 hc
    simpa using urlDigit_ne_break n (sextets_lt b n hn)
  rw [rawURLDecode, hkept, rawURLEncode, mapM_value_digit urlValue_urlDigit (sextets_lt b),
    bind_some, octets_sextets]

theorem length_of_rawURLDecode {text b : Bytes} (h : rawURLDecode text = some b) :
    (4 * b.length + 2) / 3 ≤ text.length := by
  obtain ⟨ns, hns, hoctets⟩ := bind_eq_some_iff.1 h
  rw [← length_octets hoctets, ← length_map urlDigit, (map_digit_of_mapM_value hns).2]
  exact length_filter_le _ _

theorem rawURLEncode_rawURLDecode_iff {text b : Bytes} (h : rawURLDecode text = some b)
    (hlength : text.length = (4 * b.length + 2) / 3) :
    rawURLEncode b = text ↔ ∀ c ∈ text.getLast?, ∀ n ∈ urlValue c,
      (text.length % 4 = 2 → 16 ∣ n) ∧ (text.length % 4 = 3 → 4 ∣ n) := by
  obtain ⟨ns, hns, hoctets⟩ := bind_eq_some_iff.1 h
  obtain ⟨hlt, hmap⟩ := map_digit_of_mapM_value hns
  have hkept : text.filter (fun c ↦ c ≠ 0x0a && c ≠ 0x0d) = text := by
    refine filter_sublist.eq_of_length ?_
    rw [hlength, ← length_octets hoctets, ← hmap, length_map]
  rw [hkept] at hmap
  rw [← hmap, length_map, getLast?_map, rawURLEncode]
  have hinj : (sextets b).map urlDigit = ns.map urlDigit ↔ sextets b = ns := by
    refine ⟨fun heq ↦ ?_, congrArg _⟩
    have hvalues := mapM_value_digit urlValue_urlDigit (sextets_lt b)
    rw [heq, mapM_value_digit urlValue_urlDigit hlt] at hvalues
    exact (some.inj hvalues).symm
  rw [hinj, sextets_octets_iff hoctets hlt]
  cases hlast : ns.getLast? with
  | none => simp
  | some n => simp [urlValue_urlDigit n (hlt n (mem_of_getLast? hlast))]

theorem stdDigit_ne_pad : ∀ n < 64, stdDigit n ≠ 0x3d := by decide

theorem stdDigit_plain : ∀ n < 64, stdDigit n < 0x80 ∧ 0x20 ≤ stdDigit n ∧ stdDigit n ≠ 0x22 ∧
    stdDigit n ≠ 0x5c := by decide

theorem stdValue_stdDigit : ∀ n < 64, stdValue (stdDigit n) = some n := by decide

theorem stdDigit_inj (m : ℕ) (hm : m < 64) (n : ℕ) (hn : n < 64)
    (h : stdDigit m = stdDigit n) : m = n := by
  have hvalue := congrArg stdValue h
  rw [stdValue_stdDigit m hm, stdValue_stdDigit n hn] at hvalue
  exact some.inj hvalue

theorem stdDecode_base64 : stdDecode (base64 b) = some b := by
  have hdigit : ∀ c ∈ (sextets b).map stdDigit, c ≠ 0x3d ∧ c ≠ 0x0a ∧ c ≠ 0x0d := by
    have hne : ∀ n < 64, stdDigit n ≠ 0x3d ∧ stdDigit n ≠ 0x0a ∧ stdDigit n ≠ 0x0d := by decide
    intro c hc
    obtain ⟨n, hn, rfl⟩ := mem_map.1 hc
    exact hne n (sextets_lt b n hn)
  have hkept : (base64 b).filter (fun c ↦ c ≠ 0x0a && c ≠ 0x0d) = base64 b := by
    rw [filter_eq_self]
    intro c hc
    obtain hc | hc := mem_append.1 hc
    · simpa using (hdigit c hc).2
    · rw [eq_of_mem_replicate hc]
      rfl
  have hlength : (base64 b).length % 4 = 0 := by
    rw [base64, length_append, length_map, length_sextets, length_replicate]
    have hmod : b.length % 3 = 0 ∨ b.length % 3 = 1 ∨ b.length % 3 = 2 := by omega
    obtain hmod | hmod | hmod := hmod <;> rw [hmod] <;> omega
  have htake : (base64 b).takeWhile (· ≠ 0x3d) = (sextets b).map stdDigit := by
    rw [base64, takeWhile_append_of_pos fun c hc ↦ decide_eq_true (hdigit c hc).1]
    cases (3 - b.length % 3) % 3 <;> simp [replicate_succ]
  have hdrop : (base64 b).dropWhile (· ≠ 0x3d) = replicate ((3 - b.length % 3) % 3) 0x3d := by
    rw [base64, dropWhile_append_of_pos fun c hc ↦ decide_eq_true (hdigit c hc).1]
    cases (3 - b.length % 3) % 3 <;> simp [replicate_succ]
  have hpads : (3 - b.length % 3) % 3 ≤ 2 := by omega
  simp only [stdDecode, hkept, htake, hdrop, hlength, length_replicate]
  rw [if_pos ⟨trivial, hpads, by simp⟩, mapM_value_digit stdValue_stdDigit (sextets_lt b),
    bind_some, octets_sextets]

theorem filter_base64 : (base64 b).filter (· ≠ 0x3d) = (sextets b).map stdDigit := by
  have hdigits : ((sextets b).map stdDigit).filter (· ≠ 0x3d) = (sextets b).map stdDigit := by
    rw [filter_eq_self]
    intro c hc
    obtain ⟨n, hn, rfl⟩ := mem_map.1 hc
    exact decide_eq_true (stdDigit_ne_pad n (sextets_lt b n hn))
  rw [base64, filter_append, hdigits, filter_replicate_of_neg (by simp), append_nil]

theorem base64_inj {x y : Bytes} (h : base64 x = base64 y) : x = y := by
  have hdigits := congrArg (filter (· ≠ 0x3d)) h
  rw [filter_base64, filter_base64] at hdigits
  have hsextets : sextets x = sextets y := map_inj_of_mem (fun m hm n hn ↦
    stdDigit_inj m (sextets_lt x m hm) n (sextets_lt y n hn)) hdigits
  have hoctets := octets_sextets x
  rw [hsextets, octets_sextets] at hoctets
  exact (some.inj hoctets).symm

theorem base64_plain : ∀ c ∈ base64 b, c < 0x80 ∧ 0x20 ≤ c ∧ c ≠ 0x22 ∧ c ≠ 0x5c := by
  intro c hc
  obtain hc | hc := mem_append.1 hc
  · obtain ⟨n, hn, rfl⟩ := mem_map.1 hc
    exact stdDigit_plain n (sextets_lt b n hn)
  · rw [eq_of_mem_replicate hc]
    decide

theorem stringBody_base64 : Scanner.StringBody (base64 b) :=
  Scanner.stringBody_plains fun c hc ↦ (base64_plain b c hc).2

end GoCell.Kernel
