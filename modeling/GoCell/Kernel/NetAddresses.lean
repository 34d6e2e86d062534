import GoCell.Kernel.Strings
import GoCell.Kernel.Timestamps

/-! Addresses as package `net` reads and writes them. -/

namespace GoCell.Kernel

open Foundation List

abbrev IP := { ip : Bytes // ip.length = 4 ∨ ip.length = 16 }

/-- `IP.To4`, which also takes the IPv4 address out of an IPv4-mapped IPv6 address. -/
def to4 (ip : Bytes) : Option Bytes :=
  if ip.length = 4 then some ip
  else if ip.take 12 = replicate 10 0 ++ [0xff, 0xff] then some (ip.drop 12)
  else none

section Text

/-- The groups of 16 bits of an address. -/
def groupsOf : Bytes → List ℕ
  | high :: low :: rest => (256 * high.toNat + low.toNat) :: groupsOf rest
  | _ => []

def groupBytes (n : ℕ) : Bytes := [UInt8.ofNat (n / 256), UInt8.ofNat n]

def groupText (n : ℕ) : Bytes :=
  if n = 0 then [0x30] else (Nat.digits 16 n).reverse.map fun d ↦ hexDigit (UInt8.ofNat d)

def leadingZeros (gs : List ℕ) : ℕ := (gs.takeWhile (· = 0)).length

/-- The start and the length of the first of the longest runs of two zero groups or more; the length
is zero if there is none. -/
def longestRun (gs : List ℕ) : ℕ × ℕ :=
  (range gs.length).foldl (fun best i ↦
    let l := leadingZeros (gs.drop i)
    if 2 ≤ l ∧ best.2 < l then (i, l) else best) (0, 0)

def orEmpty (ts : List Bytes) : List Bytes := if ts = [] then [[]] else ts

/-- The texts between the colons of an IPv6 address; an empty one stands for the run of zeros. -/
def tokens6 (gs : List ℕ) : List Bytes :=
  let run := longestRun gs
  if run.2 = 0 then gs.map groupText
  else orEmpty ((gs.take run.1).map groupText) ++
    [] :: orEmpty ((gs.drop (run.1 + run.2)).map groupText)

/-- `IP.String`. -/
def ipString (ip : Bytes) : Bytes :=
  match to4 ip with
  | some v4 => [0x2e].intercalate (v4.map fun b ↦ decimalNat b.toNat)
  | none => [0x3a].intercalate (tokens6 (groupsOf ip))

end Text

section Parse

/-- A field of an IPv4 address has no leading zeros. -/
def parseOctet (t : Bytes) : Option UInt8 :=
  ((parseDigits t).filter fun n ↦ n ≤ 255 ∧ decimalNat n = t).map UInt8.ofNat

def parseIPv4 (s : Bytes) : Option Bytes :=
  ((splitOn 0x2e s).mapM parseOctet).filter fun b ↦ b.length = 4

def parseGroup (t : Bytes) : Option Bytes :=
  if t = [] ∨ 4 < t.length then none
  else (t.mapM hexValue).map fun ds ↦ groupBytes (Nat.ofDigits 16 ds.reverse)

/-- The last text may be an IPv4 address. -/
def parseGroups : List Bytes → Option Bytes
  | [] => some []
  | [t] => if 0x2e ∈ t then parseIPv4 t else parseGroup t
  | t :: ts => (parseGroup t).bind fun b ↦ (parseGroups ts).map (b ++ ·)

/-- An address begins with a colon only if it begins with two. -/
def dropColon : List Bytes → Option (List Bytes)
  | [] :: [] :: ts => some ([] :: ts)
  | [] :: _ => none
  | ts => some ts

def parseIPv6 (s : Bytes) : Option Bytes := do
  let ts ← dropColon (splitOn 0x3a s)
  let ts ← dropColon ts.reverse
  match splitOn [] ts.reverse with
  | [ts] => (parseGroups ts).filter fun b ↦ b.length = 16
  | [front, back] =>
    let front ← front.mapM parseGroup
    let back ← parseGroups back
    -- the two colons stand for one group at least
    if front.flatten.length + back.length ≤ 14 then
      some (front.flatten ++ replicate (16 - (front.flatten.length + back.length)) 0 ++ back)
    else none
  | _ => none

/-- The characters that tell `ParseAddr` the kind of an address. -/
def isMark (c : UInt8) : Bool := c = 0x2e || c = 0x3a || c = 0x25

/-- `ParseIP`, which takes no zones. -/
def parseIP (s : Bytes) : Option IP :=
  let ip : Option Bytes :=
    match s.find? isMark with
    | some 0x2e => (parseIPv4 s).map fun v4 ↦ replicate 10 0 ++ [0xff, 0xff] ++ v4
    | some 0x3a => if 0x25 ∈ s then none else parseIPv6 s
    | _ => none
  ip.bind fun ip ↦ if h : ip.length = 4 ∨ ip.length = 16 then some ⟨ip, h⟩ else none

/-- The host in the text before the last colon: only brackets let it have colons of its own. -/
def hostOf : Bytes → Option Bytes
  | 0x5b :: inner => if inner.getLast? = some 0x5d then some inner.dropLast else none
  | before => if 0x3a ∈ before then none else some before

def splitHostPort (hostport : Bytes) : Option (Bytes × Bytes) :=
  (cutLast 0x3a hostport).bind fun (before, port) ↦
    (hostOf before).bind fun host ↦
      if 0x5b ∈ host ++ port ∨ 0x5d ∈ host ++ port then none else some (host, port)

def joinHostPort (host port : Bytes) : Bytes :=
  if 0x3a ∈ host then 0x5b :: (host ++ 0x5d :: 0x3a :: port) else host ++ 0x3a :: port

end Parse

section Groups

theorem groupBytes_group (high low : UInt8) :
    groupBytes (256 * high.toNat + low.toNat) = [high, low] := by
  have hhigh : (256 * high.toNat + low.toNat) / 256 = high.toNat := by
    have := low.toNat_lt
    omega
  have hlow : UInt8.ofNat (256 * high.toNat + low.toNat) = low := by
    rw [← UInt8.toNat_inj, UInt8.toNat_ofNat']
    have := low.toNat_lt
    omega
  rw [groupBytes, hhigh, hlow, UInt8.ofNat_toNat]

theorem flatMap_groupBytes {ip : Bytes} (h : ip.length % 2 = 0) :
    (groupsOf ip).flatMap groupBytes = ip := by
  fun_induction groupsOf ip with
  | case1 high low rest ih =>
    rw [flatMap_cons, groupBytes_group, ih (by rw [length_cons, length_cons] at h; omega)]
    rfl
  | case2 ip hshort =>
    match ip with
    | [] => rfl
    | [_] => cases h
    | _ :: _ :: _ => exact absurd rfl (hshort _ _ _)

theorem groupsOf_lt (ip : Bytes) : ∀ n ∈ groupsOf ip, n < 65536 := by
  fun_induction groupsOf ip with
  | case1 high low rest ih =>
    refine forall_mem_cons.2 ⟨?_, ih⟩
    have := high.toNat_lt
    have := low.toNat_lt
    omega
  | case2 => simp

theorem hexValue_group : ∀ d < 16, hexValue (hexDigit (UInt8.ofNat d)) = some d := by decide

theorem groupText_ne_nil (n : ℕ) : groupText n ≠ [] := by
  unfold groupText
  split
  · simp
  · next h => simpa using Nat.digits_ne_nil_iff_ne_zero.2 h

theorem isLowerHex_groupText {n : ℕ} : ∀ c ∈ groupText n, isLowerHex c = true := by
  unfold groupText
  split
  · simp [isLowerHex]
  · intro c hc
    obtain ⟨d, hd, rfl⟩ := mem_map.1 hc
    have hall : ∀ d < 16, isLowerHex (hexDigit (UInt8.ofNat d)) = true := by decide
    exact hall d (Nat.digits_lt_base (by norm_num) (mem_reverse.1 hd))

theorem parseGroup_groupText {n : ℕ} (h : n < 65536) :
    parseGroup (groupText n) = some (groupBytes n) := by
  have hlength : (groupText n).length ≤ 4 := by
    unfold groupText
    split
    · simp
    · next hn =>
      rw [length_map, length_reverse]
      exact (Nat.digits_length_le_iff (by norm_num) n).2 h
  rw [parseGroup, if_neg (by simp [groupText_ne_nil, hlength])]
  unfold groupText
  split
  · next hn => subst hn; rfl
  · have hlt : ∀ d ∈ (Nat.digits 16 n).reverse, d < 16 := fun d hd ↦
      Nat.digits_lt_base (by norm_num) (mem_reverse.1 hd)
    rw [mapM_value_digit hexValue_group hlt, Option.map_some, reverse_reverse, Nat.ofDigits_digits]

theorem mapM_parseGroup {gs : List ℕ} (h : ∀ n ∈ gs, n < 65536) :
    (gs.map groupText).mapM parseGroup = some (gs.map groupBytes) := by
  rw [mapM_map]
  exact mapM_eq_pure fun n hn ↦ parseGroup_groupText (h n hn)

theorem parseGroups_groupText {gs : List ℕ} (h : ∀ n ∈ gs, n < 65536) :
    parseGroups (gs.map groupText) = some (gs.flatMap groupBytes) := by
  match gs with
  | [] => rfl
  | [n] =>
    have hdot : 0x2e ∉ groupText n := fun hmem ↦ absurd (isLowerHex_groupText _ hmem) (by decide)
    rw [map_singleton, parseGroups, if_neg hdot, parseGroup_groupText (h n mem_cons_self)]
    simp
  | n :: n' :: gs =>
    have ih : parseGroups ((n' :: gs).map groupText) = some ((n' :: gs).flatMap groupBytes) :=
      parseGroups_groupText fun m hm ↦ h m (mem_cons_of_mem n hm)
    rw [map_cons, parseGroups, parseGroup_groupText (h n mem_cons_self), ih, flatMap_cons]
    · rfl
    · simp

theorem length_flatMap_groupBytes (gs : List ℕ) :
    (gs.flatMap groupBytes).length = 2 * gs.length := by
  induction gs with
  | nil => rfl
  | cons n gs ih =>
    rw [flatMap_cons, length_append, ih, length_cons, groupBytes, length_cons, length_singleton]
    omega

theorem flatMap_groupBytes_zeros (l : ℕ) :
    (replicate l 0).flatMap groupBytes = replicate (2 * l) 0 := by
  induction l with
  | zero => rfl
  | succ l ih =>
    rw [replicate_succ, flatMap_cons, ih]
    rfl

end Groups

section Tokens

theorem longestRun_zeros (gs : List ℕ) : (longestRun gs).2 = 0 ∨
      2 ≤ (longestRun gs).2 ∧ (longestRun gs).2 ≤ leadingZeros (gs.drop (longestRun gs).1) := by
  unfold longestRun
  refine foldlRecOn (motive := fun r : ℕ × ℕ ↦ r.2 = 0 ∨ 2 ≤ r.2 ∧ r.2 ≤ leadingZeros (gs.drop r.1))
    _ _ (.inl rfl) fun r hr i _ ↦ ?_
  dsimp only
  split
  · next h => exact .inr ⟨h.1, le_rfl⟩
  · exact hr

variable {gs : List ℕ}

theorem eq_append_zeros {i l : ℕ} (h : l ≤ leadingZeros (gs.drop i)) :
    gs = gs.take i ++ (replicate l 0 ++ gs.drop (i + l)) := by
  have hwhile : (gs.drop i).takeWhile (· = 0) <+: gs.drop i := takeWhile_prefix _
  have htake : (gs.drop i).take l <+: (gs.drop i).takeWhile (· = 0) := by
    refine prefix_of_prefix_length_le ( take_prefix l _) hwhile ?_
    rw [length_take]
    exact min_le_of_left_le h
  have hzeros : (gs.drop i).take l = replicate l 0 := by
    refine eq_replicate_iff.2 ⟨?_, fun n hn ↦ ?_⟩
    · exact length_take_of_le (h.trans hwhile.length_le)
    · simpa using mem_takeWhile_imp (htake.subset hn)
  rw [← drop_drop, ← hzeros, take_append_drop, take_append_drop]

theorem tokens6_cases (gs : List ℕ) : tokens6 gs = gs.map groupText ∨
      ∃ front l back, 0 < l ∧ gs = front ++ (replicate l 0 ++ back) ∧
        tokens6 gs = orEmpty (front.map groupText) ++ [] :: orEmpty (back.map groupText) := by
  obtain hrun | ⟨htwo, hrun⟩ := longestRun_zeros gs
  · exact .inl (if_pos hrun)
  · exact .inr ⟨_, _, _, by omega, eq_append_zeros hrun, if_neg (by omega)⟩

theorem dropColon_of_ne_nil {ts : List Bytes} (h : [] ∉ ts) : dropColon ts = some ts := by
  match ts with
  | [] => rfl
  | [] :: _ => exact absurd mem_cons_self h
  | (_ :: _) :: _ => rfl

theorem dropColon_orEmpty {front : List Bytes} (h : [] ∉ front) (back : List Bytes) :
    dropColon (orEmpty front ++ [] :: back) = some (front ++ [] :: back) := by
  match front with
  | [] => rfl
  | [] :: _ => exact absurd mem_cons_self h
  | (_ :: _) :: _ => rfl

theorem reverse_orEmpty (ts : List Bytes) : (orEmpty ts).reverse = orEmpty ts.reverse := by
  cases ts with
  | nil => rfl
  | cons t ts => simp [orEmpty]

theorem length_orEmpty_pos (ts : List Bytes) : 0 < (orEmpty ts).length := by
  cases ts with
  | nil => exact Nat.one_pos
  | cons t ts => exact Nat.succ_pos _

theorem nil_notMem_groupText (gs : List ℕ) : [] ∉ gs.map groupText := by
  intro hmem
  obtain ⟨n, -, hn⟩ := mem_map.1 hmem
  exact groupText_ne_nil n hn

theorem isLowerHex_of_mem_groups {t : Bytes} (h : t ∈ orEmpty (gs.map groupText)) :
    ∀ c ∈ t, isLowerHex c = true := by
  unfold orEmpty at h
  split at h
  · rw [mem_singleton.1 h]
    simp
  · obtain ⟨n, -, rfl⟩ := mem_map.1 h
    exact isLowerHex_groupText

theorem isLowerHex_of_mem_tokens6 {t : Bytes} (h : t ∈ tokens6 gs) :
    ∀ c ∈ t, isLowerHex c = true := by
  obtain htokens | ⟨front, l, back, -, -, htokens⟩ := tokens6_cases gs
  · rw [htokens] at h
    obtain ⟨n, -, rfl⟩ := mem_map.1 h
    exact isLowerHex_groupText
  · rw [htokens] at h
    obtain h | h := mem_append.1 h
    · exact isLowerHex_of_mem_groups h
    · obtain rfl | h := mem_cons.1 h
      · simp
      · exact isLowerHex_of_mem_groups h

theorem one_lt_length_tokens6 (h : gs.length = 8) : 1 < (tokens6 gs).length := by
  obtain htokens | ⟨front, l, back, -, -, htokens⟩ := tokens6_cases gs
  · rw [htokens, length_map]
    omega
  · have := length_orEmpty_pos (front.map groupText)
    rw [htokens, length_append, length_cons]
    omega

theorem parseIPv6_tokens6 (hlength : gs.length = 8) (h : ∀ n ∈ gs, n < 65536) :
    parseIPv6 ([0x3a].intercalate (tokens6 gs)) = some (gs.flatMap groupBytes) := by
  have hsplit : splitOn 0x3a ([0x3a].intercalate (tokens6 gs)) = tokens6 gs := by
    refine splitOn_intercalate 0x3a (fun t ht hmem ↦ ?_) ?_
    · exact absurd (isLowerHex_of_mem_tokens6 ht _ hmem) (by decide)
    · have := one_lt_length_tokens6 hlength
      exact length_pos_iff.1 (by omega)
  rw [parseIPv6, hsplit]
  obtain htokens | ⟨front, l, back, hl, rfl, htokens⟩ := tokens6_cases gs
  · have hnil := nil_notMem_groupText gs
    have hback := dropColon_of_ne_nil (mt mem_reverse.1 hnil)
    simp only [htokens, dropColon_of_ne_nil hnil, Option.bind_eq_bind, Option.bind_some, hback,
      reverse_reverse, splitOn_eq_singleton hnil, parseGroups_groupText h]
    rw [Option.filter_some, length_flatMap_groupBytes, hlength]
    rfl
  · have hcolon := dropColon_orEmpty (nil_notMem_groupText front) (orEmpty (back.map groupText))
    have hreverse : dropColon (front.map groupText ++ [] :: orEmpty (back.map groupText)).reverse =
        some (front.map groupText ++ [] :: back.map groupText).reverse := by
      have h' := dropColon_orEmpty (mt mem_reverse.1 (nil_notMem_groupText back))
        (front.map groupText).reverse
      simpa [reverse_orEmpty] using h'
    have hparts : splitOn [] (front.map groupText ++ [] :: back.map groupText) =
        [front.map groupText, back.map groupText] := by
      rw [splitOn_append_cons_self_of_not_mem (nil_notMem_groupText front),
        splitOn_eq_singleton (nil_notMem_groupText back)]
    simp only [forall_mem_append] at h
    simp only [length_append, length_replicate] at hlength
    simp only [htokens, hcolon, Option.bind_eq_bind, Option.bind_some, hreverse, reverse_reverse,
      hparts, mapM_parseGroup h.1, parseGroups_groupText h.2.2, ← flatMap_def]
    have hzeros : 16 - (2 * front.length + 2 * back.length) = 2 * l := by omega
    rw [length_flatMap_groupBytes, length_flatMap_groupBytes, if_pos (by omega), hzeros,
      flatMap_append, flatMap_append, flatMap_groupBytes_zeros, append_assoc]

end Tokens

section RoundTrip

theorem mem_intercalate {sep c : UInt8} {ts : List Bytes} (h : c ∈ [sep].intercalate ts) :
    c = sep ∨ ∃ t ∈ ts, c ∈ t := by
  induction ts with
  | nil => cases h
  | cons t ts ih =>
    cases ts with
    | nil => exact .inr ⟨t, mem_cons_self, by simpa using h⟩
    | cons t' ts =>
      rw [intercalate_cons_of_ne_nil (cons_ne_nil _ _)] at h
      obtain (h | h) | h := by simpa only [mem_append] using h
      · exact .inr ⟨t, mem_cons_self, h⟩
      · exact .inl (mem_singleton.1 h)
      · exact (ih h).imp_right fun ⟨t₁, ht₁, hc⟩ ↦ ⟨t₁, mem_cons_of_mem t ht₁, hc⟩

/-- The separator is the first of the characters `parseIP` looks for. -/
theorem find_intercalate {sep : UInt8} {ts : List Bytes} {p : UInt8 → Bool} (hsep : p sep = true)
    (hts : ∀ t ∈ ts, ∀ c ∈ t, p c = false) (hlength : 1 < ts.length) :
    ([sep].intercalate ts).find? p = some sep := by
  have hnotMem : ∀ t ∈ ts, sep ∉ t := by
    intro t ht hmem
    rw [hts t ht sep hmem] at hsep
    cases hsep
  match hfind : ([sep].intercalate ts).find? p with
  | some c =>
    obtain rfl | ⟨t, ht, hc⟩ := mem_intercalate (mem_of_find?_eq_some hfind)
    · rfl
    · have hc' := find?_some hfind
      rw [hts t ht c hc] at hc'
      cases hc'
  | none =>
    have hsplit := splitOn_intercalate sep hnotMem (length_pos_iff.1 (by omega))
    have hmem : sep ∉ [sep].intercalate ts := fun hmem ↦ find?_eq_none.1 hfind sep hmem hsep
    rw [splitOn_eq_singleton hmem] at hsplit
    rw [← hsplit, length_singleton] at hlength
    omega

theorem parseOctet_decimalNat (b : UInt8) : parseOctet (decimalNat b.toNat) = some b := by
  have := b.toNat_lt
  rw [parseOctet, parseDigits_decimalNat, Option.filter_some, if_pos (by simp; omega),
    Option.map_some, UInt8.ofNat_toNat]

theorem parseIPv4_dotted {v4 : Bytes} (h : v4.length = 4) :
    parseIPv4 ([0x2e].intercalate (v4.map fun b ↦ decimalNat b.toNat)) = some v4 := by
  have hdot : ∀ t ∈ v4.map fun b ↦ decimalNat b.toNat, 0x2e ∉ t := by
    intro t ht hmem
    obtain ⟨b, -, rfl⟩ := mem_map.1 ht
    exact absurd (isNumeric_decimalNat _ _ hmem) (by decide)
  have hne : (v4.map fun b ↦ decimalNat b.toNat) ≠ [] :=
    length_pos_iff.1 (by rw [length_map]; omega)
  have hoctets : (v4.map fun b ↦ decimalNat b.toNat).mapM parseOctet = some (v4.map id) := by
    rw [mapM_map]
    exact mapM_eq_pure fun b _ ↦ parseOctet_decimalNat b
  rw [parseIPv4, splitOn_intercalate 0x2e hdot hne, hoctets, map_id, Option.filter_some,
    if_pos (by simpa using h)]

theorem length_to4 {ip : IP} {v4 : Bytes} (h : to4 ip = some v4) : v4.length = 4 := by
  unfold to4 at h
  split at h
  · next hlength => rwa [← Option.some.inj h]
  · next hlength =>
    split at h
    · rw [← Option.some.inj h, length_drop, ip.2.resolve_left hlength]
    · cases h

theorem to4_mapped {v4 : Bytes} (h : v4.length = 4) :
    to4 (replicate 10 0 ++ [0xff, 0xff] ++ v4) = some v4 := by
  have hlength : (replicate 10 0 ++ [0xff, 0xff] ++ v4).length ≠ 4 := by simp [h]
  rw [to4, if_neg hlength]
  rfl

theorem isMark_eq_false {p : UInt8 → Bool} {c : UInt8}
    (h : p 0x2e = false ∧ p 0x3a = false ∧ p 0x25 = false) (hc : p c = true) :
    isMark c = false := by
  by_contra hmark
  simp only [isMark, Bool.not_eq_false, Bool.or_eq_true, decide_eq_true_eq] at hmark
  obtain (rfl | rfl) | rfl := hmark <;> simp_all

theorem mem_ipString {ip : Bytes} {c : UInt8} (h : c ∈ ipString ip) :
    (isNumeric c || isLowerHex c || c = 0x2e || c = 0x3a) = true := by
  unfold ipString at h
  split at h
  · obtain rfl | ⟨t, ht, hc⟩ := mem_intercalate h
    · decide
    · obtain ⟨b, -, rfl⟩ := mem_map.1 ht
      simp [isNumeric_decimalNat _ c hc]
  · obtain rfl | ⟨t, ht, hc⟩ := mem_intercalate h
    · decide
    · simp [isLowerHex_of_mem_tokens6 ht c hc]

/-- The text of an address is read as the same address, up to the form of an IPv4 address. -/
theorem parseIP_ipString (ip : IP) : ∃ ip', parseIP (ipString ip) = some ip' ∧
    (to4 ip').getD ip' = (to4 ip).getD ip := by
  have hzone : 0x25 ∉ ipString ip := fun hmem ↦ absurd (mem_ipString hmem) (by decide)
  unfold ipString at hzone ⊢
  split at hzone
  · next v4 hto4 =>
    have hlength := length_to4 hto4
    have hfind : ([0x2e].intercalate (v4.map fun b ↦ decimalNat b.toNat)).find? isMark =
        some 0x2e := by
      refine find_intercalate rfl (fun t ht c hc ↦ ?_) (by rw [length_map]; omega)
      obtain ⟨b, -, rfl⟩ := mem_map.1 ht
      exact isMark_eq_false (p := isNumeric) (by decide) (isNumeric_decimalNat _ c hc)
    refine ⟨⟨replicate 10 0 ++ [0xff, 0xff] ++ v4, .inr (by simp [hlength])⟩, ?_, ?_⟩
    · simp only [parseIP, hfind, parseIPv4_dotted hlength, Option.map_some, Option.bind_some]
      rw [dif_pos]
    · rw [to4_mapped hlength, hto4]
      rfl
  · next hto4 =>
    have hlength : ip.1.length = 16 := by
      refine ip.2.resolve_left fun hlength ↦ ?_
      rw [to4, if_pos hlength] at hto4
      cases hto4
    have hbytes : (groupsOf ip.1).flatMap groupBytes = ip.1 := flatMap_groupBytes (by omega)
    have hcount : (groupsOf ip.1).length = 8 := by
      have htwice := length_flatMap_groupBytes (groupsOf ip.1)
      rw [hbytes, hlength] at htwice
      omega
    have hfind : ([0x3a].intercalate (tokens6 (groupsOf ip.1))).find? isMark = some 0x3a := by
      refine find_intercalate rfl (fun t ht c hc ↦ ?_) (one_lt_length_tokens6 hcount)
      exact isMark_eq_false (p := isLowerHex) (by decide) (isLowerHex_of_mem_tokens6 ht c hc)
    refine ⟨ip, ?_, rfl⟩
    simp only [parseIP, hfind, if_neg hzone, parseIPv6_tokens6 hcount (groupsOf_lt _), hbytes,
      Option.bind_some]
    rw [dif_pos ip.2]

theorem splitHostPort_some {hostport host port : Bytes}
    (h : splitHostPort hostport = some (host, port)) :
    0x3a ∉ port ∧ 0x5b ∉ port ∧ 0x5d ∉ port := by
  obtain ⟨⟨before, port'⟩, hcut, h⟩ := Option.bind_eq_some_iff.1 h
  obtain ⟨host', -, h⟩ := Option.bind_eq_some_iff.1 h
  split at h
  · cases h
  · next hbrackets =>
    cases h
    simp only [mem_append, not_or] at hbrackets
    exact ⟨(cutLast_some hcut).2, hbrackets.1.2, hbrackets.2.2⟩

theorem splitHostPort_joinHostPort {host port : Bytes} (hhost : 0x5b ∉ host ∧ 0x5d ∉ host)
    (hport : 0x3a ∉ port ∧ 0x5b ∉ port ∧ 0x5d ∉ port) :
    splitHostPort (joinHostPort host port) = some (host, port) := by
  have hbrackets : ¬(0x5b ∈ host ++ port ∨ 0x5d ∈ host ++ port) := by simp [hhost, hport]
  have hsplit : ∀ {before : Bytes}, hostOf before = some host →
      splitHostPort (before ++ 0x3a :: port) = some (host, port) := by
    intro before hbefore
    rw [splitHostPort, cutLast_append hport.1, Option.bind_some]
    dsimp only
    rw [hbefore, Option.bind_some, if_neg hbrackets]
  unfold joinHostPort
  split
  · have hjoin : 0x5b :: (host ++ 0x5d :: 0x3a :: port) =
        (0x5b :: (host ++ [0x5d])) ++ 0x3a :: port := by simp
    rw [hjoin]
    exact hsplit (by simp [hostOf])
  · next hcolon =>
    refine hsplit ?_
    unfold hostOf
    split
    · exact absurd mem_cons_self hhost.1
    · exact if_neg hcolon

theorem splitHostPort_ipString {ip port : Bytes} (hport : 0x3a ∉ port ∧ 0x5b ∉ port ∧ 0x5d ∉ port) :
    splitHostPort (joinHostPort (ipString ip) port) = some (ipString ip, port) :=
  splitHostPort_joinHostPort ⟨fun h ↦ absurd (mem_ipString h) (by decide),
    fun h ↦ absurd (mem_ipString h) (by decide)⟩ hport

end RoundTrip

end GoCell.Kernel
