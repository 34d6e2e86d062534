import GoCell.Refresh.MemStore

namespace GoCell.Refresh

open Foundation Kernel List

theorem dot_notMem_rawURLEncode (b : Bytes) : 0x2e ∉ rawURLEncode b := by
  have hdigit : ∀ n < 64, urlDigit n ≠ 0x2e := by decide
  intro h
  obtain ⟨n, hn, heq⟩ := mem_map.1 h
  exact hdigit n (sextets_lt b n hn) heq

theorem parseOpaque_encodeOpaque (p : Pair) :
    parseOpaque (encodeOpaque p.selector p.verifier) = some (p.selector, p.verifier) := by
  have hlength : (encodeOpaque p.selector p.verifier).length = wireLen := by
    rw [encodeOpaque, length_append, length_cons, length_rawURLEncode,
      length_rawURLEncode, p.selector_length, p.verifier_length]
    rfl
  have hcut := cut_append (dot_notMem_rawURLEncode p.selector) (rawURLEncode p.verifier)
  simp only [parseOpaque, hlength, guard, if_true, Option.bind_eq_bind]
  rw [encodeOpaque, hcut]
  simp only [rawURLDecode_rawURLEncode, p.selector_length, p.verifier_length, Option.bind_some,
    Option.pure_def, and_self, if_true]

theorem parseOpaque_some {s sel ver : Bytes} (h : parseOpaque s = some (sel, ver)) :
    ∃ before rest, s = before ++ 0x2e :: rest ∧ before.length = 22 ∧ rest.length = 43 ∧
      rawURLDecode before = some sel ∧ rawURLDecode rest = some ver ∧
      sel.length = selectorLen ∧ ver.length = verifierLen := by
  simp only [parseOpaque, guard, Option.bind_eq_bind, Option.bind_eq_some_iff] at h
  obtain ⟨_, hlength, ⟨before, rest⟩, hcut, selB, hsel, verB, hver, _, hlengths, heq⟩ := h
  obtain ⟨rfl, rfl⟩ := Prod.mk.inj (Option.some.inj heq)
  obtain ⟨hlength, -⟩ := Option.ite_none_right_eq_some.1 hlength
  obtain ⟨⟨hselLength, hverLength⟩, -⟩ := Option.ite_none_right_eq_some.1 hlengths
  have hs := (cut_some hcut).1
  have hbefore : _ ≤ before.length := length_of_rawURLDecode hsel
  have hrest : _ ≤ rest.length := length_of_rawURLDecode hver
  rw [hs, length_append, length_cons] at hlength
  rw [hselLength, selectorLen] at hbefore
  rw [hverLength, verifierLen] at hrest
  simp only [wireLen] at hlength
  exact ⟨before, rest, hs, by omega, by omega, hsel, hver, hselLength, hverLength⟩

/-- An encoded pair is parsed back, and an accepted token is the encoding of what it is parsed as
iff the bits are zero that its two halves have left over. -/
theorem opaque_round_trip_iff (p : Pair) (s sel ver : Bytes) :
    parseOpaque (encodeOpaque p.selector p.verifier) = some (p.selector, p.verifier) ∧
      (parseOpaque s = some (sel, ver) →
        (encodeOpaque sel ver = s ↔ (∀ c ∈ s[21]?, ∀ n ∈ urlValue c, 16 ∣ n) ∧
          ∀ c ∈ s[65]?, ∀ n ∈ urlValue c, 4 ∣ n)) := by
  refine ⟨parseOpaque_encodeOpaque p, fun h ↦ ?_⟩
  obtain ⟨before, rest, rfl, hbefore, hrest, hsel, hver, hselLength, hverLength⟩ :=
    parseOpaque_some h
  have hselector := rawURLEncode_rawURLDecode_iff hsel (by rw [hselLength, hbefore]; rfl)
  have hverifier := rawURLEncode_rawURLDecode_iff hver (by rw [hverLength, hrest]; rfl)
  have hencoded : (rawURLEncode sel).length = 22 := by
    rw [length_rawURLEncode, hselLength]
    rfl
  have hsplit : encodeOpaque sel ver = before ++ 0x2e :: rest ↔
      rawURLEncode sel = before ∧ rawURLEncode ver = rest := by
    rw [encodeOpaque, append_eq_append_iff_of_size_eq_left (hencoded.trans hbefore.symm),
      cons.injEq]
    simp
  rw [hsplit, hselector, hverifier, hbefore, hrest, getLast?_eq_getElem?,
    getLast?_eq_getElem?, hbefore, hrest, getElem?_append_left (by omega),
    getElem?_append_right (by omega), hbefore]
  simp

def zeroToken (lastSelector lastVerifier : UInt8) : Bytes :=
  List.replicate 21 0x41 ++ lastSelector :: 0x2e :: List.replicate 42 0x41 ++ [lastVerifier]

theorem zeroToken_round_trip :
    encodeOpaque (List.replicate 16 0) (List.replicate 32 0) = zeroToken 0x41 0x41 :=
  ((opaque_round_trip_iff ⟨replicate 16 0, replicate 32 0, rfl, rfl⟩
    (zeroToken 0x41 0x41) (replicate 16 0) (replicate 32 0)).2 rfl).2 (by decide +kernel)

theorem two_tokens_of_one_pair :
    ¬∀ s sel ver, parseOpaque s = some (sel, ver) → encodeOpaque sel ver = s := by
  intro h
  exact absurd (h (zeroToken 0x42 0x43) (replicate 16 0) (replicate 32 0) rfl)
    (by decide)

end GoCell.Refresh
