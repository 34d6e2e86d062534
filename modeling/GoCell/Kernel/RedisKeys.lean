import GoCell.Foundation.Separators
import GoCell.Kernel.Values

namespace GoCell.Kernel

open Foundation List

/-- `strings.ContainsAny` for the two characters of a hashtag, negated. -/
def braceFree (s : String) : Bool := s.toList.all fun c ↦ c ≠ '\x7b' && c ≠ '\x7d'

def keyNamespaceMaxLen : ℕ := 48

/-- `^[a-z_][a-z0-9_-]*$`. -/
def keyNamespacePattern (s : String) : Bool :=
  match s.toList with
  | [] => false
  | c :: cs =>
    (('a' ≤ c && c ≤ 'z') || c = '_') &&
      cs.all fun c ↦ ('a' ≤ c && c ≤ 'z') || ('0' ≤ c && c ≤ '9') || c = '_' || c = '-'

structure KeyNamespace where
  name : String
  short : name.utf8ByteSize ≤ keyNamespaceMaxLen
  shape : keyNamespacePattern name = true

def applyNamespace (ns key : String) : String := ns ++ ":" ++ key

def applyHashtag (ns key role : String) : String := ns ++ ":\x7b" ++ key ++ "\x7d:" ++ role

/-- `Duration.Milliseconds`, at least one. -/
def clampMs (ttl : Duration) : ℤ := max (ttl.tdiv 1000000) 1

def pxDuration (ms : ℤ) : Duration := ms * 1000000

theorem pxDuration_clampMs {ttl : ℤ} (hpos : 0 < ttl) (hms : (1000000 : ℤ) ∣ ttl) :
    pxDuration (clampMs ttl) = ttl := by
  obtain ⟨n, rfl⟩ := hms
  have hn : 1 ≤ n := by omega
  rw [clampMs, Int.mul_tdiv_cancel_left n (by decide), pxDuration, max_eq_left hn, Int.mul_comm]

theorem braceFree_iff {s : String} :
    braceFree s = true ↔ '\x7b' ∉ s.toList ∧ '\x7d' ∉ s.toList := by
  simp only [braceFree, all_eq_true, Bool.and_eq_true, decide_eq_true_eq]
  constructor
  · intro h
    exact ⟨fun hmem ↦ (h _ hmem).1 rfl, fun hmem ↦ (h _ hmem).2 rfl⟩
  · rintro ⟨hopen, hclose⟩ c hc
    exact ⟨fun heq ↦ hopen (heq ▸ hc), fun heq ↦ hclose (heq ▸ hc)⟩

theorem KeyNamespace.braceFree (ns : KeyNamespace) : Kernel.braceFree ns.name = true := by
  have hshape := ns.shape
  rw [keyNamespacePattern] at hshape
  rw [Kernel.braceFree]
  cases hname : ns.name.toList with
  | nil => rfl
  | cons c cs =>
    simp only [hname, Bool.and_eq_true, all_eq_true] at hshape
    rw [all_eq_true]
    intro d hd
    rcases mem_cons.1 hd with rfl | hd
    · revert hshape
      rintro ⟨hhead, -⟩
      by_contra hbrace
      simp only [Bool.and_eq_true, decide_eq_true_eq, not_and_or, not_not] at hbrace
      rcases hbrace with rfl | rfl
      · exact absurd hhead (by decide)
      · exact absurd hhead (by decide)
    · have htail := hshape.2 d hd
      by_contra hbrace
      simp only [Bool.and_eq_true, decide_eq_true_eq, not_and_or, not_not] at hbrace
      rcases hbrace with rfl | rfl
      · exact absurd htail (by decide)
      · exact absurd htail (by decide)

theorem applyHashtag_toList (ns key role : String) : (applyHashtag ns key role).toList =
    (ns.toList ++ [':']) ++ '\x7b' :: (key.toList ++ '\x7d' :: (':' :: role.toList)) := by
  simp [applyHashtag]

theorem applyHashtag_inj_of_length {ns key key' role role' : String}
    (hrole : role.toList.length = role'.toList.length)
    (h : applyHashtag ns key role = applyHashtag ns key' role') : key = key' ∧ role = role' := by
  have hlist := congrArg String.toList h
  rw [applyHashtag_toList, applyHashtag_toList, append_cancel_left_eq] at hlist
  obtain ⟨hkey, htail⟩ := append_inj' (cons.inj hlist).2 (by simpa using hrole)
  refine ⟨String.toList_inj.1 hkey, String.toList_inj.1 ?_⟩
  simpa using htail

theorem applyHashtag_inj {ns ns' key key' role role' : String}
    (hns : braceFree ns = true) (hns' : braceFree ns' = true) (hkey : braceFree key = true)
    (hkey' : braceFree key' = true) (h : applyHashtag ns key role = applyHashtag ns' key' role') :
    ns = ns' ∧ key = key' ∧ role = role' := by
  rw [braceFree_iff] at hns hns' hkey hkey'
  have hlist := congrArg String.toList h
  rw [applyHashtag_toList, applyHashtag_toList] at hlist
  obtain ⟨hnsList, hrest⟩ := split_first (by simpa using hns.1) (by simpa using hns'.1) hlist
  obtain ⟨hkeyList, hroleList⟩ := split_first hkey.2 hkey'.2 hrest
  refine ⟨?_, ?_, ?_⟩
  · exact String.toList_injective (append_cancel_right hnsList)
  · exact String.toList_injective hkeyList
  · exact String.toList_injective (cons.inj hroleList).2

end GoCell.Kernel
