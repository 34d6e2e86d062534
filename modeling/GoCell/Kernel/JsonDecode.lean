import GoCell.Kernel.JsonCompact
import GoCell.Kernel.JsonStrings

namespace GoCell.Kernel

open Scanner List Option

variable {V : Type}

def setPair (key : Bytes) (value : V) : List (Bytes × V) → List (Bytes × V)
  | [] => [(key, value)]
  | kv :: pairs =>
    if key < kv.1 then (key, value) :: kv :: pairs
    else if key = kv.1 then (key, value) :: pairs
    else kv :: setPair key value pairs

variable {key : Bytes} {value : V} {pairs : List (Bytes × V)}

theorem mem_setPair {kv : Bytes × V}
    (h : kv ∈ setPair key value pairs) : kv = (key, value) ∨ kv ∈ pairs := by
  induction pairs with
  | nil => exact .inl (mem_singleton.1 h)
  | cons _ _ ih =>
    simp only [setPair] at h
    split at h
    · exact mem_cons.1 h
    · split at h
      · obtain h | h := mem_cons.1 h
        · exact .inl h
        · exact .inr (mem_cons_of_mem _ h)
      · obtain h | h := mem_cons.1 h
        · exact .inr (h ▸ mem_cons_self)
        · exact (ih h).imp_right (mem_cons_of_mem _)

theorem setPair_sorted (key : Bytes) (value : V) (h : (pairs.map Prod.fst).Pairwise (· < ·)) :
    ((setPair key value pairs).map Prod.fst).Pairwise (· < ·) := by
  induction pairs with
  | nil => simp [setPair]
  | cons kv pairs ih =>
    rw [pairwise_map] at h ih ⊢
    rw [pairwise_map] at ih
    rw [pairwise_cons] at h
    simp only [setPair]
    split
    · next hlt =>
      refine pairwise_cons.2 ⟨?_, pairwise_cons.2 h⟩
      exact forall_mem_cons.2 ⟨hlt, fun kv' hkv' ↦ Std.lt_trans hlt (h.1 kv' hkv')⟩
    · next hlt =>
      split
      · next heq =>
        subst heq
        exact pairwise_cons.2 h
      · next hne =>
        have hgt : kv.1 < key := Std.lt_of_le_of_ne (Std.not_lt.1 hlt) fun h ↦ hne h.symm
        refine pairwise_cons.2 ⟨fun kv' hkv' ↦ ?_, ih h.2⟩
        obtain rfl | hmem := mem_setPair hkv'
        · exact hgt
        · exact h.1 kv' hmem

theorem setPair_of_lt (h : ∀ kv ∈ pairs, kv.1 < key) :
    setPair key value pairs = pairs ++ [(key, value)] := by
  induction pairs with
  | nil => rfl
  | cons kv pairs ih =>
    obtain ⟨hkv, h⟩ := forall_mem_cons.1 h
    have hne : key ≠ kv.1 := fun heq ↦ Std.lt_irrefl (heq ▸ hkv)
    simp only [setPair, if_neg (Std.not_lt.2 (Std.le_of_lt hkv)), if_neg hne, ih h, cons_append]

theorem foldl_setPair {new : List (Bytes × V)}
    (hsorted : ((pairs ++ new).map Prod.fst).Pairwise (· < ·)) :
    new.foldl (fun m kv ↦ setPair kv.1 kv.2 m) pairs = pairs ++ new := by
  induction new generalizing pairs with
  | nil => rw [foldl_nil, append_nil]
  | cons kv new ih =>
    have hset : setPair kv.1 kv.2 pairs = pairs ++ [kv] := by
      refine setPair_of_lt fun kv' hkv' ↦ ?_
      rw [pairwise_map, pairwise_append] at hsorted
      exact hsorted.2.2 kv' hkv' kv mem_cons_self
    rw [append_cons] at hsorted
    rw [foldl_cons, hset, ih hsorted, append_assoc, singleton_append]

def structText {F : Type} (name : F → String) (fields : List (F × Bytes)) : Bytes :=
  objectText (fields.map fun m ↦ (quote (asciiBytes (name m.1)), m.2))

def stringText (s : String) : Bytes := quote (asciiBytes s)

def omitEmpty {F : Type} (f : F) (s : String) : List (F × Bytes) :=
  if s = "" then [] else [(f, stringText s)]

/-- A key as `encoding/json` folds it; the two runes are the ones that fold to an ASCII letter. -/
def foldRune : Option Bytes → Bytes
  | some [a] => if 0x61 ≤ a ∧ a ≤ 0x7a then [a - 0x20] else [a]
  | some [0xc5, 0xbf] => [0x53]
  | some [0xe2, 0x84, 0xaa] => [0x4b]
  | some r => r
  | none => replacement

def foldName (key : Bytes) : Bytes := (runes key).flatMap foldRune

/-- The field of a key: the one with that name, or else the first one whose name folds like it. -/
def matchField {F : Type} (name : F → String) (fields : List F) (key : Bytes) : Option F :=
  (fields.find? fun f ↦ asciiBytes (name f) = key).or
    (fields.find? fun f ↦ foldName (asciiBytes (name f)) = foldName key)

def isNull (raw : Bytes) : Bool := (raw.dropWhile Scanner.isSpace).head? = some 0x6e

def textOf (s : Bytes) : String := String.ofList (s.map fun b ↦ Char.ofNat b.toNat)

def decodeBytes (old raw : Bytes) : Option Bytes := if isNull raw then some old else unquote raw

def decodeString (old : String) (raw : Bytes) : Option String :=
  if isNull raw then some old else (unquote raw).map textOf

/-- An object into a struct or a map that holds `old`, by its members in their order. -/
def decodeObject {M : Type} (set : M → Bytes → Bytes → Option M) (old : M) (raw : Bytes) :
    Option M := do
  (← members raw).foldlM (fun m kv ↦ do set m (← unquote kv.1) kv.2) old

def decodeStruct {M F : Type} (name : F → String) (fields : List F) (set : M → F → Bytes → Option M)
    (old : M) (raw : Bytes) : Option M :=
  if isNull raw then some old
  else decodeObject (fun m key value ↦
    match matchField name fields key with
    | some f => set m f value
    | none => some m) old raw

def Ascii (s : String) : Prop := ∀ c ∈ s.toList, c.toNat < 0x80

instance (s : String) : Decidable (Ascii s) :=
  List.decidableBAll (fun c : Char ↦ c.toNat < 0x80) s.toList

section Strings

variable {s : String}

theorem textOf_asciiBytes (h : Ascii s) : textOf (asciiBytes s) = s := by
  have hmap : (s.toList.map fun c ↦ UInt8.ofNat c.toNat).map (fun b ↦ Char.ofNat b.toNat) =
      s.toList := by
    rw [List.map_map]
    refine (map_congr_left fun c hc ↦ ?_).trans (map_id _)
    have hc : c.toNat < UInt8.size := (h c hc).trans (by decide)
    simp only [Function.comp_apply, UInt8.toNat_ofNat_of_lt' hc, Char.ofNat_toNat, id]
  unfold textOf asciiBytes
  rw [hmap, String.ofList_toList]

theorem utf8Valid_of_ascii {b : Bytes} (h : ∀ c ∈ b, c < 0x80) : utf8Valid b = true := by
  have hruns : ∀ n, b.length ≤ n → (runesFrom n b).all isSome = true := by
    induction b with
    | nil =>
      intro n _
      cases n <;> rfl
    | cons c b ih =>
      intro n hn
      obtain ⟨hc, hb⟩ := forall_mem_cons.1 h
      cases n with
      | zero => simp at hn
      | succ n =>
        simp only [runesFrom, decodeRune, hc, if_true, all_cons, isSome_some, Bool.true_and]
        exact ih hb n (by simpa using hn)
  exact hruns b.length le_rfl

theorem utf8Valid_asciiBytes (h : Ascii s) : utf8Valid (asciiBytes s) = true := by
  refine utf8Valid_of_ascii fun b hb ↦ ?_
  obtain ⟨c, hc, rfl⟩ := mem_map.1 hb
  have hc := h c hc
  rw [UInt8.lt_iff_toNat_lt, UInt8.toNat_ofNat_of_lt' (hc.trans (by decide))]
  exact hc

theorem isNull_quote (b : Bytes) : isNull (quote b) = false := rfl

theorem decodeString_stringText (h : Ascii s) (old : String) :
    decodeString old (stringText s) = some s := by
  unfold decodeString stringText
  rw [isNull_quote, unquote_quote (utf8Valid_asciiBytes h)]
  simp only [Bool.false_eq_true, if_false, map_some, textOf_asciiBytes h]

theorem decodeBytes_quote {b : Bytes} (h : utf8Valid b = true) (old : Bytes) :
    decodeBytes old (quote b) = some b := by
  unfold decodeBytes
  rw [isNull_quote, unquote_quote h]
  rfl

end Strings

theorem isNull_objectText (ms : List (Bytes × Bytes)) : isNull (objectText ms) = false := by
  cases ms <;> rfl

section Objects

variable {M : Type} {decode : Bytes → Option V} {text : V → Bytes}
  (htext : ∀ kv ∈ pairs, utf8Valid kv.1 = true ∧ decode (text kv.2) = some kv.2)
include htext

theorem foldlM_members (set : M → Bytes → V → M) (old : M) :
    (pairs.map fun kv ↦ (quote kv.1, text kv.2)).foldlM (fun m kv ↦ do
        (decode kv.2).map (set m (← unquote kv.1))) old =
      some (pairs.foldl (fun m kv ↦ set m kv.1 kv.2) old) := by
  induction pairs generalizing old with
  | nil => rfl
  | cons kv pairs ih =>
    obtain ⟨hkv, htext⟩ := forall_mem_cons.1 htext
    simp only [map_cons, foldlM_cons, unquote_quote hkv.1, hkv.2, bind_eq_bind, bind_some, map_some,
      foldl_cons]
    exact ih htext _

theorem decodeObject_objectText {d : ℕ} (hvalues : ∀ kv ∈ pairs, ValueText d (text kv.2))
    (hd : 1 + d ≤ maxNestingDepth) (set : M → Bytes → V → M) (old : M) :
    decodeObject (fun m key value ↦ (decode value).map (set m key)) old
        (objectText (pairs.map fun kv ↦ (quote kv.1, text kv.2))) =
      some (pairs.foldl (fun m kv ↦ set m kv.1 kv.2) old) := by
  have hmembers : MemberTexts d (pairs.map fun kv ↦ (quote kv.1, text kv.2)) := by
    intro m hm
    obtain ⟨kv, hkv, rfl⟩ := mem_map.1 hm
    exact ⟨stringText_quote _, hvalues kv hkv⟩
  unfold decodeObject
  rw [members_objectText hmembers hd]
  exact foldlM_members htext set old

end Objects

section Structs

variable {M F : Type} {name : F → String} {fields : List F} {set : M → F → Bytes → Option M}

theorem decodeStruct_structText {d : ℕ} (hname : ∀ f, Ascii (name f))
    (hmatch : ∀ f, matchField name fields (asciiBytes (name f)) = some f) {ms : List (F × Bytes)}
    (hms : ∀ m ∈ ms, ValueText d m.2) (hd : 1 + d ≤ maxNestingDepth) (old : M) :
    decodeStruct name fields set old (structText name ms) =
      ms.foldlM (fun x m ↦ set x m.1 m.2) old := by
  have htexts : MemberTexts d (ms.map fun m ↦ (quote (asciiBytes (name m.1)), m.2)) := by
    intro m hm
    obtain ⟨m, hmem, rfl⟩ := mem_map.1 hm
    exact ⟨stringText_quote _, hms m hmem⟩
  unfold decodeStruct decodeObject structText
  rw [isNull_objectText, members_objectText htexts hd]
  simp only [Bool.false_eq_true, if_false, bind_eq_bind, bind_some, foldlM_map,
    unquote_quote (utf8Valid_asciiBytes (hname _)), hmatch]

theorem jsonValid_structText {d : ℕ} {ms : List (F × Bytes)} (hms : ∀ m ∈ ms, ValueText d m.2)
    (hd : 1 + d ≤ maxNestingDepth) : jsonValid (structText name ms) = true := by
  refine jsonValid_objectText (fun m hm ↦ ?_) hd
  obtain ⟨m, hmem, rfl⟩ := mem_map.1 hm
  exact ⟨stringText_quote _, hms m hmem⟩

theorem structText_inj {d : ℕ} {ms ms' : List (F × Bytes)} (hms : ∀ m ∈ ms, ValueText d m.2)
    (hms' : ∀ m ∈ ms', ValueText d m.2) (hd : 1 + d ≤ maxNestingDepth)
    (h : structText name ms = structText name ms') : ms.map Prod.snd = ms'.map Prod.snd := by
  have htexts : ∀ {ns : List (F × Bytes)}, (∀ m ∈ ns, ValueText d m.2) →
      members (structText name ns) =
        some (ns.map fun m ↦ (quote (asciiBytes (name m.1)), m.2)) := by
    intro ns hns
    refine members_objectText (fun m hm ↦ ?_) hd
    obtain ⟨m, hmem, rfl⟩ := mem_map.1 hm
    exact ⟨stringText_quote _, hns m hmem⟩
  have hmembers := htexts hms
  rw [h, htexts hms'] at hmembers
  have hvalues := congrArg (List.map Prod.snd) (Option.some.inj hmembers)
  simpa only [List.map_map, Function.comp_def] using hvalues.symm

theorem foldlM_omitEmpty {f : F} {s : String} {old new : M}
    (h : set old f (stringText s) = some new) (hempty : s = "" → old = new) :
    (omitEmpty f s).foldlM (fun x m ↦ set x m.1 m.2) old = some new := by
  unfold omitEmpty
  split
  · next hs => rw [hempty hs, List.foldlM_nil, Option.pure_def]
  · rw [foldlM_cons, h, bind_eq_bind, bind_some, foldlM_nil, Option.pure_def]

theorem valueText_omitEmpty (f : F) (s : String) (d : ℕ) :
    ∀ m ∈ omitEmpty f s, ValueText d m.2 := by
  unfold omitEmpty
  split
  · exact fun m hm ↦ absurd hm not_mem_nil
  · exact forall_mem_singleton.2 (stringText_quote _).value

theorem valueText_structText {d : ℕ} {ms : List (F × Bytes)} (hms : ∀ m ∈ ms, ValueText d m.2) :
    ValueText (d + 1) (structText name ms) := by
  refine valueText_object fun m hm ↦ ?_
  obtain ⟨m, hmem, rfl⟩ := mem_map.1 hm
  exact ⟨stringText_quote _, hms m hmem⟩

end Structs

theorem ne_nil_of_valueText {d : ℕ} {text : Bytes} (h : ValueText d text)
    (hd : 1 + d ≤ maxNestingDepth) : text ≠ [] := by
  rintro rfl
  obtain ⟨step, hend, hspans⟩ := h [.arrayValue] (cons_ne_nil _ _) hd
  generalize hs : inside [ParseState.arrayValue] step = s at hspans
  cases hspans
  cases hs
  simp [ValueEnd] at hend

end GoCell.Kernel
