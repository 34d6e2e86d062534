import GoCell.Refresh.Effects
import GoCell.Refresh.OpaqueTokens
import Mathlib.Data.List.Nodup

namespace GoCell.Refresh

open Foundation Kernel List Option

def transcript (env : Env) (s : Store) (calls : List Call) : List (Call × Answer) :=
  calls.zip (answers (Call.run env) s calls)

def Answer.tokens : Answer → List (Bytes × Token)
  | .issued wire tok => ((parseOpaque wire).map fun p ↦ (p.1, tok)).toList
  | _ => []

def Revokes : Call → Answer → Token → Prop
  | .revokeSession sessionID _, _, tok => tok.sessionID = sessionID
  | .revokeUser subjectID _, _, tok => tok.subjectID = subjectID
  | _, .reused t, tok => tok.sessionID = t.sessionID
  | _, _, _ => False

def Issued (P : Token → Prop) (run : List (Call × Answer)) (sel : Bytes) : Prop :=
  ∃ tok, (sel, tok) ∈ run.flatMap (fun x ↦ x.2.tokens) ∧ P tok

/-- The selectors of the tokens with a property that were issued earlier, and of their descendants
by the rotations of a run. -/
inductive Family (P : Token → Prop) (earlier run : List (Call × Answer)) : Bytes → Prop
  | issued {sel : Bytes} : Issued P earlier sel → Family P earlier run sel
  | descendant {x : Call × Answer} {presented sel ver sel' : Bytes} {tok : Token} :
      Family P earlier run sel → x ∈ run → x.1.presented = some presented →
      parseOpaque presented = some (sel, ver) → (sel', tok) ∈ x.2.tokens →
      Family P earlier run sel'

variable {call : Call} {answer : Answer}

theorem revokes_congr {tok tok' : Token}
    (h : Revokes call answer tok) (hsession : tok'.sessionID = tok.sessionID)
    (hsubject : tok'.subjectID = tok.subjectID) : Revokes call answer tok' := by
  cases call with
  | revokeSession => exact hsession.trans h
  | revokeUser => exact hsubject.trans h
  | issue | peek | rotate | gc =>
    cases answer with
    | reused t => exact hsession.trans h
    | issued | peeked | failed | unreadable | done | removed => exact h.elim

theorem tokens_of_revokes {tok : Token} {presented : Bytes}
    (h : Revokes call answer tok) (hpresented : call.presented = some presented) :
    answer.tokens = [] := by
  cases call with
  | peek | rotate =>
    cases answer with
    | reused t => rfl
    | issued | peeked | failed | unreadable | done | removed => exact h.elim
  | issue | revokeSession | revokeUser | gc => cases hpresented

variable {log : List (Bytes × Token)}

section Steps

variable {env : Env} {s : Store}

theorem isRevoked_revoke {now : Time} (hnow : now ≠ 0) (r : TokenRecord) :
    (r.revoke now).isRevoked = true := by
  unfold TokenRecord.revoke
  split
  · next h => exact h
  · exact decide_eq_true hnow

theorem isRevoked_revoke_of {now : Time} {r : TokenRecord} (h : r.isRevoked = true) :
    (r.revoke now).isRevoked = true := by
  rw [TokenRecord.revoke, if_pos h]
  exact h

/-- Where a row comes from: it was there before and is not less revoked, or it is the row of the
token that the call handed out. -/
inductive RowFrom (s : Store) (call : Call) (answer : Answer) (r' : TokenRecord) : Prop
  | old (r : TokenRecord) : r ∈ s.rows → r'.toToken = r.toToken → r'.selector = r.selector →
      (r.isRevoked = true → r'.isRevoked = true) → RowFrom s call answer r'
  | new : call.selector = some r'.selector → (r'.selector, r'.toToken) ∈ answer.tokens →
      RowFrom s call answer r'

theorem rowFrom_self {r : TokenRecord} (h : r ∈ s.rows) :
    RowFrom s call answer r := .old r h rfl rfl id

theorem rowFrom_revokeWhere {p : TokenRecord → Bool} {now : Time}
    {r' : TokenRecord} (h : r' ∈ (s.revokeWhere p now).rows) : RowFrom s call answer r' := by
  obtain ⟨r, hr, rfl⟩ := mem_map.1 h
  split
  · refine .old r hr ?_ ?_ isRevoked_revoke_of
    · unfold TokenRecord.revoke
      split <;> rfl
    · unfold TokenRecord.revoke
      split <;> rfl
  · exact rowFrom_self hr

theorem rotatedParent_keeps (r : TokenRecord) (now : Time) :
    (Store.rotatedParent r now).toToken = r.toToken ∧
      (Store.rotatedParent r now).selector = r.selector ∧
      (Store.rotatedParent r now).isRevoked = r.isRevoked := by
  unfold Store.rotatedParent
  split <;> exact ⟨rfl, rfl, rfl⟩

theorem tokens_issued (p : Pair) (tok : Token) :
    (Answer.issued (encodeOpaque p.selector p.verifier) tok).tokens = [(p.selector, tok)] := by
  rw [Answer.tokens, parseOpaque_encodeOpaque]
  rfl

theorem Effect.rowFrom {s' : Store}
    (h : Effect env s call s' answer) : ∀ r' ∈ s'.rows, RowFrom s call answer r' := by
  cases h with
  | refused | unreadable | peeked => exact fun r' hr' ↦ rowFrom_self hr'
  | reused | sessionRevoked | userRevoked => exact fun r' hr' ↦ rowFrom_revokeWhere hr'
  | collected => exact fun r' hr' ↦ rowFrom_self (mem_filter.1 hr').1
  | issued p =>
    refine forall_mem_append.2 ⟨fun r' hr' ↦ rowFrom_self hr', ?_⟩
    refine forall_mem_singleton.2 (.new rfl ?_)
    rw [tokens_issued]
    exact mem_singleton_self _
  | @rotated presented checked now id r i p haccepts =>
    refine forall_mem_append.2 ⟨fun r' hr' ↦ ?_, forall_mem_singleton.2 (.new rfl ?_)⟩
    · obtain hr' | rfl := mem_or_eq_of_mem_set hr'
      · exact rowFrom_self hr'
      · obtain ⟨htoken, hsel, hrevoked⟩ := rotatedParent_keeps r now
        exact .old r haccepts.mem htoken hsel fun h ↦ hrevoked.trans h
    · rw [tokens_issued]
      exact mem_singleton_self _

def Tracks (s : Store) (log : List (Bytes × Token)) : Prop :=
  ∀ r ∈ s.rows, (r.selector, r.toToken) ∈ log

theorem Tracks.run (h : Tracks s log) (env : Env) (call : Call) :
    Tracks (call.run env s).1 (log ++ (call.run env s).2.tokens) := by
  intro r' hr'
  obtain ⟨r, hr, htoken, hsel, -⟩ | ⟨-, hnew⟩ := (run_effect env s call).rowFrom r' hr'
  · rw [htoken, hsel]
    exact mem_append_left _ (h r hr)
  · exact mem_append_right _ hnew

section

variable {s' : Store} {call : Call} {answer : Answer} (h : Effect env s call s' answer)
include h

theorem Effect.tokens_sublist :
    (answer.tokens.map Prod.fst).Sublist call.selector.toList := by
  cases h with
  | refused | unreadable | peeked | reused | sessionRevoked | userRevoked | collected =>
    exact nil_sublist _
  | issued p | rotated p =>
    rw [tokens_issued]
    exact List.Sublist.refl _

theorem Effect.tokens_inherit {presented sel ver sel' : Bytes} {tok' : Token}
    (hpresented : call.presented = some presented)
    (hparse : parseOpaque presented = some (sel, ver)) (htok' : (sel', tok') ∈ answer.tokens) :
    ∃ r ∈ s.rows, r.selector = sel ∧ tok'.sessionID = r.toToken.sessionID ∧
      tok'.subjectID = r.toToken.subjectID := by
  cases h with
  | refused | unreadable | peeked | reused | sessionRevoked | userRevoked | collected => cases htok'
  | issued p => cases hpresented
  | @rotated presented' checked now id r i p haccepts =>
    obtain rfl : presented' = presented := some.inj hpresented
    obtain ⟨ver', hparse'⟩ := haccepts.parsed
    obtain ⟨rfl, -⟩ := Prod.mk.inj (some.inj (hparse'.symm.trans hparse))
    rw [tokens_issued] at htok'
    obtain ⟨-, rfl⟩ := Prod.mk.inj (mem_singleton.1 htok')
    exact ⟨r, haccepts.mem, rfl, rfl, rfl⟩

end

def Dead (D : Bytes → Prop) (s : Store) : Prop := ∀ r ∈ s.rows, D r.selector → r.isRevoked = true

theorem Dead.run {D : Bytes → Prop} (h : Dead D s)
    (hnew : ∀ sel ∈ call.selector, ¬D sel) : Dead D (call.run env s).1 := by
  intro r' hr' hD
  obtain ⟨r, hr, -, hsel, hrevoked⟩ | ⟨hdrawn, -⟩ := (run_effect env s call).rowFrom r' hr'
  · exact hrevoked (h r hr (hsel ▸ hD))
  · exact absurd hD (hnew _ hdrawn)

theorem Dead.rejects {D : Bytes → Prop} (h : Dead D s) {presented sel ver : Bytes}
    (hpresented : call.presented = some presented)
    (hparse : parseOpaque presented = some (sel, ver)) (hD : D sel) :
    (call.run env s).2 = .failed errRejected := by
  have hvalidate : ∀ now, s.validatePresented env sel ver now = (s, .error .rejected) := by
    intro now
    unfold Store.validatePresented
    split
    · rfl
    · next r i hfind =>
      obtain ⟨hrow, hsel⟩ := findBySelector_some hfind
      have hrevoked := h r (mem_of_getElem? hrow) (hsel ▸ hD)
      rw [if_pos (.inr (.inl hrevoked))]
  cases call with
  | peek p now =>
    obtain rfl : p = presented := some.inj hpresented
    simp only [Call.run, Store.peek, hparse, hvalidate, Store.refuse]
  | rotate p =>
    obtain rfl : p = presented := some.inj hpresented
    simp only [Call.run, Store.rotate, hparse, hvalidate, Store.refuse]
  | issue | revokeSession | revokeUser | gc => cases hpresented

theorem Effect.revokes {s' : Store}
    (h : Effect env s call s' answer) {tok : Token} (hrevokes : Revokes call answer tok) :
    ∃ p, s' = s.revokeWhere p call.revokedAt ∧
      ∀ r : TokenRecord, Revokes call answer r.toToken → p r = true := by
  cases h with
  | sessionRevoked | userRevoked => exact ⟨_, rfl, fun r hr ↦ decide_eq_true hr⟩
  | reused hpresented _ =>
    cases call with
    | peek | rotate => exact ⟨_, rfl, fun r hr ↦ decide_eq_true hr⟩
    | issue | revokeSession | revokeUser | gc => cases hpresented
  | peeked | issued | rotated | collected => exact hrevokes.elim
  | refused _ hcall | unreadable hcall =>
    cases call with
    | issue | peek | rotate | gc => exact hrevokes.elim
    | revokeSession | revokeUser => cases hcall

theorem dead_of_revokes (env : Env) (htracks : Tracks s log)
    (hlog : (log.map Prod.fst).Nodup) (hclock : call.revokedAt ≠ 0) :
    Dead (fun sel ↦ ∃ tok, (sel, tok) ∈ log ∧ Revokes call (call.run env s).2 tok)
      (call.run env s).1 := by
  rintro r' hr' ⟨tok, hmem, hrevokes⟩
  obtain ⟨p, hrows, hp⟩ := (run_effect env s call).revokes hrevokes
  rw [hrows] at hr'
  obtain ⟨r, hr, heq⟩ := mem_map.1 hr'
  obtain hsel : r'.selector = r.selector := by
    rw [← heq]
    split
    · unfold TokenRecord.revoke
      split <;> rfl
    · rfl
  rw [hsel] at hmem
  obtain rfl : tok = r.toToken :=
    congrArg Prod.snd (inj_on_of_nodup_map hlog hmem (htracks r hr) rfl)
  rw [← heq, if_pos (hp r hrevokes)]
  exact isRevoked_revoke hclock r

end Steps

section Runs

variable {env : Env}

theorem transcript_split {s : Store} {calls : List Call} {earlier later : List (Call × Answer)}
    (h : transcript env s calls = earlier ++ (call, answer) :: later) :
    ∃ before behind, calls = before ++ call :: behind ∧ earlier = transcript env s before ∧
      answer = (call.run env (after (Call.run env) s before)).2 ∧
      later = transcript env (call.run env (after (Call.run env) s before)).1 behind := by
  induction earlier generalizing s calls with
  | nil =>
    cases calls with
    | nil => cases h
    | cons c calls =>
      obtain ⟨hhead, htail⟩ := cons.inj h
      obtain ⟨rfl, rfl⟩ := Prod.mk.inj hhead
      exact ⟨[], calls, rfl, rfl, rfl, htail.symm⟩
  | cons _ _ ih =>
    cases calls with
    | nil => cases h
    | cons c =>
      obtain ⟨rfl, htail⟩ := cons.inj h
      obtain ⟨before, behind, rfl, rfl, rfl, rfl⟩ := ih htail
      exact ⟨c :: before, behind, rfl, rfl, rfl, rfl⟩

theorem tracks_run (env : Env) (calls : List Call) {s : Store} (h : Tracks s log) :
    Tracks (after (Call.run env) s calls)
      (log ++ (transcript env s calls).flatMap fun x ↦ x.2.tokens) := by
  induction calls generalizing s log with
  | nil =>
    rw [transcript, zip_nil_left, flatMap_nil, append_nil]
    exact h
  | cons call calls ih =>
    have hrest := ih (h.run env call)
    rwa [append_assoc] at hrest

theorem transcript_sublist (env : Env) (s : Store) (calls : List Call) :
    (((transcript env s calls).flatMap fun x ↦ x.2.tokens).map Prod.fst).Sublist
      (calls.filterMap Call.selector) := by
  induction calls generalizing s with
  | nil => exact nil_sublist _
  | cons call calls ih =>
    have happend := (run_effect env s call).tokens_sublist.append (ih (call.run env s).1)
    rw [← map_append] at happend
    rw [filterMap_cons]
    cases hsel : call.selector with
    | none | some =>
      rw [hsel] at happend
      exact happend

theorem transcript_inherits {s : Store} {calls : List Call}
    (h : Tracks s log) {x : Call × Answer} (hx : x ∈ transcript env s calls)
    {presented sel ver sel' : Bytes} {tok' : Token} (hpresented : x.1.presented = some presented)
    (hparse : parseOpaque presented = some (sel, ver)) (htok' : (sel', tok') ∈ x.2.tokens) :
    ∃ tok, (sel, tok) ∈ log ++ (transcript env s calls).flatMap (fun x ↦ x.2.tokens) ∧
      tok'.sessionID = tok.sessionID ∧ tok'.subjectID = tok.subjectID := by
  induction calls generalizing s log with
  | nil => cases hx
  | cons call calls ih =>
    obtain rfl | hx := mem_cons.1 hx
    · obtain ⟨r, hr, rfl, hsession, hsubject⟩ :=
        (run_effect env _ _).tokens_inherit hpresented hparse htok'
      exact ⟨r.toToken, mem_append_left _ (h r hr), hsession, hsubject⟩
    · obtain ⟨tok, hmem, hsame⟩ := ih (h.run env call) hx
      rw [append_assoc] at hmem
      exact ⟨tok, hmem, hsame⟩

theorem dead_run (env : Env) {D : Bytes → Prop} {later : List Call}
    (hnew : ∀ sel ∈ later.filterMap Call.selector, ¬D sel) {s : Store} (h : Dead D s) :
    ∀ x ∈ transcript env s later, ∀ presented sel ver, x.1.presented = some presented →
      parseOpaque presented = some (sel, ver) → D sel → x.2 = .failed errRejected := by
  induction later generalizing s with
  | nil => exact fun x hx ↦ absurd hx not_mem_nil
  | cons call later ih =>
    have hdrawn : ∀ sel ∈ call.selector, ¬D sel := fun sel hsel ↦
      hnew sel (mem_filterMap.2 ⟨call, mem_cons_self, hsel⟩)
    have hlater : ∀ sel ∈ later.filterMap Call.selector, ¬D sel := by
      intro sel hsel
      obtain ⟨c, hc, hsel⟩ := mem_filterMap.1 hsel
      exact hnew sel (mem_filterMap.2 ⟨c, mem_cons_of_mem call hc, hsel⟩)
    refine forall_mem_cons.2 ⟨?_, ih hlater (h.run hdrawn)⟩
    intro presented sel ver hpresented hparse hD
    exact h.rejects hpresented hparse hD

/-- Descendants of issued tokens are issued tokens where every rotation keeps the property. -/
theorem Family.isIssued {P : Token → Prop} {earlier rest : List (Call × Answer)}
    (hkeeps : ∀ x ∈ earlier, ∀ {presented sel ver sel' tok'}, x.1.presented = some presented →
      parseOpaque presented = some (sel, ver) → (sel', tok') ∈ x.2.tokens →
      Issued P earlier sel → P tok')
    (hnone : ∀ x ∈ rest, ∀ {presented sel ver}, x.1.presented = some presented →
      parseOpaque presented = some (sel, ver) → Issued P earlier sel → x.2.tokens = [])
    {sel : Bytes} (h : Family P earlier (earlier ++ rest) sel) : Issued P earlier sel := by
  induction h with
  | issued h => exact h
  | descendant _ hx hpresented hparse htok' ih =>
    obtain hx | hx := mem_append.1 hx
    · exact ⟨_, mem_flatMap.2 ⟨_, hx, htok'⟩, hkeeps _ hx hpresented hparse htok' ih⟩
    · rw [hnone _ hx hpresented hparse ih] at htok'
      cases htok'

/-- Once a session or a subject is revoked, the tokens that it had and their descendants are refused
for ever. -/
theorem revocation_permanent (env : Env) {calls : List Call}
    (hfresh : (calls.filterMap Call.selector).Nodup) {earlier later : List (Call × Answer)}
    {call : Call} {answer : Answer}
    (hrun : transcript env .empty calls = earlier ++ (call, answer) :: later)
    (hclock : call.revokedAt ≠ 0) :
    ∀ x ∈ later, ∀ presented sel ver, x.1.presented = some presented →
      parseOpaque presented = some (sel, ver) →
      Family (Revokes call answer) earlier (transcript env .empty calls) sel →
      x.2 = .failed errRejected := by
  rw [hrun]
  obtain ⟨before, behind, rfl, rfl, rfl, rfl⟩ := transcript_split hrun
  rw [filterMap_append, nodup_append] at hfresh
  obtain ⟨hbefore, -, hapart⟩ := hfresh
  have hempty : Tracks .empty [] := fun r hr ↦ by cases hr
  have hsub := transcript_sublist env .empty before
  have hlog := hbefore.sublist hsub
  have hdead := dead_of_revokes env (tracks_run env before hempty) hlog hclock
  have hnew : ∀ sel ∈ behind.filterMap Call.selector, sel ∉ before.filterMap Call.selector := by
    intro sel hsel hmem
    obtain ⟨c, hc, heq⟩ := mem_filterMap.1 hsel
    exact hapart sel hmem sel (mem_filterMap.2 ⟨c, mem_cons_of_mem call hc, heq⟩) rfl
  have hrejected := dead_run env (fun sel hsel ⟨tok, hmem, _⟩ ↦
    hnew sel hsel (hsub.subset (mem_map_of_mem hmem))) hdead
  intro x hx presented sel ver hpresented hparse hfamily
  refine hrejected x hx presented sel ver hpresented hparse (hfamily.isIssued ?_ ?_)
  · rintro y hy p sel ver sel' tok' hp hsel htok' ⟨tok, hmem, hrevokes⟩
    obtain ⟨parent, hparent, hsession, hsubject⟩ := transcript_inherits hempty hy hp hsel htok'
    obtain rfl : parent = tok :=
      congrArg Prod.snd (inj_on_of_nodup_map hlog hparent hmem rfl)
    exact revokes_congr hrevokes hsession hsubject
  · refine forall_mem_cons.2 ⟨?_, ?_⟩
    · rintro p sel ver hp - ⟨tok, -, hrevokes⟩
      exact tokens_of_revokes hrevokes hp
    · intro y hy p sel ver hp hsel hissued
      rw [hrejected y hy p sel ver hp hsel hissued]
      rfl

def sampleEnv : Env where
  policy := ⟨10, 100, 50, 3, by decide, by decide, by decide, by decide⟩
  sha256 := checksumHex

def samplePair (b : UInt8) : Pair :=
  ⟨List.replicate 16 b, List.replicate 32 b, List.length_replicate, List.length_replicate⟩

def sampleWire (b : UInt8) : Bytes :=
  encodeOpaque (samplePair b).selector (samplePair b).verifier

def sampleToken (id : UUID) (created : Time) : Token :=
  ⟨id, asciiBytes "s-1", asciiBytes "u-1", created, created + 100, 1⟩

def sampleEarlier : List (Call × Answer) :=
  [(.issue (asciiBytes "s-1") (asciiBytes "u-1") 1 1 1 (some (samplePair 1)),
      .issued (sampleWire 1) (sampleToken 1 1)),
    (.rotate (sampleWire 1) 2 2 2 (some (samplePair 2)), .issued (sampleWire 2) (sampleToken 2 2))]

def sampleLater : List (Call × Answer) :=
  [(.rotate (sampleWire 2) 4 4 3 (some (samplePair 3)), .failed errRejected)]

def sampleRun : List (Call × Answer) :=
  sampleEarlier ++ (.revokeSession (asciiBytes "s-1") 3, .done) :: sampleLater

theorem transcript_sampleRun :
    transcript sampleEnv .empty (sampleRun.map Prod.fst) = sampleRun := by
  have hanswers : answers (Call.run sampleEnv) .empty (sampleRun.map Prod.fst) =
      sampleRun.map Prod.snd := by decide +kernel
  rw [transcript, hanswers]
  rfl

theorem revocation_permanent_child :
    Family (Revokes (.revokeSession (asciiBytes "s-1") 3) .done) sampleEarlier sampleRun
      (samplePair 2).selector ∧
      ∀ x ∈ sampleLater, x.2 = .failed errRejected := by
  have hfresh : ((sampleRun.map Prod.fst).filterMap Call.selector).Nodup := by decide +kernel
  have hparse : ∀ b, parseOpaque (sampleWire b) =
      some ((samplePair b).selector, (samplePair b).verifier) :=
    fun b ↦ parseOpaque_encodeOpaque (samplePair b)
  have htokens : ∀ b tok, ((samplePair b).selector, tok) ∈ (Answer.issued (sampleWire b) tok).tokens
    := fun b tok ↦ by
      rw [sampleWire, tokens_issued]
      exact mem_singleton_self _
  have hroot : Issued (Revokes (.revokeSession (asciiBytes "s-1") 3) .done) sampleEarlier
      (samplePair 1).selector :=
    ⟨sampleToken 1 1, mem_append_left _ (htokens 1 _), rfl⟩
  have hchild : Family (Revokes (.revokeSession (asciiBytes "s-1") 3) .done) sampleEarlier sampleRun
      (samplePair 2).selector :=
    .descendant (.issued hroot) (mem_cons_of_mem _ mem_cons_self) rfl (hparse 1)
      (htokens 2 (sampleToken 2 2))
  refine ⟨hchild, forall_mem_singleton.2 ?_⟩
  refine revocation_permanent sampleEnv hfresh transcript_sampleRun (by decide) _
    mem_cons_self _ _ _ rfl (hparse 2) ?_
  rw [transcript_sampleRun]
  exact hchild

/-- At the zero time a session is revoked without a trace. -/
theorem revocation_lost_at_zero :
    answers (Call.run sampleEnv) .empty
      [.issue (asciiBytes "s-1") (asciiBytes "u-1") 1 0 1 (some (samplePair 1)),
        .revokeSession (asciiBytes "s-1") 0, .peek (sampleWire 1) 1] =
      [.issued (sampleWire 1) (sampleToken 1 0), .done, .peeked (sampleToken 1 0)] := by
  decide +kernel

end Runs

end GoCell.Refresh
