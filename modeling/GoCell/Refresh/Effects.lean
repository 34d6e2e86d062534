import GoCell.Refresh.MemStore

namespace GoCell.Refresh

open Foundation Kernel List

theorem findBySelector_some {s : Store} {sel : Bytes} {r : TokenRecord} {i : ℕ}
    (h : s.findBySelector sel = some (r, i)) : s.rows[i]? = some r ∧ r.selector = sel := by
  have hmem := mem_reverse.1 (mem_of_find?_eq_some h)
  have hsel := find?_some h
  exact ⟨mem_zipIdx_iff_getElem?.1 hmem, of_decide_eq_true hsel⟩

structure Accepts (env : Env) (s : Store) (presented : Bytes) (now : Time) (r : TokenRecord)
    (i : ℕ) : Prop where
  row : s.rows[i]? = some r
  parsed : ∃ ver, parseOpaque presented = some (r.selector, ver)
  live : r.isRevoked = false
  unexpired : now < r.expiresAt
  inUse : now < r.idleExpiresAt
  grace : r.isRotated = true →
    r.usedTimes < env.policy.graceMaxReuses ∧ now - r.rotatedAt ≤ env.policy.reuseInterval

theorem Accepts.mem {env : Env} {s : Store} {presented : Bytes} {now : Time} {r : TokenRecord}
    {i : ℕ} (h : Accepts env s presented now r i) : r ∈ s.rows := mem_of_getElem? h.row

theorem validatePresented_cases (env : Env) (s : Store) {presented sel ver : Bytes}
    (hparse : parseOpaque presented = some (sel, ver)) (now : Time) :
    s.validatePresented env sel ver now = (s, .error .rejected) ∨
      (∃ r ∈ s.rows, s.validatePresented env sel ver now =
        (s.revokeSession r.sessionID now, .error (.reused r))) ∨
      ∃ r i, Accepts env s presented now r i ∧
        s.validatePresented env sel ver now = (s, .ok (r, i)) := by
  unfold Store.validatePresented
  split
  · exact .inl rfl
  · next r i hfind =>
    obtain ⟨hrow, rfl⟩ := findBySelector_some hfind
    split_ifs with hrejected hreused
    · exact .inl rfl
    · exact .inr (.inl ⟨r, mem_of_getElem? hrow, rfl⟩)
    · rw [not_or, not_or, not_or, not_le, not_le, Bool.not_eq_true] at hrejected
      obtain ⟨-, hlive, hexpires, hidle⟩ := hrejected
      refine .inr (.inr ⟨r, i, ⟨hrow, ⟨ver, hparse⟩, hlive, hexpires, hidle, fun hrotated ↦ ?_⟩,
        rfl⟩)
      by_contra hgrace
      rw [not_and_or, not_lt, not_le] at hgrace
      exact hreused ⟨hrotated, hgrace⟩

theorem isRotated_rotatedParent {now : Time} (hnow : now ≠ 0) (r : TokenRecord) :
    (Store.rotatedParent r now).isRotated = true := by
  unfold Store.rotatedParent
  split
  · next hr => exact hr
  · exact decide_eq_true hnow

def Call.revokes : Call → Bool
  | .revokeSession _ _ | .revokeUser _ _ => true
  | _ => false

inductive Effect (env : Env) (s : Store) : Call → Store → Answer → Prop
  | refused {call : Call} (e : Err) : call.revokes = false → Effect env s call s (.failed e)
  | unreadable {call : Call} : call.revokes = false → Effect env s call s .unreadable
  | reused {call : Call} {presented : Bytes} {r : TokenRecord} :
      call.presented = some presented → r ∈ s.rows →
      Effect env s call (s.revokeSession r.sessionID call.revokedAt) (.reused r.toToken)
  | peeked {presented : Bytes} {now : Time} {r : TokenRecord} {i : ℕ} :
      Accepts env s presented now r i → Effect env s (.peek presented now) s (.peeked r.toToken)
  | issued {sessionID subjectID : Bytes} {epoch : ℤ} {now : Time} {id : UUID} (p : Pair) :
      Effect env s (.issue sessionID subjectID epoch now id (some p))
        ⟨s.rows ++ [newRow env id 0 sessionID subjectID epoch now p]⟩
        (.issued (encodeOpaque p.selector p.verifier)
          (newRow env id 0 sessionID subjectID epoch now p).toToken)
  | rotated {presented : Bytes} {checked now : Time} {id : UUID} {r : TokenRecord} {i : ℕ}
      (p : Pair) : Accepts env s presented checked r i →
      Effect env s (.rotate presented checked now id (some p))
        ⟨s.rows.set i (Store.rotatedParent r now) ++
          [newRow env id r.id r.sessionID r.subjectID r.authzEpochAtIssue now p]⟩
        (.issued (encodeOpaque p.selector p.verifier)
          (newRow env id r.id r.sessionID r.subjectID r.authzEpochAtIssue now p).toToken)
  | sessionRevoked (sessionID : Bytes) (now : Time) :
      Effect env s (.revokeSession sessionID now) (s.revokeSession sessionID now) .done
  | userRevoked (subjectID : Bytes) (now : Time) :
      Effect env s (.revokeUser subjectID now) (s.revokeUser subjectID now) .done
  | collected (olderThan : Time) :
      Effect env s (.gc olderThan) (s.gc olderThan).1 (s.gc olderThan).2

theorem run_effect (env : Env) (s : Store) (call : Call) :
    Effect env s call (call.run env s).1 (call.run env s).2 := by
  cases call with
  | issue _ _ _ _ _ pair =>
    simp only [Call.run, Store.issue]
    split_ifs
    · exact .refused _ rfl
    · cases pair with
      | none => exact .unreadable rfl
      | some p => exact .issued p
  | peek presented now =>
    simp only [Call.run, Store.peek]
    cases hparse : parseOpaque presented with
    | none => exact .refused _ rfl
    | some token =>
      obtain h | ⟨r, hr, h⟩ | ⟨r, i, haccepts, h⟩ := validatePresented_cases env s hparse now
      · simp only [h]
        exact .refused _ rfl
      · simp only [h]
        exact .reused rfl hr
      · simp only [h]
        exact .peeked haccepts
  | rotate presented checked now id pair =>
    simp only [Call.run, Store.rotate]
    cases hparse : parseOpaque presented with
    | none => exact .refused _ rfl
    | some token =>
      obtain h | ⟨r, hr, h⟩ | ⟨r, i, haccepts, h⟩ := validatePresented_cases env s hparse checked
      · simp only [h]
        exact .refused _ rfl
      · simp only [h]
        exact .reused rfl hr
      · simp only [h]
        cases pair with
        | none => exact .unreadable rfl
        | some p => exact .rotated p haccepts
  | revokeSession => exact .sessionRevoked _ _
  | revokeUser => exact .userRevoked _ _
  | gc => exact .collected _

end GoCell.Refresh
