import GoCell.Refresh.Revocation

namespace GoCell.Refresh

open Foundation Kernel Option Call

structure Link where
  id : UUID
  parentID : UUID
  grant : Bytes × Bytes × ℤ
  createdAt : Time
  rotatedAt : Option Time
  usedTimes : ℤ
  deriving DecidableEq

namespace Link

def rotations (l : Link) : ℤ := if l.rotatedAt.isSome then 1 + l.usedTimes else 0

def rotate (l : Link) (now : Time) : Link :=
  match l.rotatedAt with
  | some _ => { l with usedTimes := l.usedTimes + 1 }
  | none => { l with rotatedAt := some now }

variable (l : Link) (now : Time)

theorem id_rotate : (l.rotate now).id = l.id := by
  unfold rotate
  split <;> rfl

theorem parentID_rotate : (l.rotate now).parentID = l.parentID := by
  unfold rotate
  split <;> rfl

theorem grant_rotate : (l.rotate now).grant = l.grant := by
  unfold rotate
  split <;> rfl

theorem createdAt_rotate : (l.rotate now).createdAt = l.createdAt := by
  unfold rotate
  split <;> rfl

theorem rotatedAt_rotate : (l.rotate now).rotatedAt = some (l.rotatedAt.getD now) := by
  unfold rotate
  split
  · next t ht => simp [ht]
  · next hnone => simp [hnone]

theorem rotations_rotate (h : 0 ≤ l.usedTimes) : l.rotations + 1 ≤ (l.rotate now).rotations := by
  cases hr : l.rotatedAt with
  | none =>
    simp only [rotations, rotate, hr, isSome_none, isSome_some, if_true]
    simp only [Bool.false_eq_true, if_false]
    omega
  | some t =>
    simp only [rotations, rotate, hr, isSome_some, if_true]
    omega

end Link

def children (links : List Link) (id : UUID) : ℕ := (links.map Link.parentID).count id

/-- Rows under the identifiers that were drawn for them, none with too many children and each with
the grant of its parent. `window` says when a row that was first rotated at a time may have been
given a child. -/
structure Forest (maxReuses : ℤ) (window : Time → UUID → Time → Prop) (drawn : List UUID)
    (links : List Link) : Prop where
  nodup : (links.map Link.id).Nodup
  ids : ∀ l ∈ links, l.id ∈ drawn
  parents : ∀ l ∈ links, l.parentID = 0 ∨ l.parentID ∈ drawn
  bounded : ∀ l ∈ links, (children links l.id : ℤ) ≤ l.rotations
  used : ∀ l ∈ links, 0 ≤ l.usedTimes ∧ l.usedTimes ≤ maxReuses
  inherits : ∀ l ∈ links, ∀ c ∈ links, c.parentID = l.id →
    c.grant = l.grant ∧ ∃ t, l.rotatedAt = some t ∧ window t c.id c.createdAt

theorem set_self_of_getElem? {α : Type} {l : List α} {i : ℕ} {a : α} (h : l[i]? = some a) :
    l.set i a = l := by
  obtain ⟨hi, rfl⟩ := List.getElem?_eq_some_iff.1 h
  exact List.set_getElem_self hi

namespace Forest

variable {maxReuses : ℤ} {window : Time → UUID → Time → Prop} {drawn : List UUID}
  {links : List Link}

section

variable (h : Forest maxReuses window drawn links)
include h

theorem sublist {links' : List Link}
    (hsub : links'.Sublist links) : Forest maxReuses window drawn links' where
  nodup := h.nodup.sublist (hsub.map _)
  ids l hl := h.ids l (hsub.subset hl)
  parents l hl := h.parents l (hsub.subset hl)
  bounded l hl := by
    have hcount : children links' l.id ≤ children links l.id := (hsub.map _).count_le _
    have hbound := h.bounded l (hsub.subset hl)
    omega
  used l hl := h.used l (hsub.subset hl)
  inherits l hl c hc := h.inherits l (hsub.subset hl) c (hsub.subset hc)

theorem children_le {l : Link} (hl : l ∈ links) :
    (children links l.id : ℤ) ≤ 1 + maxReuses := by
  have hbound := h.bounded l hl
  have hused := h.used l hl
  unfold Link.rotations at hbound
  split at hbound <;> omega

theorem children_fresh {id : UUID} (hid : id ≠ 0)
    (hfresh : id ∉ drawn) : children links id = 0 := by
  refine List.count_eq_zero.2 fun hmem ↦ ?_
  obtain ⟨l, hl, rfl⟩ := List.mem_map.1 hmem
  obtain hp | hp := h.parents l hl
  · exact hid hp
  · exact hfresh hp

end

theorem children_concat (links : List Link) (c : Link) (id : UUID) :
    children (links ++ [c]) id = children links id + if c.parentID = id then 1 else 0 := by
  rw [children, List.map_append, List.count_append]
  simp [children, List.count_singleton]

theorem children_set {i : ℕ} {l : Link} (hl : links[i]? = some l) (now : Time) (id : UUID) :
    children (links.set i (l.rotate now)) id = children links id := by
  rw [children, List.map_set, l.parentID_rotate now, children]
  congr 1
  exact set_self_of_getElem? (by rw [List.getElem?_map, hl]; rfl)

section

variable (h : Forest maxReuses window drawn links)
include h

theorem rotate {i : ℕ} {l : Link}
    (hl : links[i]? = some l) (hgrace : l.rotatedAt.isSome = true → l.usedTimes < maxReuses)
    (now : Time) : Forest maxReuses window drawn (links.set i (l.rotate now)) := by
  have hmem : l ∈ links := List.mem_of_getElem? hl
  have hbefore := h.used l hmem
  have hold : ∀ x ∈ links.set i (l.rotate now), ∃ y ∈ links, x.id = y.id ∧
      x.parentID = y.parentID ∧ x.grant = y.grant ∧ x.createdAt = y.createdAt ∧
      y.rotations ≤ x.rotations ∧ ∀ t, y.rotatedAt = some t → x.rotatedAt = some t := by
    intro x hx
    obtain hx | rfl := List.mem_or_eq_of_mem_set hx
    · exact ⟨x, hx, rfl, rfl, rfl, rfl, le_rfl, fun t ht ↦ ht⟩
    · have hmore := l.rotations_rotate now hbefore.1
      refine ⟨l, hmem, l.id_rotate now, l.parentID_rotate now, l.grant_rotate now,
        l.createdAt_rotate now, by omega, fun t ht ↦ ?_⟩
      rw [l.rotatedAt_rotate, ht, getD_some]
  constructor
  · rw [List.map_set, l.id_rotate, set_self_of_getElem? (by rw [List.getElem?_map, hl]; rfl)]
    exact h.nodup
  · intro x hx
    obtain ⟨y, hy, hid, -⟩ := hold x hx
    rw [hid]
    exact h.ids y hy
  · intro x hx
    obtain ⟨y, hy, -, hparent, -⟩ := hold x hx
    rw [hparent]
    exact h.parents y hy
  · intro x hx
    obtain ⟨y, hy, hid, -, -, -, hmore, -⟩ := hold x hx
    rw [children_set hl, hid]
    exact (h.bounded y hy).trans hmore
  · intro x hx
    obtain hx | rfl := List.mem_or_eq_of_mem_set hx
    · exact h.used x hx
    · cases hr : l.rotatedAt with
      | none => simpa [Link.rotate, hr] using hbefore
      | some t =>
        have hlt := hgrace (by rw [hr]; rfl)
        simp only [Link.rotate, hr]
        omega
  · intro x hx c hc hparent
    obtain ⟨y, hy, hid, -, hgrant, -, -, hkeeps⟩ := hold x hx
    obtain ⟨d, hd, hcid, hcparent, hcgrant, hcreated, -, -⟩ := hold c hc
    obtain ⟨hsame, t, ht, hwindow⟩ := h.inherits y hy d hd (by rw [← hcparent, ← hid, hparent])
    rw [hgrant, hcgrant, hcid, hcreated]
    exact ⟨hsame, t, hkeeps t ht, hwindow⟩

theorem concat {c : Link} (hid : c.id ≠ 0)
    (hfresh : c.id ∉ drawn) (hused : c.usedTimes = 0) (hmax : 0 ≤ maxReuses)
    (hparent : c.parentID = 0 ∨ c.parentID ∈ drawn) (hroom : ∀ l ∈ links, c.parentID = l.id →
      (children links l.id : ℤ) + 1 ≤ l.rotations ∧ c.grant = l.grant ∧
        ∃ t, l.rotatedAt = some t ∧ window t c.id c.createdAt) :
    Forest maxReuses window (drawn ++ [c.id]) (links ++ [c]) := by
  have hself : c.parentID ≠ c.id := by
    intro heq
    obtain hp | hp := hparent
    · exact hid (heq.symm.trans hp)
    · exact hfresh (heq ▸ hp)
  have hlater : ∀ l ∈ links, l.parentID ≠ c.id := by
    intro l hl heq
    obtain hp | hp := h.parents l hl
    · exact hid (heq.symm.trans hp)
    · exact hfresh (heq ▸ hp)
  constructor
  · rw [List.map_append, List.nodup_append]
    refine ⟨h.nodup, List.nodup_singleton _, ?_⟩
    intro a ha b hb heq
    obtain ⟨l, hl, rfl⟩ := List.mem_map.1 ha
    obtain rfl : b = c.id := by simpa using hb
    exact hfresh (heq ▸ h.ids l hl)
  · intro l hl
    obtain hl | hl := List.mem_append.1 hl
    · exact List.mem_append_left _ (h.ids l hl)
    · obtain rfl := List.mem_singleton.1 hl
      exact List.mem_append_right _ (List.mem_singleton_self _)
  · intro l hl
    obtain hl | hl := List.mem_append.1 hl
    · exact (h.parents l hl).imp_right (List.mem_append_left _)
    · obtain rfl := List.mem_singleton.1 hl
      exact hparent.imp_right (List.mem_append_left _)
  · intro l hl
    rw [children_concat]
    obtain hl | hl := List.mem_append.1 hl
    · split
      · next heq => exact_mod_cast (hroom l hl heq).1
      · exact h.bounded l hl
    · obtain rfl := List.mem_singleton.1 hl
      rw [h.children_fresh hid hfresh, if_neg hself, Link.rotations, hused]
      split <;> simp
  · intro l hl
    obtain hl | hl := List.mem_append.1 hl
    · exact h.used l hl
    · obtain rfl := List.mem_singleton.1 hl
      rw [hused]
      exact ⟨le_rfl, hmax⟩
  · intro l hl c' hc' heq
    obtain hold | hnew := List.mem_append.1 hc'
    · obtain hl | hl := List.mem_append.1 hl
      · exact h.inherits l hl c' hold heq
      · obtain rfl := List.mem_singleton.1 hl
        exact absurd heq (hlater c' hold)
    · obtain rfl := List.mem_singleton.1 hnew
      obtain hl | hl := List.mem_append.1 hl
      · exact (hroom l hl heq).2
      · obtain rfl := List.mem_singleton.1 hl
        exact absurd heq hself

theorem weaken {window' : Time → UUID → Time → Prop}
    {drawn' : List UUID} (hwindow : ∀ t id created, window t id created → window' t id created)
    (hdrawn : drawn ⊆ drawn') : Forest maxReuses window' drawn' links where
  nodup := h.nodup
  ids l hl := hdrawn (h.ids l hl)
  parents l hl := (h.parents l hl).imp_right fun hp ↦ hdrawn hp
  bounded := h.bounded
  used := h.used
  inherits l hl c hc heq := by
    obtain ⟨hgrant, t, ht, hchild⟩ := h.inherits l hl c hc heq
    exact ⟨hgrant, t, ht, hwindow t _ _ hchild⟩

theorem eq_of_id_eq {l l' : Link} (hl : l ∈ links)
    (hl' : l' ∈ links) (heq : l.id = l'.id) : l = l' :=
  List.inj_on_of_nodup_map h.nodup hl hl' heq

theorem rotate_concat {i : ℕ} {l c : Link}
    (hl : links[i]? = some l) (hgrace : l.rotatedAt.isSome = true → l.usedTimes < maxReuses)
    (hmax : 0 ≤ maxReuses) (now : Time) (hid : c.id ≠ 0) (hfresh : c.id ∉ drawn)
    (hused : c.usedTimes = 0) (hparent : c.parentID = l.id) (hgrant : c.grant = l.grant)
    (hwindow : window (l.rotatedAt.getD now) c.id c.createdAt) :
    Forest maxReuses window (drawn ++ [c.id]) (links.set i (l.rotate now) ++ [c]) := by
  have hmem : l ∈ links := List.mem_of_getElem? hl
  have hset := h.rotate hl hgrace now
  refine hset.concat hid hfresh hused hmax ?_ ?_
  · rw [hparent]
    exact .inr (h.ids l hmem)
  · intro x hx heq
    have hplace : i < links.length := (List.getElem?_eq_some_iff.1 hl).1
    obtain rfl : x = l.rotate now := by
      refine hset.eq_of_id_eq hx (List.mem_set hplace _) ?_
      rw [l.id_rotate, ← heq, hparent]
    have hbefore := h.bounded l hmem
    have hmore := l.rotations_rotate now (h.used l hmem).1
    rw [children_set hl, l.id_rotate, l.grant_rotate, l.rotatedAt_rotate]
    exact ⟨by omega, hgrant, _, rfl, hwindow⟩

end

end Forest

section Rows

def Call.rowID : Call → Option UUID
  | .issue _ _ _ _ id _ | .rotate _ _ _ id _ => some id
  | _ => none

def Call.rotatedAt : Call → Option Time
  | .rotate _ _ now _ _ => some now
  | _ => none

def TokenRecord.link (r : TokenRecord) : Link where
  id := r.id
  parentID := r.parentID
  grant := (r.sessionID, r.subjectID, r.authzEpochAtIssue)
  createdAt := r.createdAt
  rotatedAt := if r.isRotated then some r.rotatedAt else none
  usedTimes := r.usedTimes

/-- A child is created by a rotation that is its parent's first one, or that was validated within
the reuse interval of the first one. -/
def InWindow (env : Env) (calls : List Call) (t : Time) (id : UUID) (created : Time) : Prop :=
  ∃ presented checked pair, Call.rotate presented checked created id pair ∈ calls ∧
    (created = t ∨ checked ≤ t + env.policy.reuseInterval)

def Lineage (env : Env) (calls : List Call) (s : Store) : Prop :=
  Forest env.policy.graceMaxReuses (InWindow env calls) (calls.filterMap Call.rowID)
    (s.rows.map TokenRecord.link)

variable {env : Env} {s : Store} {calls : List Call}

theorem link_revoke (now : Time) (r : TokenRecord) : (r.revoke now).link = r.link := by
  unfold TokenRecord.revoke
  split <;> rfl

theorem links_revokeWhere (p : TokenRecord → Bool) (now : Time) :
    (s.revokeWhere p now).rows.map TokenRecord.link = s.rows.map TokenRecord.link := by
  rw [Store.revokeWhere, List.map_map]
  refine List.map_congr_left fun r _ ↦ ?_
  rw [Function.comp_apply]
  split
  · exact link_revoke now r
  · rfl

theorem link_rotatedParent {now : Time} (hnow : now ≠ 0) (r : TokenRecord) :
    (Store.rotatedParent r now).link = r.link.rotate now := by
  simp only [TokenRecord.link, isRotated_rotatedParent hnow, if_true]
  cases hr : r.isRotated <;> simp [Link.rotate, Store.rotatedParent, hr]

theorem rotatedAt_of_link {r : TokenRecord} {t : Time} (h : r.link.rotatedAt = some t) :
    r.isRotated = true ∧ r.rotatedAt = t := by
  cases hr : r.isRotated with
  | true =>
    rw [TokenRecord.link, hr] at h
    exact ⟨rfl, some.inj h⟩
  | false =>
    rw [TokenRecord.link, hr] at h
    cases h

theorem InWindow.append {t : Time} {id : UUID} {created : Time}
    (h : InWindow env calls t id created) (call : Call) :
    InWindow env (calls ++ [call]) t id created := by
  obtain ⟨presented, checked, pair, hmem, hwhen⟩ := h
  exact ⟨presented, checked, pair, List.mem_append_left _ hmem, hwhen⟩

theorem Accepts.inWindow {presented : Bytes} {checked : Time} {r : TokenRecord} {i : ℕ}
    (h : Accepts env s presented checked r i) (calls : List Call) (now : Time) (id : UUID)
    (pair : Option Pair) :
    InWindow env (calls ++ [.rotate presented checked now id pair])
      (r.link.rotatedAt.getD now) id now := by
  refine ⟨presented, checked, pair, List.mem_append_right _ (List.mem_singleton_self _), ?_⟩
  cases hr : r.isRotated with
  | false =>
    rw [TokenRecord.link, hr]
    exact .inl rfl
  | true =>
    obtain ⟨-, hinterval⟩ := h.grace hr
    rw [TokenRecord.link, hr]
    simp only [if_true, getD_some]
    exact .inr (by simp only [Time] at hinterval ⊢; omega)

theorem Lineage.step (h : Lineage env calls s) {call : Call} {s' : Store} {answer : Answer}
    (heffect : Effect env s call s' answer) (hids : ((calls ++ [call]).filterMap rowID).Nodup)
    (hnil : 0 ∉ (calls ++ [call]).filterMap rowID)
    (hclock : 0 ∉ (calls ++ [call]).filterMap rotatedAt) :
    Lineage env (calls ++ [call]) s' := by
  have hkept : Forest env.policy.graceMaxReuses (InWindow env (calls ++ [call]))
      (calls.filterMap rowID) (s.rows.map TokenRecord.link) :=
    h.weaken (fun t id created hchild ↦ hchild.append call) (List.Subset.refl _)
  have hsame : Lineage env (calls ++ [call]) s := by
    refine hkept.weaken (fun t id created hchild ↦ hchild) ?_
    rw [List.filterMap_append]
    exact List.subset_append_left _ _
  have hmax : 0 ≤ env.policy.graceMaxReuses := env.policy.graceMaxReuses_pos.le
  rw [List.filterMap_append, List.nodup_append] at hids
  rw [List.filterMap_append, List.mem_append, not_or] at hnil hclock
  cases heffect with
  | refused | unreadable | peeked => exact hsame
  | reused | sessionRevoked =>
    rw [Lineage, Store.revokeSession, links_revokeWhere]
    exact hsame
  | userRevoked =>
    rw [Lineage, Store.revokeUser, links_revokeWhere]
    exact hsame
  | collected => exact hsame.sublist (List.filter_sublist.map _)
  | @issued sessionID subjectID epoch now id p =>
    have hfresh : id ∉ calls.filterMap rowID :=
      fun hmem ↦ hids.2.2 id hmem id (List.mem_singleton_self _) rfl
    have hne : id ≠ 0 := fun hzero ↦ hnil.2 (hzero ▸ List.mem_singleton_self _)
    rw [Lineage, List.filterMap_append, List.map_append]
    have hroot : ∀ l ∈ s.rows.map TokenRecord.link, l.id ≠ 0 :=
      fun l hl hzero ↦ hnil.1 (hzero ▸ hkept.ids l hl)
    exact hkept.concat (c := (newRow env id 0 sessionID subjectID epoch now p).link) hne hfresh rfl
      hmax (.inl rfl) fun l hl heq ↦ absurd heq.symm (hroot l hl)
  | @rotated presented checked now id r i p haccepts =>
    have hfresh : id ∉ calls.filterMap rowID :=
      fun hmem ↦ hids.2.2 id hmem id (List.mem_singleton_self _) rfl
    have hne : id ≠ 0 := fun hzero ↦ hnil.2 (hzero ▸ List.mem_singleton_self _)
    have hnow : now ≠ 0 := fun hzero ↦ hclock.2 (hzero ▸ List.mem_singleton_self _)
    rw [Lineage, List.filterMap_append, List.map_append, List.map_set, link_rotatedParent hnow]
    refine hkept.rotate_concat (l := r.link)
      (c := (newRow env id r.id r.sessionID r.subjectID r.authzEpochAtIssue now p).link)
      ?_ ?_ hmax now hne hfresh rfl rfl rfl (haccepts.inWindow ..)
    · rw [List.getElem?_map, haccepts.row]
      rfl
    · intro hrotated
      obtain ⟨t, ht⟩ := isSome_iff_exists.1 hrotated
      exact (haccepts.grace (rotatedAt_of_link ht).1).1

theorem lineage_after (env : Env) {calls : List Call} (hids : (calls.filterMap rowID).Nodup)
    (hnil : 0 ∉ calls.filterMap rowID) (hclock : 0 ∉ calls.filterMap rotatedAt) :
    Lineage env calls (after (run env) .empty calls) := by
  induction calls using List.reverseRecOn with
  | nil =>
    constructor
    · exact List.nodup_nil
    all_goals exact fun l hl ↦ absurd hl List.not_mem_nil
  | append_singleton calls call ih =>
    have hbefore : Lineage env calls (after (run env) .empty calls) := by
      rw [List.filterMap_append] at hids hnil hclock
      apply ih
      · exact hids.of_append_left
      · exact fun hmem ↦ hnil (List.mem_append_left _ hmem)
      · exact fun hmem ↦ hclock (List.mem_append_left _ hmem)
    rw [after, List.foldl_append]
    exact hbefore.step (run_effect env _ call) hids hnil hclock

def Answer.accepts : Answer → Bool
  | .issued _ _ | .peeked _ => true
  | _ => false

theorem Effect.accepted {call : Call} {s' : Store} {answer : Answer}
    (h : Effect env s call s' answer) {presented : Bytes}
    (hpresented : call.presented = some presented) (haccepts : answer.accepts = true) :
    ∃ r i, Accepts env s presented call.revokedAt r i := by
  cases h with
  | peeked h | rotated p h =>
    cases hpresented
    exact ⟨_, _, h⟩
  | issued | sessionRevoked | userRevoked | collected => cases hpresented
  | refused | unreadable | reused => cases haccepts

theorem Effect.eq_of_peek {presented : Bytes} {now : Time} {s' : Store} {answer : Answer}
    (h : Effect env s (.peek presented now) s' answer)
    (hanswer : ∀ tok, answer ≠ .reused tok) : s' = s := by
  cases h with
  | refused | unreadable | peeked => rfl
  | reused => exact absurd rfl (hanswer _)

/-- After every run a row has at most one child more than the grace retries allow; every child but
those of the first rotation was validated within the reuse interval of that rotation and has the
grant of its parent; what is accepted next belongs to a row within its deadlines, and a look at a
token changes nothing unless it is a reuse. -/
theorem lineage_bounded (env : Env) {calls : List Call}
    (hids : (calls.filterMap Call.rowID).Nodup) (hnil : 0 ∉ calls.filterMap Call.rowID)
    (hclock : 0 ∉ calls.filterMap Call.rotatedAt) {s : Store}
    (hs : after (Call.run env) .empty calls = s) :
    (∀ r ∈ s.rows,
      (s.rows.countP (fun c ↦ c.parentID = r.id) : ℤ) ≤ 1 + env.policy.graceMaxReuses) ∧
    (∀ r ∈ s.rows, ∀ c ∈ s.rows, c.parentID = r.id →
      c.sessionID = r.sessionID ∧ c.subjectID = r.subjectID ∧
        c.authzEpochAtIssue = r.authzEpochAtIssue ∧ r.isRotated = true ∧
        ∃ presented checked pair, Call.rotate presented checked c.createdAt c.id pair ∈ calls ∧
          (c.createdAt = r.rotatedAt ∨ checked ≤ r.rotatedAt + env.policy.reuseInterval)) ∧
    (∀ (call : Call) presented, call.presented = some presented →
      (call.run env s).2.accepts = true →
      ∃ r ∈ s.rows, (∃ ver, parseOpaque presented = some (r.selector, ver)) ∧
        call.revokedAt < r.expiresAt ∧ call.revokedAt < r.idleExpiresAt) ∧
    ∀ presented now, (∀ tok, (s.peek env presented now).2 ≠ .reused tok) →
      (s.peek env presented now).1 = s := by
  subst hs
  have hforest := lineage_after env hids hnil hclock
  refine ⟨fun r hr ↦ ?_, fun r hr c hc hparent ↦ ?_, fun call presented hpresented haccepts ↦ ?_,
    fun presented now hpeek ↦ ?_⟩
  · have hbound := hforest.children_le (List.mem_map_of_mem hr)
    rw [children, List.map_map, List.count, List.countP_map] at hbound
    exact hbound
  · obtain ⟨hgrant, t, ht, hwindow⟩ := hforest.inherits _ (List.mem_map_of_mem hr) _
      (List.mem_map_of_mem hc) hparent
    obtain ⟨hsession, hrest⟩ := Prod.mk.inj hgrant
    obtain ⟨hsubject, hepoch⟩ := Prod.mk.inj hrest
    obtain ⟨hrotated, rfl⟩ := rotatedAt_of_link ht
    exact ⟨hsession, hsubject, hepoch, hrotated, hwindow⟩
  · obtain ⟨r, i, h⟩ := (run_effect env _ call).accepted hpresented haccepts
    exact ⟨r, h.mem, h.parsed, h.unexpired, h.inUse⟩
  · exact (run_effect env _ (.peek presented now)).eq_of_peek hpeek

def sampleRotations (times : List (Time × Time)) : List Call :=
  .issue (asciiBytes "s-1") (asciiBytes "u-1") 1 (times.head?.elim 0 Prod.fst) 1
      (some (samplePair 1)) ::
    times.mapIdx fun i t ↦ .rotate (sampleWire 1) t.1 t.2 (i + 2)
      (some (samplePair (.ofNat (i + 2))))

theorem lineage_bounded_retry :
    (after (Call.run sampleEnv) .empty (sampleRotations [(2, 2), (3, 3)])).rows.map
      TokenRecord.parentID = [0, 1, 1] ∧
    ∀ r ∈ (after (Call.run sampleEnv) .empty (sampleRotations [(2, 2), (3, 3)])).rows,
      ((after (Call.run sampleEnv) .empty (sampleRotations [(2, 2), (3, 3)])).rows.countP
        (fun c ↦ c.parentID = r.id) : ℤ) ≤ 1 + sampleEnv.policy.graceMaxReuses :=
  ⟨by decide +kernel, (lineage_bounded sampleEnv (by decide) (by decide) (by decide) rfl).1⟩

/-- A retry that is validated in the window may create its child behind it, and a row that is first
rotated at the zero time has as many children as there are retries. -/
theorem lineage_breaks :
    (after (Call.run sampleEnv) .empty (sampleRotations [(2, 2), (12, 40)])).rows.map
      (fun r ↦ (r.parentID, r.createdAt, r.rotatedAt + sampleEnv.policy.reuseInterval)) =
        [(0, 2, 12), (1, 2, 10), (1, 40, 10)] ∧
    1 + sampleEnv.policy.graceMaxReuses = 4 ∧
    (after (Call.run sampleEnv) .empty
      (sampleRotations (List.replicate 5 (0, 0)))).rows.countP (fun c ↦ c.parentID = 1) = 5 := by
  decide +kernel

end Rows

end GoCell.Refresh
