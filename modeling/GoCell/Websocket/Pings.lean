import GoCell.Websocket.Registry

namespace GoCell.Websocket.Hub

open Foundation List Option

variable {h h' : Hub} {a : Action}

/-- The failures of the pings sent to the connection `e` since the last one that succeeded. -/
def consecutiveFailures (e : ℕ) (pings : List (ℕ × Bool)) : ℕ :=
  ((pings.reverse.filter (·.1 = e)).takeWhile (!·.2)).length

@[grind =] theorem consecutiveFailures_append (e e' : ℕ) (ok : Bool) (pings : List (ℕ × Bool)) :
    consecutiveFailures e (pings ++ [(e', ok)]) =
      if e' ≠ e then consecutiveFailures e pings
      else if ok then 0 else consecutiveFailures e pings + 1 := by
  by_cases he : e' = e <;> cases ok <;> simp [consecutiveFailures, he]

theorem consecutiveFailures_of_not_pinged {e : ℕ} {pings : List (ℕ × Bool)}
    (h : ∀ p ∈ pings, p.1 < e) : consecutiveFailures e pings = 0 := by
  have hnone : pings.reverse.filter (·.1 = e) = [] := by
    simp only [filter_eq_nil_iff, mem_reverse, decide_eq_true_eq]
    exact fun p hp ↦ (h p hp).ne
  rw [consecutiveFailures, hnone]
  rfl

def OwnResult (h : Hub) (a : Action) : Prop :=
  a = .pingResult true ∨ a = .pingResult false →
    ∀ x ∈ h.sweep.head?, ∀ current ∈ h.conns.lookup x.1, current = x.2

instance (h : Hub) (a : Action) : Decidable (h.OwnResult a) := inferInstanceAs (Decidable (_ → _))

structure Quiet (h h' : Hub) : Prop where
  misses : h'.pingMisses = h.pingMisses
  pings : h'.pings = h.pings
  evictions : h'.pingEvictions = h.pingEvictions
  entries : h.entries <+: h'.entries
  conns : ∀ id e, h'.conns.lookup id = some e → h.conns.lookup id = some e ∨ h.entries.length ≤ e
  sweep : ∀ x ∈ h'.sweep, x ∈ h.sweep ∨ h.conns.lookup x.1 = some x.2

theorem quiet_removeConnLocked (h : Hub) (e : ℕ) :
    Quiet h (h.removeConnLocked e) ∧ (h.removeConnLocked e).entries = h.entries := by
  unfold Hub.removeConnLocked
  split
  · exact ⟨⟨rfl, rfl, rfl, prefix_rfl, fun _ _ hr ↦ .inl hr, fun _ hx ↦ .inl hx⟩, rfl⟩
  · refine ⟨⟨rfl, rfl, rfl, prefix_rfl, fun id e' hr ↦ .inl ?_, fun _ hx ↦ .inl hx⟩, rfl⟩
    rw [lookup_erase_if] at hr
    split at hr
    · cases hr
    · exact hr

theorem Quiet.addConnLocked (hq : Quiet h h') (hentries : h'.entries = h.entries)
    (entry : ConnEntry) : Quiet h (h'.addConnLocked entry) := by
  refine ⟨hq.misses, hq.pings, hq.evictions, ?_, fun id e hr ↦ ?_, hq.sweep⟩
  · exact hentries ▸ prefix_append _ _
  · simp only [Hub.addConnLocked, lookup_insert_if] at hr
    split at hr
    · exact .inr (hentries ▸ (some.inj hr).le)
    · exact hq.conns id e hr

theorem quiet_step (hs : h.step a = some h') (ha : ∀ ok, a ≠ .pingResult ok) : Quiet h h' := by
  have hself : Quiet h h :=
    ⟨rfl, rfl, rfl, prefix_rfl, fun _ _ hr ↦ .inl hr, fun _ hx ↦ .inl hx⟩
  cases a with
  | pingResult ok => exact absurd rfl (ha ok)
  | register entry =>
    cases hs
    unfold Hub.register
    split_ifs
    · exact hself
    · exact hself
    · split
      · next old _ =>
        obtain ⟨hq, hentries⟩ := h.quiet_removeConnLocked old
        exact hq.addConnLocked hentries entry
      · exact hself.addConnLocked rfl entry
  | unregister id =>
    cases hs
    unfold Hub.unregister
    split
    · exact (h.quiet_removeConnLocked _).1
    · exact hself
  | evict e =>
    cases hs
    unfold Hub.evict
    split
    · exact hself
    · split
      · exact (h.quiet_removeConnLocked _).1
      · exact hself
  | drain =>
    obtain ⟨-, ⟨⟩⟩ := ite_none_right_eq_some.1 hs
    exact { hself with conns := by simp [Hub.drain] }
  | beginSweep =>
    obtain ⟨⟨-, hperm⟩, ⟨⟩⟩ := ite_none_right_eq_some.1 hs
    refine { hself with sweep := fun x hx ↦ .inr ?_ }
    obtain ⟨⟨id, e⟩, hmem, rfl⟩ := mem_map.1 ((isPerm_iff.1 hperm).mem_iff.1 hx)
    exact AList.mem_lookup_iff.2 hmem
  | skip =>
    simp only [Hub.step] at hs
    split at hs <;> cases hs
    next rest hsweep =>
    exact { hself with sweep := fun x hx ↦ .inl (hsweep ▸ mem_cons_of_mem _ hx) }
  | _ =>
    simp only [Hub.step] at hs
    split at hs <;> cases hs
    exact { hself with }

structure Counted (h : Hub) : Prop extends h.Consistent where
  counted : ∀ id e, h.conns.lookup id = some e → h.pingMisses e = consecutiveFailures e h.pings
  fresh : ∀ e, h.entries.length ≤ e → h.pingMisses e = 0
  pinged : ∀ p ∈ h.pings, p.1 < h.entries.length
  swept : ∀ x ∈ h.sweep, ∃ entry, h.entries[x.2]? = some entry ∧ entry.connID = x.1
  evicted : ∀ x ∈ h.pingEvictions, x.2 ≤ h.pings.length ∧
    h.pingMissMax ≤ consecutiveFailures x.1 (h.pings.take x.2)

theorem Counted.quiet (hc : h.Counted) (hq : Quiet h h') (hconsistent : h'.Consistent)
    (hconfig : h'.pingMissMax = h.pingMissMax) : h'.Counted := by
  refine ⟨hconsistent, fun id e hreg ↦ ?_, fun e he ↦ ?_, fun p hp ↦ ?_, fun x hx ↦ ?_, ?_⟩
  · rw [hq.misses, hq.pings]
    rcases hq.conns id e hreg with hreg | hfresh
    · exact hc.counted id e hreg
    · rw [hc.fresh e hfresh]
      exact (consecutiveFailures_of_not_pinged fun p hp ↦ (hc.pinged p hp).trans_le hfresh).symm
  · rw [hq.misses]
    exact hc.fresh e (hq.entries.length_le.trans he)
  · exact (hc.pinged p (hq.pings ▸ hp)).trans_le hq.entries.length_le
  · obtain ⟨entry, hentry, hid⟩ : ∃ entry, h.entries[x.2]? = some entry ∧ entry.connID = x.1 := by
      rcases hq.sweep x hx with hx | hreg
      · exact hc.swept x hx
      · exact hc.registered _ _ hreg
    obtain ⟨later, hlater⟩ := hq.entries
    refine ⟨entry, ?_, hid⟩
    rw [← hlater, List.getElem?_append_left (List.getElem?_eq_some_iff.1 hentry).1, hentry]
  · rw [hq.evictions, hq.pings, hconfig]
    exact hc.evicted

theorem Counted.pingResult (hc : h.Counted) {ok : Bool} (hs : h.step (.pingResult ok) = some h')
    (hown : h.OwnResult (.pingResult ok)) : h'.Counted := by
  have hconsistent := hc.toConsistent.step hs
  simp only [Hub.step] at hs
  split at hs
  · cases hs
  next connID e rest hsweep =>
  obtain ⟨misses, evictions, hframe, hmisses, hevictions⟩ := h.handlePingResult_frame connID e ok
  rw [hframe] at hs
  cases hs
  obtain ⟨entry, hentry, hid⟩ := hc.swept (connID, e) (by simp [hsweep])
  have hcurrent : ∀ current, h.conns.lookup connID = some current → current = e :=
    hown (by cases ok <;> simp) (connID, e) (by simp [hsweep])
  have hregistered : ∀ id, h.conns.lookup id = some e → id = connID := by
    intro id hreg
    obtain ⟨entry', hentry', rfl⟩ := hc.registered id e hreg
    exact (some.inj (hentry'.symm.trans hentry)) ▸ hid
  have hcounted := hc.counted
  refine ⟨hconsistent, fun id e' hreg ↦ ?_, fun e' he' ↦ ?_, fun p hp ↦ ?_, fun x hx ↦ ?_,
    fun x hx ↦ ?_⟩
  · -- the count of the pinged connection moves with its pings, every other one stays
    refine (hmisses e').trans ((consecutiveFailures_append e' e ok h.pings).trans ?_).symm
    change h.conns.lookup id = some e' at hreg
    grind -ring -linarith
  · have hlt := @hc.registered connID e'
    have hfresh := hc.fresh e' he'
    refine (hmisses e').trans ?_
    change h.entries.length ≤ e' at he'
    grind -ring -linarith
  · rcases mem_append.1 hp with hp | hp
    · exact hc.pinged p hp
    · obtain rfl := mem_singleton.1 hp
      exact (List.getElem?_eq_some_iff.1 hentry).1
  · exact hc.swept x (hsweep ▸ mem_cons_of_mem _ hx)
  · rcases hevictions x hx with hx | ⟨hreg, rfl, hlength, hmax⟩
    · obtain ⟨hle, hmax⟩ := hc.evicted x hx
      rw [take_append_of_le_length hle, length_append]
      exact ⟨by omega, hmax⟩
    · have hown := hcounted connID x.1 hreg
      have he := hcurrent x.1 hreg
      refine ⟨by simp [hlength], ?_⟩
      rw [hlength, take_of_length_le (by simp), he, consecutiveFailures_append]
      simp only [ne_eq, not_true_eq_false, if_false, Bool.false_eq_true]
      rw [← he, ← hown]
      exact_mod_cast hmax

/-- When no ping result comes back after the id of its connection was taken over, the miss count of
a registered connection is the number of consecutive failed pings, and an eviction for missed pings
follows `pingMissMax` of them. -/
theorem pings_counted (maxConnections pingMissMax : ℤ) (as : List Action) (h : Hub)
    (hrun : exec Hub.step (newHub maxConnections pingMissMax) as = some h)
    (hown : Along Hub.step (newHub maxConnections pingMissMax) as OwnResult) :
    (∀ id e, h.conns.lookup id = some e → h.pingMisses e = consecutiveFailures e h.pings) ∧
      (∀ p ∈ h.pings, p.1 < h.entries.length) ∧
      ∀ x ∈ h.pingEvictions, pingMissMax ≤ consecutiveFailures x.1 (h.pings.take x.2) := by
  have hstep : ∀ (h : Hub) a h', (h.Counted ∧ h.pingMissMax = pingMissMax) → h.OwnResult a →
      h.step a = some h' → h'.Counted ∧ h'.pingMissMax = pingMissMax := by
    rintro h a h' ⟨hc, hmax⟩ ha hs
    refine ⟨?_, (step_config hs).2.trans hmax⟩
    by_cases hping : ∃ ok, a = .pingResult ok
    · obtain ⟨ok, rfl⟩ := hping
      exact hc.pingResult hs ha
    · exact hc.quiet (quiet_step hs fun ok hok ↦ hping ⟨ok, hok⟩) (hc.toConsistent.step hs)
        (step_config hs).2
  have hstart : (newHub maxConnections pingMissMax).Counted :=
    ⟨consistent_newHub _ _, by simp [newHub], fun _ _ ↦ rfl, by simp [newHub], by simp [newHub],
      by simp [newHub]⟩
  obtain ⟨hc, hmax⟩ := exec_invariant_along _ hstep as _ h ⟨hstart, rfl⟩ hown hrun
  exact ⟨hc.counted, hc.pinged, fun x hx ↦ hmax ▸ (hc.evicted x hx).2⟩

theorem pings_counted_missed : ∃ h, exec Hub.step (newHub 0 2) [.start, .register ⟨"c", "s"⟩,
      .beginSweep [("c", 0)], .pingResult false, .beginSweep [("c", 0)], .pingResult false] =
        some h ∧
    h.pingEvictions = [(0, 2)] ∧ 2 ≤ consecutiveFailures 0 (h.pings.take 2) := by
  have hrun : (exec Hub.step (newHub 0 2) [.start, .register ⟨"c", "s"⟩, .beginSweep [("c", 0)],
      .pingResult false, .beginSweep [("c", 0)], .pingResult false]).map Hub.pingEvictions =
    some [(0, 2)] := rfl
  obtain ⟨h, hrun, hevictions⟩ := map_eq_some_iff.1 hrun
  have hcounted := (pings_counted 0 2 _ h hrun (by decide)).2.2 (0, 2) (by simp [hevictions])
  exact ⟨h, hrun, hevictions, by exact_mod_cast hcounted⟩

/-- The id of a pinged connection is taken over before the result comes back, which counts against
the new connection and evicts it at once. -/
theorem eviction_of_successor : ¬∀ (as : List Action) (h : Hub),
    exec Hub.step (newHub 0 1) as = some h →
      ∀ x ∈ h.pingEvictions, 1 ≤ consecutiveFailures x.1 (h.pings.take x.2) := by
  intro hall
  have hrun : (exec Hub.step (newHub 0 1) [.start, .register ⟨"c", "s"⟩, .beginSweep [("c", 0)],
      .unregister "c", .register ⟨"c", "t"⟩, .pingResult false]).map
        (fun h ↦ (h.pingEvictions, h.pings)) = some ([(1, 1)], [(0, false)]) := rfl
  obtain ⟨h, hrun, heq⟩ := map_eq_some_iff.1 hrun
  obtain ⟨hevictions, hpings⟩ := Prod.mk.inj heq
  have hfailed := hall _ h hrun (1, 1) (by simp [hevictions])
  rw [hpings] at hfailed
  exact absurd hfailed (by decide)

end GoCell.Websocket.Hub
