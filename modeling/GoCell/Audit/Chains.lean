import GoCell.Audit.SignedMessage
import GoCell.Foundation.HashChain
import GoCell.Foundation.Runs

namespace GoCell.Audit

open Foundation Kernel List

def ownChain (t : Bytes) (log : List Entry) : List Entry := log.filter fun e ↦ e.tenantID = t

theorem mem_ownChain {t : Bytes} {log : List Entry} {e : Entry} :
    e ∈ ownChain t log ↔ e ∈ log ∧ e.tenantID = t := by
  rw [ownChain, mem_filter, decide_eq_true_eq]

theorem ownChain_concat (t : Bytes) (log : List Entry) (e : Entry) :
    ownChain t (log ++ [e]) = if e.tenantID = t then ownChain t log ++ [e] else ownChain t log := by
  unfold ownChain
  split_ifs with h <;> simp [filter_append, h]

structure WellChained (p : Protocol) (log : List Entry) : Prop where
  dense : ∀ (t : Bytes) (k : ℕ) (e : Entry), (ownChain t log)[k]? = some e → e.seqNo = k + 1
  linked : ∀ t, Linked Entry.prevHash Entry.hash [] (ownChain t log)
  hashed : ∀ e ∈ log, e.hash = p.computeHash e.prevHash e
  distinct : ∀ t, ((ownChain t log).map Entry.eventID).Nodup

namespace WellChained

variable {p : Protocol} {log : List Entry}

theorem nil : WellChained p [] where
  dense _ _ _ h := by cases h
  linked _ _ _ h := by cases h
  hashed _ h := by cases h
  distinct _ := nodup_nil

theorem concat (h : WellChained p log) {e : Entry}
    (hseq : e.seqNo = (ownChain e.tenantID log).length + 1)
    (hprev : e.prevHash = ((ownChain e.tenantID log).getLast?.map Entry.hash).getD [])
    (hhash : e.hash = p.computeHash e.prevHash e)
    (hnew : ∀ x ∈ ownChain e.tenantID log, x.eventID ≠ e.eventID) :
    WellChained p (log ++ [e]) where
  dense := by
    intro t k x hx
    rw [ownChain_concat] at hx
    split_ifs at hx with ht
    · subst ht
      obtain hold | ⟨rfl, rfl⟩ := getElem?_concat_cases hx
      · exact h.dense _ k x hold
      · exact hseq
    · exact h.dense t k x hx
  linked := by
    intro t
    rw [ownChain_concat]
    split_ifs with ht
    · subst ht
      exact (h.linked _).concat hprev
    · exact h.linked t
  hashed := by
    intro x hx
    obtain hold | hx := mem_append.1 hx
    · exact h.hashed x hold
    · rw [mem_singleton.1 hx, hhash]
  distinct := by
    intro t
    rw [ownChain_concat]
    split_ifs with ht
    · subst ht
      rw [map_append, map_singleton, nodup_append]
      refine ⟨h.distinct _, nodup_singleton _, ?_⟩
      intro a ha b hb
      obtain ⟨x, hx, rfl⟩ := mem_map.1 ha
      rw [mem_singleton.1 hb]
      exact hnew x hx
    · exact h.distinct t

theorem hash_ne_nil (h : WellChained p log) {e : Entry} (he : e ∈ log) : e.hash ≠ [] := by
  rw [h.hashed e he]
  exact p.computeHash_ne_nil _ _

end WellChained

def appended (answers : List (Except Err Entry)) : List Entry := answers.filterMap Except.toOption

theorem log_run {σ α : Type*} {call : σ → α → σ × Except Err Entry} {R : σ → List Entry → Prop}
    (step : ∀ s log a, R s log → R (call s a).1 (log ++ appended [(call s a).2]))
    (calls : List α) {s : σ} {log : List Entry} (h : R s log) :
    R (after call s calls) (log ++ appended (answers call s calls)) := by
  induction calls generalizing s log with
  | nil =>
    rw [answers, show appended [] = [] from rfl, append_nil]
    exact h
  | cons a calls ih =>
    have hnext := ih (step s log a h)
    rwa [append_assoc, appended, appended, ← filterMap_append] at hnext

end GoCell.Audit
