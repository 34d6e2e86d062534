import GoCell.Foundation.Tables
import GoCell.Kernel.Values

namespace GoCell.Projection

open Foundation Kernel

def checkpointKey (cellID projectionID : String) : String := cellID ++ "/" ++ projectionID

def errStaleOwner : Err :=
  ⟨.conflict, .conflict, "projection: checkpoint advance rejected — stale owner token", []⟩

structure OwnerEntry where
  owner : String := ""
  offset : ℕ := 0
  deriving DecidableEq

structure MemOwnerCheckpointStore where
  entries : Table String OwnerEntry := ∅

namespace MemOwnerCheckpointStore

variable (m : MemOwnerCheckpointStore)

def entry (cellID projectionID : String) : OwnerEntry :=
  (m.entries.lookup (checkpointKey cellID projectionID)).getD {}

def loadOffset (cellID projectionID : String) : ℕ :=
  (m.entry cellID projectionID).offset

def advanceIfOwner (cellID projectionID ownerToken : String)
    (offset : ℕ) : Except Err MemOwnerCheckpointStore :=
  if ownerToken = "" then
    .error (validationFailed "projection: AdvanceIfOwner requires a non-empty owner token")
  else
    let e := m.entry cellID projectionID
    if ownerToken = e.owner ∨ e.offset < offset then
      .ok { entries := m.entries.insert (checkpointKey cellID projectionID) ⟨ownerToken, offset⟩ }
    else .error errStaleOwner

theorem advanceIfOwner_ok {m m' : MemOwnerCheckpointStore}
    {cellID projectionID ownerToken : String} {offset : ℕ}
    (h : m.advanceIfOwner cellID projectionID ownerToken offset = .ok m') :
    (ownerToken = (m.entry cellID projectionID).owner ∨ m.loadOffset cellID projectionID < offset) ∧
      m'.entry cellID projectionID = ⟨ownerToken, offset⟩ := by
  unfold advanceIfOwner at h
  dsimp only at h
  split_ifs at h with hempty hfence
  cases h
  refine ⟨hfence, ?_⟩
  rw [entry, AList.lookup_insert, Option.getD_some]

end MemOwnerCheckpointStore

end GoCell.Projection
