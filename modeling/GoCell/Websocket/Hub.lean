import GoCell.Foundation.Runs
import GoCell.Foundation.Tables

namespace GoCell.Websocket

open Foundation

inductive HubState
  | idle
  | running
  | stopping
  | stopped
  deriving DecidableEq

/-- A connection as `Register` accepts it, with the subject of its principal at that moment. -/
structure ConnEntry where
  connID : String
  subject : String
  deriving DecidableEq

/-- The hub with its goroutines; its maps hold the numbers of the accepted connections in `entries`.
`closing` are the removed connections that are not closed yet, `fanouts` the running calls of
`BroadcastToSubject` with the connections they have not reached, `enqueued` what they enqueued,
`sweep` the rest of the snapshot of the ping loop, `pings` the results so far, and `pingEvictions`
the connections that reached the threshold, with the number of pings until then. -/
structure Hub where
  maxConnections : ℤ
  pingMissMax : ℤ
  state : HubState := .idle
  drained : Bool := false
  entries : List ConnEntry := []
  conns : Table String ℕ := ∅
  subjectIdx : String → Table String ℕ := fun _ ↦ ∅
  closing : List ℕ := []
  closed : List ℕ := []
  fanouts : List (String × List ℕ) := []
  enqueued : List (String × ℕ) := []
  pingMisses : ℕ → ℕ := fun _ ↦ 0
  sweep : List (String × ℕ) := []
  pings : List (ℕ × Bool) := []
  pingEvictions : List (ℕ × ℕ) := []

namespace Hub

def addToSubjectIdxLocked (idx : String → Table String ℕ) (entry : ConnEntry) (e : ℕ) :
    String → Table String ℕ :=
  if entry.subject = "" then idx
  else Function.update idx entry.subject ((idx entry.subject).insert entry.connID e)

def removeFromSubjectIdxLocked (idx : String → Table String ℕ) (entry : ConnEntry) :
    String → Table String ℕ :=
  if entry.subject = "" then idx
  else Function.update idx entry.subject ((idx entry.subject).erase entry.connID)

/-- `removeConnLocked`, after which the caller closes the connection outside of the lock. -/
def removeConnLocked (h : Hub) (e : ℕ) : Hub :=
  match h.entries[e]? with
  | none => h
  | some entry =>
    { h with
      conns := h.conns.erase entry.connID
      subjectIdx := removeFromSubjectIdxLocked h.subjectIdx entry
      closing := h.closing ++ [e] }

def addConnLocked (h : Hub) (entry : ConnEntry) : Hub :=
  { h with
    entries := h.entries ++ [entry]
    conns := h.conns.insert entry.connID h.entries.length
    subjectIdx := addToSubjectIdxLocked h.subjectIdx entry h.entries.length }

def register (h : Hub) (entry : ConnEntry) : Hub :=
  if h.state ≠ .running then h
  else if 0 < h.maxConnections ∧ h.maxConnections ≤ h.conns.entries.length then h
  else
    match h.conns.lookup entry.connID with
    | some old => (h.removeConnLocked old).addConnLocked entry
    | none => h.addConnLocked entry

def unregister (h : Hub) (connID : String) : Hub :=
  match h.conns.lookup connID with
  | some e => h.removeConnLocked e
  | none => h

def evict (h : Hub) (e : ℕ) : Hub :=
  match h.entries[e]? with
  | none => h
  | some entry => if h.conns.lookup entry.connID = some e then h.removeConnLocked e else h

def drain (h : Hub) : Hub :=
  { h with
    conns := ∅
    subjectIdx := fun _ ↦ ∅
    closing := h.closing ++ h.conns.entries.map fun x ↦ x.2
    drained := true }

/-- `handlePingResult`; `e` is the connection that was pinged, which the function is not given. -/
def handlePingResult (h : Hub) (connID : String) (e : ℕ) (ok : Bool) : Hub :=
  let h' := { h with pings := h.pings ++ [(e, ok)] }
  match h.conns.lookup connID with
  | none => h'
  | some current =>
    if ok then { h' with pingMisses := Function.update h.pingMisses current 0 }
    else
      let misses := h.pingMisses current + 1
      { h' with
        pingMisses := Function.update h.pingMisses current misses
        pingEvictions :=
          if h.pingMissMax ≤ misses then h.pingEvictions ++ [(current, h.pings.length + 1)]
          else h.pingEvictions }

end Hub

/-- An atomic step of a goroutine. An eviction can come at any time: from a full send buffer, a
failed write, the end of the read loop, an expired token or missed pings. `skip` passes a connection
with an expired token in a sweep. -/
inductive Action
  | start
  | stopIdle
  | beginShutdown
  | drain
  | finishShutdown
  | register (entry : ConnEntry)
  | unregister (connID : String)
  | evict (e : ℕ)
  | close (e : ℕ)
  | broadcastToSubject (subject : String)
  | fanout (i : ℕ) (queued : Bool)
  | beginSweep (snapshot : List (String × ℕ))
  | skip
  | pingResult (ok : Bool)
  deriving DecidableEq

def Hub.step (h : Hub) : Action → Option Hub
  | .start => if h.state = .idle then some { h with state := .running } else none
  | .stopIdle => if h.state = .idle then some { h with state := .stopped } else none
  | .beginShutdown => if h.state = .running then some { h with state := .stopping } else none
  | .drain => if h.state = .stopping ∧ h.drained = false then some h.drain else none
  | .finishShutdown =>
    if h.state = .stopping ∧ h.drained = true then some { h with state := .stopped } else none
  | .register entry => some (h.register entry)
  | .unregister connID => some (h.unregister connID)
  | .evict e => some (h.evict e)
  | .close e =>
    if e ∈ h.closing then
      some { h with closing := h.closing.erase e, closed := h.closed ++ [e] }
    else none
  | .broadcastToSubject subject =>
    if subject = "" then none
    else
      let selected := (h.subjectIdx subject).entries.map fun x ↦ x.2
      some { h with fanouts := h.fanouts ++ [(subject, selected)] }
  | .fanout i queued =>
    match h.fanouts[i]? with
    | some (subject, e :: selected) =>
      some { h with
        fanouts := h.fanouts.set i (subject, selected)
        enqueued := if queued then h.enqueued ++ [(subject, e)] else h.enqueued }
    | _ => none
  | .beginSweep snapshot =>
    if h.sweep = [] ∧ snapshot.isPerm (h.conns.entries.map fun x ↦ (x.1, x.2)) then
      some { h with sweep := snapshot }
    else none
  | .skip =>
    match h.sweep with
    | [] => none
    | _ :: rest => some { h with sweep := rest }
  | .pingResult ok =>
    match h.sweep with
    | [] => none
    | (connID, e) :: rest => some { h.handlePingResult connID e ok with sweep := rest }

def newHub (maxConnections pingMissMax : ℤ) : Hub where
  maxConnections := maxConnections
  pingMissMax := pingMissMax

end GoCell.Websocket
