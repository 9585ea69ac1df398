import FzDaq.RunControl.Message
import FzDaq.Writer.FzWriter

/-!
# `FzNodeManager::handle_request`

The requests to a node manager, which puts the threads of its node into a state.
-/

namespace FzDaq.RunControl

open FzDaq.Writer

inductive RCmode where
  | rcModeLocal
  | rcModeRemote
  deriving DecidableEq, Repr

def RCmode.label : RCmode → String
  | .rcModeLocal => "local"
  | .rcModeRemote => "remote"

/-- What a reader is told: its `rcstate`, and to record what it gets. -/
structure ReaderThread where
  rcstate : RCstate := .idle
  /-- `cb_data.rec`. -/
  recording : Bool := false
  deriving DecidableEq, Repr

/-- The profile of a node, with the threads that it has: of the parsers the member `rcstate`. -/
inductive Profile where
  | compute (rd : ReaderThread) (psrArray : List RCstate)
  | storage (wr : FzWriter)
  | all (rd : ReaderThread) (psrArray : List RCstate) (wr : FzWriter)
  deriving DecidableEq, Repr

structure FzNodeManager where
  rcmode : RCmode
  /-- Used in remote run-control mode. -/
  state : RCstate := .idle
  /-- Used in local run-control mode. -/
  rc : RCFSM := {}
  profile : Profile
  nodereport : Node
  deriving DecidableEq, Repr

/-- `rc_state_do`. -/
def Profile.rcStateDo (s : RCstate) (disk : Disk) : Profile → Profile
  | .compute rd psrArray => .compute { rd with rcstate := s } (psrArray.map fun _ => s)
  | .storage wr => .storage (wr.setRcstate s disk)
  | .all rd psrArray wr =>
    .all { rd with rcstate := s } (psrArray.map fun _ => s) (wr.setRcstate s disk)

def Profile.setStore (value : Bool) : Profile → Option Profile
  | .compute _ _ => none
  | .storage wr => some (.storage (wr.setStore value))
  | .all rd psrArray wr => some (.all rd psrArray (wr.setStore value))

/-- `rd->record`. A node without a reader has no `rd`. -/
def Profile.record (value : Bool) : Profile → Option Profile
  | .compute rd psrArray => some (.compute { rd with recording := value } psrArray)
  | .storage _ => none
  | .all rd psrArray wr => some (.all { rd with recording := value } psrArray wr)

/-- The state that a status names. -/
def stateOf (value : String) : Option RCstate :=
  if value = "idle" then some .idle
  else if value = "ready" then some .ready
  else if value = "running" then some .running
  else if value = "paused" then some .paused
  else none

def okResponse : Response := { errorcode := .ok, reason := "OK" }

namespace FzNodeManager

def rcState (n : FzNodeManager) : RCstate :=
  match n.rcmode with
  | .rcModeRemote => n.state
  | .rcModeLocal => n.rc.curstate

def handleRequest (n : FzNodeManager) (disk : Disk) (request : Option Request) :
    Reply × FzNodeManager :=
  match request with
  | none => (.response { formatError with reason := "request deserialization error" }, n)
  | some req =>
    if req.module ≠ .nm then
      (.response { formatError with reason := "module destination error" }, n)
    else
      match req.channel, req.operation with
      | .rc, .read =>
        if req.varname = "status" then
          (.response { okResponse with value := some (stateLabels n.rcState) }, n)
        else if req.varname = "mode" then
          (.response { okResponse with value := some n.rcmode.label }, n)
        else if req.varname = "perfdata" then (.nodereport n.nodereport, n)
        else (.response { formatError with reason := "variable not found" }, n)
      | .rc, .write =>
        match n.rcmode with
        | .rcModeRemote =>
          if req.varname = "status" then
            match stateOf req.valueStr with
            | some s =>
              (.response okResponse, { n with state := s, profile := n.profile.rcStateDo s disk })
            | none => (.response { formatError with reason := "status value not correct" }, n)
          else (.response { formatError with reason := "variable not found" }, n)
        | .rcModeLocal =>
          (.response { errorcode := .deny, reason := "FzDAQ Run Control set to local mode" }, n)
      | .setup, .read => (.response formatError, n)
      | .setup, .write =>
        let value := if req.varname = "store" then some true
          else if req.varname = "nostore" then some false
          else none
        match value.bind n.profile.setStore with
        | some profile => (.response okResponse, { n with profile := profile })
        | none => (.response formatError, n)

end FzNodeManager

end FzDaq.RunControl
