import FzDaq.RunControl.Broadcast

/-!
# The console of a node

A node is driven by its console in local mode, and by requests in remote mode. The console
takes the commands of the controller and passes them through a state machine of its own.
-/

namespace FzDaq.RunControl

open FzDaq.Machine FzDaq.Writer

namespace FzNodeManager

/-- `rc_event_do`. -/
def rcEventDo (n : FzNodeManager) (disk : Disk) : FzNodeManager :=
  match n.rcmode with
  | .rcModeLocal => { n with profile := n.profile.rcStateDo n.rc.curstate disk }
  | .rcModeRemote => n

def rcProcess (n : FzNodeManager) (cmd : RCcommand) (disk : Disk) :
    RCtransition × FzNodeManager :=
  let prevState := n.rc.curstate
  let transErr := (n.rc.process cmd).1
  let n := { n with rc := (n.rc.process cmd).2 }
  let n := if cmd = .reset ∨ transErr = .rcok ∧ n.rc.curstate ≠ prevState then n.rcEventDo disk
    else n
  (n.rc.lasterr, n)

/-- The threads follow the state that the node shows. -/
def Controlled (n : FzNodeManager) : Prop := n.profile.AllIn n.rcState

end FzNodeManager

def Profile.isstorage : Profile → Bool
  | .compute _ _ => false
  | _ => true

/-- The command line of `main`. -/
structure Console where
  nm : FzNodeManager
  lastcmd : String := ""
  /-- `rec`. -/
  recording : Bool := false
  closed : Bool := false
  deriving DecidableEq, Repr

namespace Console

/-- Behind the loop of the command line. -/
def close (c : Console) (disk : Disk) : Console :=
  { c with closed := true, nm := (c.nm.rcProcess .stop disk).2 }

/-- What a command does in local mode; `none` is no command. -/
def localCommand (nm : FzNodeManager) (disk : Disk) (line : String) : Option FzNodeManager :=
  if line = "configure" then some (nm.rcProcess .configure disk).2
  else if line = "start" then
    some ((nm.rcProcess .configure disk).2.rcProcess .start disk).2
  else if line = "stop" then some (nm.rcProcess .stop disk).2
  else if line = "reset" then some (nm.rcProcess .reset disk).2
  else if line = "store" then
    (nm.profile.setStore true).map fun profile => { nm with profile := profile }
  else if line = "nostore" then
    (nm.profile.setStore false).map fun profile => { nm with profile := profile }
  else none

/-- What a line does, and `cmderr` behind it. The mode does not matter for `rec`. -/
def command (c : Console) (disk : Disk) (line : String) : Option (Bool × Console) :=
  if line = "help" ∨ line = "status" ∨ line = "stats" then some (false, c)
  else if line = "rec" then
    (c.nm.profile.record !c.recording).map fun profile =>
      (false, { c with recording := !c.recording, nm := { c.nm with profile := profile } })
  else if line = "quit" then some (false, c.close disk)
  else
    match c.nm.rcmode with
    | .rcModeRemote => some (true, c)
    | .rcModeLocal =>
      match localCommand c.nm disk line with
      | some nm => some (false, { c with nm := nm })
      | none => some (true, c)

/-- One turn of the command line; `none` is the end of the input. -/
def getline (c : Console) (disk : Disk) : Option String → Option Console
  | none => some (c.close disk)
  | some typed =>
    if typed = "" then some c
    else
      let line := if typed = "r" then c.lastcmd else typed
      (c.command disk line).map fun r =>
        if r.1 = true ∧ typed ≠ "r" then r.2 else { r.2 with lastcmd := line }

end Console

/-- What comes to a node, with the disk that it finds. -/
inductive Input where
  | line (disk : Disk) (typed : Option String)
  | request (disk : Disk) (req : Option Request)
  deriving DecidableEq, Repr

def Input.isLine : Input → Bool
  | .line _ _ => true
  | .request _ _ => false

/-- A line that ends the console. -/
def Input.Ends : Input → Prop
  | .line _ typed => typed = none ∨ typed = some "quit"
  | .request _ _ => False

namespace Console

/-- A closed node takes nothing any more. -/
def step (c : Console) (i : Input) : Option Console :=
  if c.closed then some c
  else
    match i with
    | .line disk typed => c.getline disk typed
    | .request disk req => some { c with nm := (c.nm.handleRequest disk req).2 }

def run (c : Console) : List Input → Option Console
  | [] => some c
  | i :: is => (c.step i).bind fun c' => c'.run is

end Console

/-! ## One command -/

variable {n : FzNodeManager} {cmd : RCcommand} {disk : Disk}

/-- In local mode the threads are put into the state behind each command that is accepted, a
`reset` of an idle node included. -/
theorem rcProcess_local (hmode : n.rcmode = .rcModeLocal) :
    (n.rcProcess cmd disk).2 =
      match RCFSM.next cmd n.rc.curstate with
      | some s => { n with rc := { curstate := s, lasterr := .rcok },
                           profile := n.profile.rcStateDo s disk }
      | none => { n with rc := { n.rc with lasterr := .rcerror } } := by
  obtain ⟨mode, state, ⟨s, e⟩, profile, report⟩ := n
  obtain rfl : mode = .rcModeLocal := hmode
  cases cmd <;> cases s <;> rfl

theorem rcProcess_remote (hmode : n.rcmode = .rcModeRemote) :
    (n.rcProcess cmd disk).2 = { n with rc := (n.rc.process cmd).2 } := by
  obtain ⟨mode, state, rc, profile, report⟩ := n
  obtain rfl : mode = .rcModeRemote := hmode
  unfold FzNodeManager.rcProcess FzNodeManager.rcEventDo
  dsimp only
  split <;> rfl

theorem rcProcess_rcmode : (n.rcProcess cmd disk).2.rcmode = n.rcmode := by
  cases hmode : n.rcmode with
  | rcModeRemote =>
    rw [rcProcess_remote hmode]
    exact hmode
  | rcModeLocal =>
    rw [rcProcess_local hmode]
    split <;> exact hmode

theorem rcProcess_curstate (hmode : n.rcmode = .rcModeLocal) (cmd : RCcommand) (disk : Disk) :
    (n.rcProcess cmd disk).2.rc.curstate = (RCFSM.next cmd n.rc.curstate).getD n.rc.curstate := by
  rw [rcProcess_local hmode]
  cases RCFSM.next cmd n.rc.curstate <;> rfl

theorem FzNodeManager.Controlled.rcProcess (h : n.Controlled) :
    (n.rcProcess cmd disk).2.Controlled := by
  unfold Controlled at h ⊢
  cases hmode : n.rcmode with
  | rcModeRemote =>
    rw [rcProcess_remote hmode]
    simpa only [rcState, hmode] using h
  | rcModeLocal =>
    simp only [rcState, hmode] at h
    rw [rcProcess_local hmode]
    split <;> simp only [rcState, hmode]
    · exact Profile.rcStateDo_allIn ..
    · exact h

/-- The node, but for what its writer has been told to store. -/
def Stores (n m : FzNodeManager) : Prop :=
  m = n ∨ ∃ value profile, n.profile.setStore value = some profile ∧
    m = { n with profile := profile }

theorem handleRequest_setup (n : FzNodeManager) (disk : Disk) {req : Request}
    (hchannel : req.channel = .setup) : Stores n (n.handleRequest disk (some req)).2 := by
  unfold FzNodeManager.handleRequest
  dsimp only
  rw [hchannel]
  split
  · exact .inl rfl
  · split
    · contradiction
    · contradiction
    · exact .inl rfl
    · split
      · rename_i profile hprofile
        obtain ⟨value, -, hset⟩ := Option.bind_eq_some_iff.1 hprofile
        exact .inr ⟨value, profile, hset, rfl⟩
      · exact .inl rfl

/-- In local mode no request does anything else. -/
theorem handleRequest_local (disk : Disk) (hmode : n.rcmode = .rcModeLocal)
    (req : Option Request) : Stores n (n.handleRequest disk req).2 := by
  cases req with
  | none => exact .inl rfl
  | some req =>
    cases hchannel : req.channel with
    | setup => exact handleRequest_setup n disk hchannel
    | rc =>
      unfold FzNodeManager.handleRequest
      dsimp only
      rw [hchannel, hmode]
      split
      · exact .inl rfl
      · split
        · split_ifs <;> exact .inl rfl
        · exact .inl rfl
        · contradiction
        · contradiction

end FzDaq.RunControl
