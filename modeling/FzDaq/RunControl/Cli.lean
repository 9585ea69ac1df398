import FzDaq.RunControl.Remote

/-!
# `FzController::process_cli`

The command line of the controller sends each command as a request to the controller. Its
`start` stops when the configure in front of it is refused, which the `start` of a node's
console does not.
-/

namespace FzDaq.RunControl

open FzDaq.Writer

/-- What becomes of a request: it is not taken in time, or the answer is not there in time. -/
inductive Fate where
  | lost
  | unanswered
  | answered
  deriving DecidableEq, Repr

/-- What the command line says of an event. -/
inductive Printed where
  | info (text : String)
  | error (text : String)
  deriving DecidableEq, Repr

structure FzCli where
  ctrl : FzController
  hostname : String
  lastcmd : String := ""
  /-- `cli_exit`. -/
  exit : Bool := false
  /-- What the controller has pushed to its nodes. -/
  pushes : List Push := []
  /-- What it has passed on to a node manager. -/
  routed : List Push := []
  printed : List Printed := []
  deriving DecidableEq, Repr

namespace FzCli

/-- `send_unicast` to the controller itself, and `to_rcsres`. The command line does not look at
what a node manager has answered. -/
def sendUnicast (c : FzCli) (req : Request) (fate : Fate) : Option Reply × FzCli :=
  match fate with
  | .lost => (none, c)
  | _ =>
    let r := c.ctrl.handleRequest (fun _ _ => none) (some req)
    (if fate = .answered then some r.1 else none,
      { c with
        ctrl := r.2.1
        pushes := c.pushes ++ r.2.2
        routed := c.routed ++ (FzController.passedOn (some req)).toList })

def say (c : FzCli) (p : Printed) : FzCli := { c with printed := c.printed ++ [p] }

/-- `prepare_rcwrite`, with the host name and the value. -/
def eventRequest (c : FzCli) (value : String) : Request where
  channel := .rc
  operation := .write
  module := .cnt
  hostname := some c.hostname
  varname := "event"
  value := some value

def readRequest (c : FzCli) (varname : String) : Request where
  channel := .rc
  operation := .read
  module := .cnt
  hostname := some c.hostname
  varname := varname

/-- An event, and what is done if it is accepted. -/
def sendEvent (c : FzCli) (value : String) (fate : Fate) (accepted : FzCli → FzCli) : FzCli :=
  match c.sendUnicast (c.eventRequest value) fate with
  | (some (.response res), c) =>
    if res.errorcode = .ok then accepted c else c.say (.error res.reason)
  | (_, c) => c.say (.error ("send of " ++ value ++ " RC command failed"))

/-- What a line does; `none` is no command. `store` and `nostore` go to the node manager of the
host, which the controller passes them on to. -/
def command (c : FzCli) (fate fate' : Fate) (line : String) : Option FzCli :=
  if line = "help" then some c
  else if line = "configure" then
    some (c.sendEvent "configure" fate fun c => c.say (.info "Fazia DAQ configured"))
  else if line = "start" then
    some (c.sendEvent "configure" fate fun c =>
      c.sendEvent "start" fate' fun c => c.say (.info "Fazia DAQ configured and started"))
  else if line = "stop" then
    some (c.sendEvent "stop" fate fun c => c.say (.info "Fazia DAQ stopped"))
  else if line = "reset" then
    some (c.sendEvent "reset" fate fun c => c.say (.info "Fazia DAQ reset"))
  else if line = "status" then
    some ((c.sendUnicast (c.readRequest "status") fate).2.sendUnicast
      (c.readRequest "nodestatus") fate').2
  else if line = "stats" then some (c.sendUnicast (c.readRequest "perfdata") fate).2
  else if line = "store" ∨ line = "nostore" then
    some (c.sendUnicast { c.readRequest line with
      channel := .setup, operation := .write, module := .nm } fate).2
  else if line = "quit" then some { c with exit := true }
  else none

/-- One turn of the command line. -/
def line (c : FzCli) (typed : String) (fate fate' : Fate) : FzCli :=
  if c.exit ∨ typed = "" then c
  else
    let line := if typed = "r" then c.lastcmd else typed
    match c.command fate fate' line with
    | some c => { c with lastcmd := line }
    | none => c

def run (c : FzCli) (lines : List (String × Fate × Fate)) : FzCli :=
  lines.foldl (fun c l => c.line l.1 l.2.1 l.2.2) c

end FzCli

/-! ## One event -/

namespace FzCli

variable {c c' : FzCli} {cmd : RCcommand} {value : String} {fate fate' : Fate}
  {accepted : FzCli → FzCli}

/-- What is said does not count. -/
structure Keeps (c c' : FzCli) : Prop where
  map : c'.ctrl.map = c.ctrl.map
  hostname : c'.hostname = c.hostname
  lastcmd : c'.lastcmd = c.lastcmd
  exit : c'.exit = c.exit

/-- Nothing is pushed to the nodes, and what is passed on to the node manager of the host has
its writer store, or not. -/
structure Stays (c c' : FzCli) : Prop extends Keeps c c' where
  curstate : c'.ctrl.rc.curstate = c.ctrl.rc.curstate
  pushes : c'.pushes = c.pushes
  routed : ∃ passed, c'.routed = c.routed ++ passed ∧
    ∀ p ∈ passed, p.hostname = c.hostname ∧ p.req.channel = .setup

theorem Keeps.trans {d : FzCli} (h : Keeps c c') (h' : Keeps c' d) : Keeps c d :=
  ⟨h'.map.trans h.map, h'.hostname.trans h.hostname, h'.lastcmd.trans h.lastcmd,
    h'.exit.trans h.exit⟩

theorem Stays.trans {d : FzCli} (h : Stays c c') (h' : Stays c' d) : Stays c d := by
  obtain ⟨passed, hpassed, hall⟩ := h.routed
  obtain ⟨more, hmore, hall'⟩ := h'.routed
  refine ⟨h.toKeeps.trans h'.toKeeps, h'.curstate.trans h.curstate, h'.pushes.trans h.pushes,
    passed ++ more, by rw [hmore, hpassed, List.append_assoc], fun p hp => ?_⟩
  rcases List.mem_append.1 hp with hp | hp
  · exact hall p hp
  · rw [← h.hostname]
    exact hall' p hp

theorem stays_of_routed (hkeeps : Keeps c c')
    (hcur : c'.ctrl.rc.curstate = c.ctrl.rc.curstate) (hpushes : c'.pushes = c.pushes)
    (hrouted : c'.routed = c.routed) : Stays c c' :=
  ⟨hkeeps, hcur, hpushes, [], by rw [hrouted, List.append_nil], by simp⟩

theorem stays_self (c : FzCli) : Stays c c :=
  stays_of_routed ⟨rfl, rfl, rfl, rfl⟩ rfl rfl rfl

theorem stays_say (c : FzCli) (p : Printed) : Stays c (c.say p) :=
  stays_of_routed ⟨rfl, rfl, rfl, rfl⟩ rfl rfl rfl

theorem eventRequest_isCommand (c : FzCli)
    (hcmd : FzController.commandOf value = some cmd) :
    (c.eventRequest value).IsCommand cmd :=
  ⟨⟨rfl, rfl, rfl, rfl⟩, hcmd⟩

theorem passedOn_eventRequest (c : FzCli) (value : String) :
    FzController.passedOn (some (c.eventRequest value)) = none := rfl

theorem handleRequest_eventRequest (c : FzCli) (value : String) :
    c.ctrl.handleRequest (fun _ _ => none) (some (c.eventRequest value)) =
      c.ctrl.handleEvent (c.eventRequest value) :=
  handleRequest_event ⟨rfl, rfl, rfl, rfl⟩ _ _

theorem sendUnicast_handled (req : Request) (h : fate ≠ .lost) :
    c.sendUnicast req fate =
      (if fate = .answered then
          some (c.ctrl.handleRequest (fun _ _ => none) (some req)).1 else none,
        { c with
          ctrl := (c.ctrl.handleRequest (fun _ _ => none) (some req)).2.1
          pushes := c.pushes ++ (c.ctrl.handleRequest (fun _ _ => none) (some req)).2.2
          routed := c.routed ++ (FzController.passedOn (some req)).toList }) := by
  cases fate with
  | lost => exact absurd rfl h
  | unanswered => rfl
  | answered => rfl

theorem sendEvent_answered (hmap : c.ctrl.map ≠ [])
    (hcmd : FzController.commandOf value = some cmd) :
    c.sendEvent value .answered accepted =
      match RCFSM.next cmd c.ctrl.rc.curstate with
      | some s => accepted { c with
          ctrl := { c.ctrl with rc := { curstate := s, lasterr := .rcok } }
          pushes := c.pushes ++
            c.ctrl.pushBroadcast (FzController.statusRequest (c.eventRequest value) s) }
      | none => { c with ctrl := { c.ctrl with rc := { c.ctrl.rc with lasterr := .rcerror } } }.say
          (.error "wrong requested RC transition") := by
  have hdoes := handleEvent_command hmap (c.eventRequest_isCommand hcmd)
  unfold sendEvent sendUnicast
  dsimp only
  rw [handleRequest_eventRequest, hdoes, passedOn_eventRequest, Option.toList_none,
    List.append_nil]
  cases hnext : RCFSM.next cmd c.ctrl.rc.curstate with
  | none =>
    dsimp only
    rw [if_pos rfl, List.append_nil]
    rfl
  | some s =>
    dsimp only
    rw [if_pos rfl]
    rfl

/-- An event that the controller has no transition for does nothing, whatever becomes of it. -/
theorem sendEvent_refused (hcmd : FzController.commandOf value = some cmd)
    (hnext : RCFSM.next cmd c.ctrl.rc.curstate = none) :
    Stays c (c.sendEvent value fate accepted) := by
  have hvalue : FzController.commandOf (c.eventRequest value).valueStr = some cmd := hcmd
  have hrefuses := FzController.handleEvent_refused hvalue hnext
  obtain ⟨res, hres, herr⟩ := hrefuses.answer
  have hstays : Stays c { c with
      ctrl := (c.ctrl.handleEvent (c.eventRequest value)).2.1
      pushes := c.pushes ++ (c.ctrl.handleEvent (c.eventRequest value)).2.2 } := by
    refine stays_of_routed ⟨(handleEvent_cases ..).1, rfl, rfl, rfl⟩ hrefuses.state ?_ rfl
    dsimp only
    rw [hrefuses.pushes, List.append_nil]
  by_cases hlost : fate = .lost
  · rw [hlost]
    exact stays_say c _
  unfold sendEvent
  rw [sendUnicast_handled _ hlost, handleRequest_eventRequest, hres, passedOn_eventRequest,
    Option.toList_none, List.append_nil]
  by_cases hanswered : fate = .answered
  · rw [if_pos hanswered]
    dsimp only
    rw [if_neg (by rw [herr]; exact ErrorCode.noConfusion)]
    exact hstays.trans (stays_say _ _)
  · rw [if_neg hanswered]
    exact hstays.trans (stays_say _ _)

theorem sendUnicast_stays {req : Request} (hread : req.module = .cnt → req.operation = .read)
    (hpasses : ∀ p ∈ FzController.passedOn (some req),
      p.hostname = c.hostname ∧ p.req.channel = .setup) :
    Stays c (c.sendUnicast req fate).2 := by
  have hquiet : ∀ c : FzController, (c.handleRequest (fun _ _ => none) (some req)).2 = (c, []) := by
    intro c
    unfold FzController.handleRequest
    dsimp only
    split
    · split_ifs <;> rfl
    · rename_i hmodule hchannel hoperation
      rw [hread hmodule] at hoperation
      cases hoperation
    · split_ifs
      · rfl
      · rfl
    · rfl
  by_cases hlost : fate = .lost
  · rw [hlost]
    exact stays_self c
  · rw [sendUnicast_handled req hlost, hquiet]
    refine ⟨⟨rfl, rfl, rfl, rfl⟩, rfl, List.append_nil _, _, rfl, fun p hp => ?_⟩
    exact hpasses p (by simpa using hp)

/-- A read request is for the controller. -/
theorem sendRead_stays (c d : FzCli) (varname : String) (fate : Fate) :
    Stays d (d.sendUnicast (c.readRequest varname) fate).2 :=
  sendUnicast_stays (fun _ => rfl) (by simp [FzController.passedOn, readRequest])

theorem sendStore_stays (c : FzCli) (varname : String) (fate : Fate) :
    Stays c (c.sendUnicast { c.readRequest varname with
      channel := .setup, operation := .write, module := .nm } fate).2 := by
  refine sendUnicast_stays (fun hmodule => Module.noConfusion hmodule) fun p hp => ?_
  unfold FzController.passedOn at hp
  simp only [Option.bind_eq_bind, Option.bind_some, Option.mem_def] at hp
  split at hp
  · obtain rfl := Option.some.inj hp
    exact ⟨rfl, rfl⟩
  · contradiction

/-! ## READY -/

/-- In READY the controller takes a `reset` only, and `start` begins with a configure. -/
theorem command_ready {line : String} (hready : c.ctrl.rc.curstate = .ready)
    (hline : line ≠ "reset") (h : c.command fate fate' line = some c') :
    c'.ctrl.rc.curstate = .ready ∧ c'.pushes = c.pushes ∧ c'.hostname = c.hostname ∧
      ∃ passed, c'.routed = c.routed ++ passed ∧
        ∀ p ∈ passed, p.hostname = c.hostname ∧ p.req.channel = .setup := by
  have hnext : ∀ cmd, cmd = .configure ∨ cmd = .stop →
      RCFSM.next cmd c.ctrl.rc.curstate = none := by
    rintro cmd (rfl | rfl) <;> rw [hready] <;> rfl
  have hdone : ∀ {d : FzCli}, Stays c d → some d = some c' →
      c'.ctrl.rc.curstate = .ready ∧ c'.pushes = c.pushes ∧ c'.hostname = c.hostname ∧
        ∃ passed, c'.routed = c.routed ++ passed ∧
          ∀ p ∈ passed, p.hostname = c.hostname ∧ p.req.channel = .setup := by
    intro d hstays heq
    obtain rfl := Option.some.inj heq
    exact ⟨hstays.curstate.trans hready, hstays.pushes, hstays.hostname, hstays.routed⟩
  unfold command at h
  split_ifs at h
  · exact hdone (stays_self c) h
  · exact hdone (sendEvent_refused (by decide +kernel) (hnext .configure (.inl rfl))) h
  · exact hdone (sendEvent_refused (by decide +kernel) (hnext .configure (.inl rfl))) h
  · exact hdone (sendEvent_refused (by decide +kernel) (hnext .stop (.inr rfl))) h
  · exact hdone ((sendRead_stays ..).trans (sendRead_stays ..)) h
  · exact hdone (sendRead_stays ..) h
  · exact hdone (sendStore_stays ..) h
  · obtain rfl := Option.some.inj h
    exact ⟨hready, rfl, rfl, [], (List.append_nil _).symm, by simp⟩

theorem line_ready (fate fate' : Fate) {typed : String} (hready : c.ctrl.rc.curstate = .ready)
    (hlast : c.lastcmd ≠ "reset") (htyped : typed ≠ "reset") :
    (c.line typed fate fate').lastcmd ≠ "reset" ∧
      (c.line typed fate fate').ctrl.rc.curstate = .ready ∧
      (c.line typed fate fate').pushes = c.pushes ∧
      (c.line typed fate fate').hostname = c.hostname ∧
      ∃ passed, (c.line typed fate fate').routed = c.routed ++ passed ∧
        ∀ p ∈ passed, p.hostname = c.hostname ∧ p.req.channel = .setup := by
  have hnothing : ∃ passed, c.routed = c.routed ++ passed ∧
      ∀ p ∈ passed, p.hostname = c.hostname ∧ p.req.channel = .setup :=
    ⟨[], (List.append_nil _).symm, by simp⟩
  unfold line
  split
  · exact ⟨hlast, hready, rfl, rfl, hnothing⟩
  have hline : (if typed = "r" then c.lastcmd else typed) ≠ "reset" := by
    split
    · exact hlast
    · exact htyped
  dsimp only
  generalize (if typed = "r" then c.lastcmd else typed) = cmdline at hline ⊢
  cases hcommand : c.command fate fate' cmdline with
  | none => exact ⟨hlast, hready, rfl, rfl, hnothing⟩
  | some d =>
    obtain ⟨hstate, hrest⟩ := command_ready hready hline hcommand
    exact ⟨hline, hstate, hrest⟩

theorem run_routes (hready : c.ctrl.rc.curstate = .ready) (hlast : c.lastcmd ≠ "reset")
    {lines : List (String × Fate × Fate)} (hlines : ∀ l ∈ lines, l.1 ≠ "reset") :
    (c.run lines).ctrl.rc.curstate = .ready ∧ (c.run lines).pushes = c.pushes ∧
      ∃ passed, (c.run lines).routed = c.routed ++ passed ∧
        ∀ p ∈ passed, p.hostname = c.hostname ∧ p.req.channel = .setup := by
  induction lines generalizing c with
  | nil => exact ⟨hready, rfl, [], (List.append_nil _).symm, by simp⟩
  | cons l lines ih =>
    obtain ⟨hhead, htail⟩ := List.forall_mem_cons.1 hlines
    obtain ⟨hlast', hready', hpushes, hhost, passed, hpassed, hall⟩ :=
      line_ready l.2.1 l.2.2 hready hlast hhead
    obtain ⟨hstate, hrest, more, hmore, hall'⟩ := ih hready' hlast' htail
    refine ⟨hstate, hrest.trans hpushes, passed ++ more, ?_, fun p hp => ?_⟩
    · exact hmore.trans (by rw [hpassed, List.append_assoc])
    · rcases List.mem_append.1 hp with hp | hp
      · exact hall p hp
      · rw [← hhost]
        exact hall' p hp

/-- From READY the command line gets nowhere without a `reset`, whatever is typed and whatever
becomes of the requests: nothing is pushed to the nodes, and what the controller passes on to
the node manager of its host changes nothing there but if the writer stores. -/
theorem run_ready (hready : c.ctrl.rc.curstate = .ready) (hlast : c.lastcmd ≠ "reset")
    {lines : List (String × Fate × Fate)} (hlines : ∀ l ∈ lines, l.1 ≠ "reset") :
    (c.run lines).ctrl.rc.curstate = .ready ∧ (c.run lines).pushes = c.pushes ∧
      ∃ passed, (c.run lines).routed = c.routed ++ passed ∧ ∀ p ∈ passed,
        p.hostname = c.hostname ∧
          ∀ (n : FzNodeManager) (disk : Disk), Stores n (n.handleRequest disk (some p.req)).2 := by
  obtain ⟨hstate, hpushes, passed, hpassed, hall⟩ := run_routes hready hlast hlines
  exact ⟨hstate, hpushes, passed, hpassed, fun p hp =>
    ⟨(hall p hp).1, fun n disk => handleRequest_setup n disk (hall p hp).2⟩⟩

/-- A command line whose controller is READY. -/
def readyCli : FzCli :=
  { ctrl := { FzController.oneNode with rc := { curstate := .ready } }
    hostname := "fazia-ctrl"
    lastcmd := "configure" }

/-- `run_ready` for the `start` that follows the `configure`, one that is repeated, and a
`nostore`. -/
theorem readyCli_ready :
    (readyCli.run [("start", .answered, .answered), ("r", .unanswered, .lost),
        ("nostore", .answered, .answered)]).ctrl.rc.curstate = .ready ∧
      (readyCli.run [("start", .answered, .answered), ("r", .unanswered, .lost),
        ("nostore", .answered, .answered)]).pushes = [] := by
  obtain ⟨hready, hpushes, -⟩ := @run_ready readyCli rfl (by decide)
    [("start", .answered, .answered), ("r", .unanswered, .lost), ("nostore", .answered, .answered)]
    (by decide +kernel)
  exact ⟨hready, hpushes⟩

end FzCli

end FzDaq.RunControl
