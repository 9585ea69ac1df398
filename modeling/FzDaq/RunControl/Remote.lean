import FzDaq.RunControl.Console

/-!
# Remote mode follows local mode

A command goes through the state machine of the node itself in local mode, and through that
of the controller in remote mode, which sends the state behind it to its nodes. As long as its
messages come in order, a remote node does what a local node does that is given the commands.
-/

namespace FzDaq.RunControl

open FzDaq.Machine FzDaq.Writer

/-- The states behind the commands that are accepted. -/
def accepted (s : RCstate) : List RCcommand → List RCstate
  | [] => []
  | cmd :: cmds =>
    match RCFSM.next cmd s with
    | some s' => s' :: accepted s' cmds
    | none => accepted s cmds

/-- The state behind all commands. -/
def stateAfter (s : RCstate) (cmds : List RCcommand) : RCstate :=
  cmds.foldl (fun s cmd => (RCFSM.next cmd s).getD s) s

/-- The node is given the commands, each with the disk that it finds. -/
def FzNodeManager.rcCommands (n : FzNodeManager) (xs : List (RCcommand × Disk)) :
    FzNodeManager :=
  xs.foldl (fun n x => (n.rcProcess x.1 x.2).2) n

/-- The node as it would be in local mode. -/
def FzNodeManager.atConsole (n : FzNodeManager) : FzNodeManager :=
  { n with rcmode := .rcModeLocal, rc := {} }

/-- The commands of the events. -/
def commandsOf (acts : List Action) : List RCcommand :=
  acts.filterMap fun
    | .event req => FzController.commandOf req.valueStr
    | .deliver _ _ _ => none

variable {s s' : RCstate} {cmd : RCcommand} {cmds more : List RCcommand} {n l : FzNodeManager}
  {disk : Disk}

theorem accepted_append :
    accepted s (cmds ++ more) = accepted s cmds ++ accepted (stateAfter s cmds) more := by
  induction cmds generalizing s with
  | nil => rfl
  | cons cmd cmds ih =>
    rw [List.cons_append, accepted, accepted, stateAfter, List.foldl_cons]
    cases hnext : RCFSM.next cmd s with
    | none => exact ih
    | some s' => exact congrArg (s' :: ·) ih

theorem stateAfter_append :
    stateAfter s (cmds ++ more) = stateAfter (stateAfter s cmds) more :=
  List.foldl_append ..

theorem accepted_eq_cons {rest : List RCstate} (h : accepted s cmds = s' :: rest) :
    ∃ before cmd behind, cmds = before ++ cmd :: behind ∧ accepted s before = [] ∧
      RCFSM.next cmd s = some s' ∧ accepted s' behind = rest := by
  induction cmds with
  | nil => cases h
  | cons cmd cmds ih =>
    rw [accepted] at h
    cases hnext : RCFSM.next cmd s with
    | none =>
      rw [hnext] at h
      obtain ⟨before, cmd', behind, rfl, hnone, hfound⟩ := ih h
      refine ⟨cmd :: before, cmd', behind, rfl, ?_, hfound⟩
      rw [accepted, hnext]
      exact hnone
    | some s₁ =>
      rw [hnext] at h
      obtain ⟨rfl, rfl⟩ := List.cons.inj h
      exact ⟨[], cmd, cmds, rfl, rfl, hnext, rfl⟩

theorem rcCommands_append (n : FzNodeManager) (xs ys : List (RCcommand × Disk)) :
    n.rcCommands (xs ++ ys) = (n.rcCommands xs).rcCommands ys :=
  List.foldl_append ..

theorem rcCommands_rcmode (hmode : n.rcmode = .rcModeLocal) (xs : List (RCcommand × Disk)) :
    (n.rcCommands xs).rcmode = .rcModeLocal := by
  induction xs generalizing n with
  | nil => exact hmode
  | cons x xs ih => exact ih (rcProcess_rcmode.trans hmode)

theorem rcCommands_curstate (hmode : n.rcmode = .rcModeLocal) (xs : List (RCcommand × Disk)) :
    (n.rcCommands xs).rc.curstate = stateAfter n.rc.curstate (xs.map Prod.fst) := by
  induction xs generalizing n with
  | nil => rfl
  | cons x xs ih =>
    have hstep : (n.rcProcess x.1 x.2).2.rc.curstate =
        (RCFSM.next x.1 n.rc.curstate).getD n.rc.curstate := by
      rw [rcProcess_local hmode]
      cases RCFSM.next x.1 n.rc.curstate <;> rfl
    rw [List.map_cons, stateAfter, List.foldl_cons, ← hstep]
    exact ih (rcProcess_rcmode.trans hmode)

/-- Commands that are refused do nothing to the threads, whatever the disk. -/
theorem rcCommands_refused (hmode : n.rcmode = .rcModeLocal)
    (h : accepted n.rc.curstate cmds = []) (disk : Disk) :
    (n.rcCommands (cmds.map fun cmd => (cmd, disk))).profile = n.profile ∧
      (n.rcCommands (cmds.map fun cmd => (cmd, disk))).rc.curstate = n.rc.curstate := by
  induction cmds generalizing n with
  | nil => exact ⟨rfl, rfl⟩
  | cons cmd cmds ih =>
    rw [accepted] at h
    cases hnext : RCFSM.next cmd n.rc.curstate with
    | some s' =>
      rw [hnext] at h
      cases h
    | none =>
      rw [hnext] at h
      have hstep :
          (n.rcProcess cmd disk).2 = { n with rc := { n.rc with lasterr := .rcerror } } := by
        rw [rcProcess_local hmode, hnext]
      have hrest := ih (n := (n.rcProcess cmd disk).2) (rcProcess_rcmode.trans hmode)
        (by rw [hstep]; exact h)
      rw [hstep] at hrest
      rw [List.map_cons, FzNodeManager.rcCommands, List.foldl_cons, hstep]
      exact hrest

/-! ## A node behind its messages -/

/-- The node is where a local node is behind the commands `dones`; the states behind the
commands `todo` are on the way to it. -/
structure Follows (l : FzNodeManager) (dones : List (RCcommand × Disk)) (todo : List RCcommand)
    (b : Mailbox Request FzNodeManager) : Prop where
  remote : b.receiver.rcmode = .rcModeRemote
  profile : b.receiver.profile = (l.rcCommands dones).profile
  state : b.receiver.state = (l.rcCommands dones).rc.curstate
  flight : List.Forall₂ (fun p s => p.2.Puts s) b.flight
    (accepted (l.rcCommands dones).rc.curstate todo)

theorem handleRequest_status (disk : Disk) {req : Request} (hmode : n.rcmode = .rcModeRemote)
    (hreq : req.Puts s) :
    (n.handleRequest disk (some req)).2 =
      { n with state := s, profile := n.profile.rcStateDo s disk } := by
  simp [FzNodeManager.handleRequest, hreq.module, hreq.channel, hreq.operation, hreq.varname,
    hreq.value, hmode]

variable {dones : List (RCcommand × Disk)} {todo : List RCcommand}
  {b : Mailbox Request FzNodeManager}

theorem Follows.refused (h : Follows l dones todo b)
    (hnext : RCFSM.next cmd (stateAfter (l.rcCommands dones).rc.curstate todo) = none) :
    Follows l dones (todo ++ [cmd]) b := by
  refine ⟨h.remote, h.profile, h.state, ?_⟩
  rw [accepted_append, accepted, hnext, accepted, List.append_nil]
  exact h.flight

theorem Follows.send (h : Follows l dones todo b) {req : Request}
    (hnext : RCFSM.next cmd (stateAfter (l.rcCommands dones).rc.curstate todo) = some s)
    (hreq : req.Puts s) : Follows l dones (todo ++ [cmd]) (b.send req) := by
  refine ⟨h.remote, h.profile, h.state, ?_⟩
  rw [accepted_append, accepted, hnext, accepted]
  exact List.rel_append h.flight (.cons hreq .nil)

theorem Follows.deliver (hlocal : l.rcmode = .rcModeLocal) (h : Follows l dones todo b)
    (disk : Disk) :
    ∃ dones' todo', dones'.map Prod.fst ++ todo' = dones.map Prod.fst ++ todo ∧
      Follows l dones' todo' (b.deliver (fun n req => (n.handleRequest disk (some req)).2) 0) := by
  have hflight := h.flight
  unfold Mailbox.deliver
  rcases hb : b.flight with _ | ⟨⟨k, req⟩, rest⟩
  · exact ⟨dones, todo, rfl, h⟩
  rw [hb] at hflight
  obtain ⟨s, ss, hputs, hrest, hacc⟩ := List.forall₂_cons_left_iff.1 hflight
  obtain ⟨before, cmd, behind, rfl, hnone, hnext, hbehind⟩ := accepted_eq_cons hacc
  have hmode := rcCommands_rcmode hlocal dones
  obtain ⟨hprofile, hcur⟩ := rcCommands_refused hmode hnone disk
  have hbefore := rcCommands_rcmode hmode (before.map fun cmd => (cmd, disk))
  have hlast : l.rcCommands (dones ++ before.map (fun cmd => (cmd, disk)) ++ [(cmd, disk)]) =
      { (l.rcCommands dones).rcCommands (before.map fun cmd => (cmd, disk)) with
        rc := { curstate := s, lasterr := .rcok }
        profile := (l.rcCommands dones).profile.rcStateDo s disk } := by
    rw [rcCommands_append, rcCommands_append]
    change (FzNodeManager.rcProcess _ cmd disk).2 = _
    rw [rcProcess_local hbefore, hcur, hnext, hprofile]
  refine ⟨dones ++ before.map (fun cmd => (cmd, disk)) ++ [(cmd, disk)], behind, ?_, ?_⟩
  · simp [Function.comp_def]
  · have hreceiver := handleRequest_status disk h.remote hputs
    refine ⟨?_, ?_, ?_, ?_⟩
    · exact (congrArg FzNodeManager.rcmode hreceiver).trans h.remote
    · rw [hlast]
      refine (congrArg FzNodeManager.profile hreceiver).trans ?_
      rw [h.profile]
    · rw [hlast]
      exact congrArg FzNodeManager.state hreceiver
    · rw [hlast, hbehind]
      exact hrest

/-! ## The controller and one of its nodes -/

/-- An event that is one of the four commands. -/
structure Request.IsCommand (req : Request) (cmd : RCcommand) : Prop where
  event : req.IsEvent
  command : FzController.commandOf req.valueStr = some cmd

theorem handleEvent_command {c : FzController} {req : Request} (hmap : c.map ≠ [])
    (hreq : req.IsCommand cmd) :
    c.handleEvent req =
      match RCFSM.next cmd c.rc.curstate with
      | some s => (.response { errorcode := .ok, reason := "RC transition ok" },
          { c with rc := { curstate := s, lasterr := .rcok } },
          c.pushBroadcast (FzController.statusRequest req s))
      | none => (.response { formatError with reason := "wrong requested RC transition" },
          { c with rc := { c.rc with lasterr := .rcerror } }, []) := by
  have hlen : ¬c.map.length = 0 := fun hzero => hmap (List.length_eq_zero_iff.1 hzero)
  cases hnext : RCFSM.next cmd c.rc.curstate with
  | none =>
    simp only [FzController.handleEvent, hlen, hreq.command, RCFSM.process_of_next_none hnext,
      if_false, if_true]
  | some s =>
    simp only [FzController.handleEvent, hlen, hreq.command, RCFSM.process_of_next hnext,
      if_false, reduceCtorEq]
    rfl

namespace System

variable {box : String → Mailbox Request FzNodeManager} {host : String} {σ : System}
  {nodes : List (String × Node)} {acts : List Action} {node : String → FzNodeManager}

theorem foldl_pushUnicast (ps : List Push) :
    ps.foldl pushUnicast box host =
      (ps.filter fun p => p.hostname = host).foldl (fun b p => b.send p.req) (box host) := by
  induction ps generalizing box with
  | nil => rfl
  | cons p ps ih =>
    rw [List.foldl_cons, ih, pushUnicast_eq]
    by_cases heq : host = p.hostname
    · rw [if_pos heq, List.filter_cons_of_pos (by simpa using heq.symm)]
      rfl
    · rw [if_neg heq, List.filter_cons_of_neg (by simpa using Ne.symm heq)]

theorem broadcast_host {c : FzController} {req : Request} (hnodup : (hosts c.map).Nodup)
    (hhost : host ∈ hosts c.map) :
    (c.pushBroadcast req).foldl pushUnicast box host = (box host).send req := by
  have hpushes : c.pushBroadcast req =
      (hosts c.map).map fun name => { hostname := name, req := req } := by
    rw [hosts, List.map_map]
    rfl
  have hone : ((hosts c.map).filter fun name => name = host) = [host] := by
    rw [List.filter_eq, List.count_eq_one_of_mem hnodup hhost]
    rfl
  rw [foldl_pushUnicast, hpushes, List.filter_map]
  have hfilter : (fun p : Push => decide (p.hostname = host)) ∘
      (fun name => { hostname := name, req := req }) = fun name => decide (name = host) := rfl
  rw [hfilter, hone]
  rfl

/-- The controller is behind all commands, and the node somewhere on the way. -/
structure Tracks (nodes : List (String × Node)) (host : String) (l : FzNodeManager)
    (cmds : List RCcommand) (σ : System) : Prop where
  map : σ.controller.map = nodes
  curstate : σ.controller.rc.curstate = stateAfter l.rc.curstate cmds
  follows : ∃ dones todo, dones.map Prod.fst ++ todo = cmds ∧ Follows l dones todo (σ.box host)

variable {l : FzNodeManager} {cmds : List RCcommand} {cmd : RCcommand}

theorem Tracks.event (hlocal : l.rcmode = .rcModeLocal) (hnodup : (hosts nodes).Nodup)
    (hhost : host ∈ hosts nodes) (h : σ.Tracks nodes host l cmds) {req : Request}
    (hreq : req.IsCommand cmd) : (σ.step (.event req)).Tracks nodes host l (cmds ++ [cmd]) := by
  have hne : σ.controller.map ≠ [] := by
    rw [h.map]
    rintro rfl
    cases hhost
  obtain ⟨dones, todo, hcmds, hfollows⟩ := h.follows
  have hsplit : stateAfter (l.rcCommands dones).rc.curstate todo =
      σ.controller.rc.curstate := by
    rw [h.curstate, ← hcmds, stateAfter_append, rcCommands_curstate hlocal]
  have hdoes := handleEvent_command hne hreq
  have hafter : stateAfter l.rc.curstate (cmds ++ [cmd]) =
      (RCFSM.next cmd σ.controller.rc.curstate).getD σ.controller.rc.curstate := by
    rw [stateAfter_append, ← h.curstate]
    rfl
  have hlist : dones.map Prod.fst ++ (todo ++ [cmd]) = cmds ++ [cmd] := by
    rw [← List.append_assoc, hcmds]
  unfold step
  dsimp only
  rw [handleRequest_event hreq.event]
  cases hnext : RCFSM.next cmd σ.controller.rc.curstate with
  | none =>
    rw [hnext] at hdoes hafter
    rw [hdoes]
    exact ⟨h.map, hafter.symm, dones, todo ++ [cmd], hlist,
      hfollows.refused (by rw [hsplit, hnext])⟩
  | some s =>
    rw [hnext] at hdoes hafter
    rw [hdoes]
    refine ⟨h.map, hafter.symm, dones, todo ++ [cmd], hlist, ?_⟩
    dsimp only
    rw [broadcast_host (by rw [h.map]; exact hnodup) (by rw [h.map]; exact hhost)]
    exact hfollows.send (by rw [hsplit, hnext]) (statusRequest_puts hreq.event s)

theorem Tracks.deliver (hlocal : l.rcmode = .rcModeLocal) (h : σ.Tracks nodes host l cmds)
    (name : String) (disk : Disk) :
    (σ.step (.deliver name 0 disk)).Tracks nodes host l cmds := by
  obtain ⟨dones, todo, hcmds, hfollows⟩ := h.follows
  refine ⟨h.map, h.curstate, ?_⟩
  unfold step
  dsimp only
  rw [Function.update_apply]
  split
  · rename_i heq
    rw [← heq]
    obtain ⟨dones', todo', hsame, hnext⟩ := hfollows.deliver hlocal disk
    exact ⟨dones', todo', hsame.trans hcmds, hnext⟩
  · exact ⟨dones, todo, hcmds, hfollows⟩

theorem Tracks.run (hlocal : l.rcmode = .rcModeLocal) (hnodup : (hosts nodes).Nodup)
    (hhost : host ∈ hosts nodes) (h : σ.Tracks nodes host l cmds)
    (hacts : ∀ req, .event req ∈ acts → ∃ cmd, req.IsCommand cmd) (hin : InOrder acts) :
    (σ.run acts).Tracks nodes host l (cmds ++ commandsOf acts) := by
  induction acts generalizing σ cmds with
  | nil =>
    rw [commandsOf, List.filterMap_nil, List.append_nil]
    exact h
  | cons a acts ih =>
    have hrest : ∀ req, .event req ∈ acts → ∃ cmd, req.IsCommand cmd :=
      fun req hmem => hacts req (List.mem_cons_of_mem a hmem)
    have htail : InOrder acts := fun name i disk hmem =>
      hin name i disk (List.mem_cons_of_mem a hmem)
    cases a with
    | event req =>
      obtain ⟨cmd, hreq⟩ := hacts req List.mem_cons_self
      have hlist : commandsOf (.event req :: acts) = cmd :: commandsOf acts :=
        List.filterMap_cons_some hreq.command
      rw [hlist, List.append_cons]
      exact ih (h.event hlocal hnodup hhost hreq) hrest htail
    | deliver name i disk =>
      obtain rfl : i = 0 := hin name i disk List.mem_cons_self
      exact ih (h.deliver hlocal name disk) hrest htail

/-- At any time the threads of a remote node are as those of a local node that has been given
the first of the commands; it has been given all of them once nothing is in flight. -/
theorem run_follows (nodes : List (String × Node)) (hnodup : (hosts nodes).Nodup)
    (node : String → FzNodeManager)
    (hnode : ∀ host, (node host).rcmode = .rcModeRemote ∧ (node host).state = .idle)
    (acts : List Action) (hacts : ∀ req, .event req ∈ acts → ∃ cmd, req.IsCommand cmd)
    (hin : InOrder acts) (host : String) (hhost : host ∈ hosts nodes) :
    ∃ dones : List (RCcommand × Disk), dones.map Prod.fst <+: commandsOf acts ∧
      ((((start nodes node).run acts).box host).flight = [] →
        dones.map Prod.fst = commandsOf acts) ∧
      (((start nodes node).run acts).box host).receiver.profile =
        ((node host).atConsole.rcCommands dones).profile ∧
      (((start nodes node).run acts).box host).receiver.state =
        ((node host).atConsole.rcCommands dones).rcState := by
  have hstart : (start nodes node).Tracks nodes host (node host).atConsole [] :=
    ⟨rfl, rfl, [], [], rfl, (hnode host).1, rfl, (hnode host).2, .nil⟩
  have hlocal : (node host).atConsole.rcmode = .rcModeLocal := rfl
  obtain ⟨-, -, dones, todo, hcmds, hfollows⟩ := hstart.run hlocal hnodup hhost hacts hin
  rw [List.nil_append] at hcmds
  have hmode := rcCommands_rcmode hlocal dones
  have hshown : ((node host).atConsole.rcCommands dones).rcState =
      ((node host).atConsole.rcCommands dones).rc.curstate := by
    rw [FzNodeManager.rcState, hmode]
  by_cases hquiet : (((start nodes node).run acts).box host).flight = []
  · have hflight := hfollows.flight
    rw [hquiet] at hflight
    -- The commands behind the last message are all refused, so the local node is given them too.
    have hnone := List.forall₂_nil_left_iff.1 hflight
    let disk : Disk := {}
    obtain ⟨hprofile, hcur⟩ := rcCommands_refused hmode hnone disk
    have hall := rcCommands_rcmode hmode (todo.map fun cmd => (cmd, disk))
    refine ⟨dones ++ todo.map (fun cmd => (cmd, disk)), ?_, fun _ => ?_, ?_, ?_⟩
    · rw [← hcmds]
      simp [Function.comp_def]
    · rw [← hcmds]
      simp [Function.comp_def]
    · rw [rcCommands_append, hprofile, hfollows.profile]
    · rw [rcCommands_append, FzNodeManager.rcState, hall]
      exact hfollows.state.trans hcur.symm
  · exact ⟨dones, ⟨todo, hcmds⟩, fun h => absurd h hquiet, hfollows.profile,
      hfollows.state.trans hshown.symm⟩

/-- `run_follows` for a node that the message of a start has not reached yet. -/
theorem startInFlight_follows :
    let acts := [sampleEvent "configure", sampleEvent "start", .deliver "fazia0" 0 {}]
    ∃ dones : List (RCcommand × Disk), dones.map Prod.fst <+: commandsOf acts ∧
      (((start sampleNodes fun _ => sampleNode).run acts).box "fazia0").receiver.profile =
        (sampleNode.atConsole.rcCommands dones).profile := by
  intro acts
  have hevent : ∀ value cmd, FzController.commandOf value = some cmd →
      ∀ req, .event req = sampleEvent value → ∃ cmd, req.IsCommand cmd := by
    intro value cmd hcmd req hreq
    have hevent := sampleEvent_isEvent hreq
    cases hreq
    exact ⟨cmd, hevent, hcmd⟩
  have hacts : ∀ req, .event req ∈ acts → ∃ cmd, req.IsCommand cmd := by
    intro req hreq
    rcases List.mem_cons.1 hreq with h | hreq
    · exact hevent "configure" .configure (by decide +kernel) req h
    rcases List.mem_cons.1 hreq with h | hreq
    · exact hevent "start" .start (by decide +kernel) req h
    · cases List.mem_singleton.1 hreq
  have hin : InOrder acts := by
    intro host i disk hmem
    simp only [acts, sampleEvent, List.mem_cons, List.not_mem_nil, or_false, reduceCtorEq,
      false_or, Action.deliver.injEq] at hmem
    exact hmem.2.1
  obtain ⟨dones, hdones, -, hprofile, -⟩ := run_follows sampleNodes (by decide +kernel)
    (fun _ => sampleNode) (fun _ => ⟨rfl, rfl⟩) acts hacts hin "fazia0" (by decide +kernel)
  exact ⟨dones, hdones, hprofile⟩

end System

end FzDaq.RunControl
