import FzDaq.Machine.Mailbox
import FzDaq.RunControl.Controller
import FzDaq.RunControl.NodeManager

/-!
# The controller and its nodes

Each accepted event is broadcast as the new status, one message a node over a fresh
socket, and a node takes any status it gets. A node agrees with the controller as long
as the message delivered to it last is the one sent to it last.
-/

namespace FzDaq.RunControl

open FzDaq.Machine FzDaq.Writer

/-- A request to change the run-control state of the controller. -/
structure Request.IsEvent (req : Request) : Prop where
  module : req.module = .cnt
  channel : req.channel = .rc
  operation : req.operation = .write
  varname : req.varname = "event"

/-- All threads of the node are in the state. -/
def Profile.AllIn (s : RCstate) : Profile → Prop
  | .compute rd psrArray => rd.rcstate = s ∧ ∀ psr ∈ psrArray, psr = s
  | .storage wr => wr.rcstate = s
  | .all rd psrArray wr => rd.rcstate = s ∧ (∀ psr ∈ psrArray, psr = s) ∧ wr.rcstate = s

/-- The node and its threads are in the state. -/
structure FzNodeManager.Agrees (n : FzNodeManager) (s : RCstate) : Prop where
  state : n.state = s
  threads : n.profile.AllIn s

/-- A node in remote mode whose threads are all in its state. -/
structure FzNodeManager.Uniform (n : FzNodeManager) : Prop where
  remote : n.rcmode = .rcModeRemote
  threads : n.profile.AllIn n.state

theorem setRcstate_rcstate (w : FzWriter) (s : RCstate) (disk : Disk) :
    (w.setRcstate s disk).rcstate = s := rfl

theorem Profile.rcStateDo_allIn (p : Profile) (s : RCstate) (disk : Disk) :
    (p.rcStateDo s disk).AllIn s := by
  cases p with
  | compute rd psrArray => exact ⟨rfl, by simp⟩
  | storage wr => exact setRcstate_rcstate wr s disk
  | all rd psrArray wr => exact ⟨rfl, by simp, setRcstate_rcstate wr s disk⟩

theorem Profile.setStore_allIn {p p' : Profile} {value : Bool} {s : RCstate}
    (h : p.setStore value = some p') (hp : p.AllIn s) : p'.AllIn s := by
  cases p with
  | compute rd psrArray => cases h
  | storage wr =>
    cases h
    exact hp
  | all rd psrArray wr =>
    cases h
    exact hp

/-- No request breaks a node up. -/
theorem FzNodeManager.Uniform.handleRequest {n : FzNodeManager} (h : n.Uniform) (disk : Disk)
    (request : Option Request) : (n.handleRequest disk request).2.Uniform := by
  unfold FzNodeManager.handleRequest
  cases request with
  | none => exact h
  | some req =>
    dsimp only
    split
    · exact h
    · split
      · split_ifs <;> exact h
      · rw [h.remote]
        dsimp only
        split_ifs
        · split
          · exact ⟨rfl, Profile.rcStateDo_allIn ..⟩
          · exact h
        · exact h
      · exact h
      · split
        · rename_i profile hprofile
          obtain ⟨value, -, hset⟩ := Option.bind_eq_some_iff.1 hprofile
          exact ⟨h.remote, Profile.setStore_allIn hset h.threads⟩
        · exact h

/-- A message of the controller that puts a node into a state. -/
structure Request.Puts (req : Request) (s : RCstate) : Prop where
  module : req.module = .nm
  channel : req.channel = .rc
  operation : req.operation = .write
  varname : req.varname = "status"
  value : stateOf req.valueStr = some s

theorem stateOf_label (s : RCstate) : stateOf (stateLabels s).toLower = some s := by
  cases s <;> decide +kernel

theorem statusRequest_puts {req : Request} (h : req.IsEvent) (s : RCstate) :
    (FzController.statusRequest req s).Puts s :=
  ⟨rfl, h.channel, h.operation, rfl, stateOf_label s⟩

theorem FzNodeManager.handleRequest_puts {n : FzNodeManager} {req : Request} {s : RCstate}
    (hn : n.Uniform) (hreq : req.Puts s) (disk : Disk) :
    (n.handleRequest disk (some req)).2.Agrees s := by
  have heq : (n.handleRequest disk (some req)).2 =
      { n with state := s, profile := n.profile.rcStateDo s disk } := by
    simp [FzNodeManager.handleRequest, hreq.module, hreq.channel, hreq.operation, hreq.varname,
      hreq.value, hn.remote]
  rw [heq]
  exact ⟨rfl, Profile.rcStateDo_allIn ..⟩

theorem process_refused {rc : RCFSM} {cmd : RCcommand} (h : (rc.process cmd).1 = .rcerror) :
    (rc.process cmd).2.curstate = rc.curstate := by
  rw [RCFSM.process_eq] at h ⊢
  split at h
  · cases h
  · rfl

/-- What an event does to the controller: nothing to its state, or it broadcasts the
state that it is in then. -/
theorem handleEvent_cases (c : FzController) (req : Request) :
    (c.handleEvent req).2.1.map = c.map ∧
      ((c.handleEvent req).2.1.rc.curstate = c.rc.curstate ∧ (c.handleEvent req).2.2 = [] ∨
        (c.handleEvent req).2.2 =
          c.pushBroadcast
            (FzController.statusRequest req (c.handleEvent req).2.1.rc.curstate)) := by
  unfold FzController.handleEvent
  split
  · exact ⟨rfl, .inl ⟨rfl, rfl⟩⟩
  · cases hcmd : FzController.commandOf req.valueStr with
    | none => exact ⟨rfl, .inr rfl⟩
    | some cmd =>
      dsimp only
      split
      · rename_i hrefused
        exact ⟨rfl, .inl ⟨process_refused hrefused, rfl⟩⟩
      · exact ⟨rfl, .inr rfl⟩

theorem handleRequest_event {req : Request} (h : req.IsEvent) (c : FzController)
    (unicast : Request → String → Option Reply) :
    c.handleRequest unicast (some req) = c.handleEvent req := by
  simp [FzController.handleRequest, h.module, h.channel, h.operation, h.varname]

/-- The controller and the nodes, each with the messages that are in flight to it. -/
structure System where
  controller : FzController
  box : String → Mailbox Request FzNodeManager

inductive Action where
  | event (req : Request)
  | deliver (host : String) (i : Nat) (disk : Disk)
  deriving DecidableEq, Repr

namespace System

def pushUnicast (box : String → Mailbox Request FzNodeManager) (p : Push) :
    String → Mailbox Request FzNodeManager :=
  Function.update box p.hostname ((box p.hostname).send p.req)

def step (σ : System) : Action → System
  | .event req =>
    let r := σ.controller.handleRequest (fun _ _ => none) (some req)
    { controller := r.2.1, box := r.2.2.foldl pushUnicast σ.box }
  | .deliver host i disk =>
    let take := fun (n : FzNodeManager) req => (n.handleRequest disk (some req)).2
    { σ with box := Function.update σ.box host ((σ.box host).deliver take i) }

def run (σ : System) (acts : List Action) : System := acts.foldl step σ

/-- The nodes in the controller's map. -/
def hosts (map : List (String × Node)) : List String := map.map fun it => it.2.hostname

def start (map : List (String × Node)) (node : String → FzNodeManager) : System :=
  { controller := { map := map }, box := fun host => { receiver := node host } }

/-- The message sent last to each node of the map puts it into the controller's state. -/
structure Sound (σ : System) (nodes : List (String × Node)) : Prop where
  map : σ.controller.map = nodes
  numbered : ∀ host, (σ.box host).Numbered
  uniform : ∀ host, (σ.box host).receiver.Uniform
  newest : ∀ host ∈ hosts nodes, (σ.box host).Newest
    (fun req => req.Puts σ.controller.rc.curstate) fun n => n.Agrees σ.controller.rc.curstate

variable {σ : System} {nodes : List (String × Node)} {req : Request} {s : RCstate}
  {box : String → Mailbox Request FzNodeManager}

theorem pushUnicast_eq (box : String → Mailbox Request FzNodeManager) (p : Push) (host : String) :
    pushUnicast box p host = if host = p.hostname then (box host).send p.req else box host := by
  unfold pushUnicast
  rw [Function.update_apply]
  split
  · rename_i heq
    rw [heq]
  · rfl

theorem numbered_pushes (h : ∀ host, (box host).Numbered) (ps : List Push) (host : String) :
    (ps.foldl pushUnicast box host).Numbered := by
  induction ps generalizing box with
  | nil => exact h host
  | cons p ps ih =>
    refine ih fun host' => ?_
    rw [pushUnicast_eq]
    split
    · exact (h host').send p.req
    · exact h host'

theorem receiver_pushes (ps : List Push) (host : String) :
    (ps.foldl pushUnicast box host).receiver = (box host).receiver := by
  induction ps generalizing box with
  | nil => rfl
  | cons p ps ih =>
    rw [List.foldl_cons, ih, pushUnicast_eq]
    split <;> rfl

theorem newest_pushes (hreq : req.Puts s) (h : ∀ host, (box host).Numbered)
    (names : List String) {host : String}
    (hhost : host ∈ names ∨ (box host).Newest (fun req => req.Puts s) fun n => n.Agrees s) :
    ((names.map fun name => { hostname := name, req := req }).foldl pushUnicast box host).Newest
      (fun req => req.Puts s) fun n => n.Agrees s := by
  induction names generalizing box with
  | nil => exact hhost.resolve_left List.not_mem_nil
  | cons name names ih =>
    rw [List.map_cons, List.foldl_cons]
    refine ih (fun host' => numbered_pushes h [{ hostname := name, req := req }] host') ?_
    rw [pushUnicast_eq]
    by_cases heq : host = name
    · right
      rw [if_pos heq]
      exact Mailbox.Newest.send (h host) hreq
    · rw [if_neg heq]
      rcases hhost with hmem | hnew
      · exact .inl ((List.mem_cons.1 hmem).resolve_left heq)
      · exact .inr hnew

theorem Sound.event (h : σ.Sound nodes) (hreq : req.IsEvent) :
    (σ.step (.event req)).Sound nodes := by
  obtain ⟨hmap, hcases⟩ := handleEvent_cases σ.controller req
  unfold step
  dsimp only
  rw [handleRequest_event hreq]
  refine ⟨hmap.trans h.map, numbered_pushes h.numbered _, fun host => ?_, fun host hhost => ?_⟩
  · dsimp only
    rw [receiver_pushes]
    exact h.uniform host
  · dsimp only
    rcases hcases with ⟨hsame, hnone⟩ | hall
    · rw [hsame, hnone]
      exact h.newest host hhost
    · rw [hall, FzController.pushBroadcast, h.map]
      have hpuss := newest_pushes
        (statusRequest_puts hreq (σ.controller.handleEvent req).2.1.rc.curstate) h.numbered
        (hosts nodes) (.inl hhost)
      rwa [hosts, List.map_map] at hpuss

theorem Sound.deliver (h : σ.Sound nodes) (host : String) (i : Nat) (disk : Disk) :
    (σ.step (.deliver host i disk)).Sound nodes := by
  unfold step
  dsimp only
  refine ⟨h.map, fun host' => ?_, fun host' => ?_, fun host' hhost => ?_⟩ <;> dsimp only <;>
    rw [Function.update_apply]
  · split
    · exact (h.numbered host).deliver i
    · exact h.numbered host'
  · split
    · exact Mailbox.deliver_receiver (fun n req hn => hn.handleRequest disk (some req))
        (h.uniform host) i
    · exact h.uniform host'
  · split
    · rename_i heq
      exact (h.newest host (heq ▸ hhost)).deliver (h.uniform host)
        (fun n req hn hreq => FzNodeManager.handleRequest_puts hn hreq disk) i
    · exact h.newest host' hhost

theorem Sound.step (h : σ.Sound nodes) {a : Action} (ha : ∀ req, a = .event req → req.IsEvent) :
    (σ.step a).Sound nodes := by
  cases a with
  | event req => exact h.event (ha req rfl)
  | deliver host i disk => exact h.deliver host i disk

theorem Sound.run (h : σ.Sound nodes) {acts : List Action}
    (hacts : ∀ req, .event req ∈ acts → req.IsEvent) : (σ.run acts).Sound nodes := by
  induction acts generalizing σ with
  | nil => exact h
  | cons a acts ih =>
    refine ih (h.step fun req ha => hacts req ?_) fun req hreq =>
      hacts req (List.mem_cons_of_mem a hreq)
    rw [ha]
    exact List.mem_cons_self

theorem start_sound (nodes : List (String × Node)) {node : String → FzNodeManager}
    (hnode : ∀ host, (node host).Uniform ∧ (node host).state = .idle) :
    (start nodes node).Sound nodes := by
  refine ⟨rfl, fun host => ⟨?_, Nat.le_refl 0⟩, fun host => (hnode host).1, fun host _ => ⟨?_, ?_⟩⟩
  · intro p hp
    cases hp
  · intro p hp
    cases hp
  · intro _
    have hthreads := (hnode host).1.threads
    rw [(hnode host).2] at hthreads
    exact ⟨(hnode host).2, hthreads⟩

/-! ## Deliveries in order -/

/-- Each delivery takes the message that has been in flight to the node for longest. -/
def InOrder (acts : List Action) : Prop :=
  ∀ host i disk, Action.deliver host i disk ∈ acts → i = 0

theorem ordered_pushes (hn : ∀ host, (box host).Numbered) (ho : ∀ host, (box host).Ordered)
    (ps : List Push) (host : String) : (ps.foldl pushUnicast box host).Ordered := by
  induction ps generalizing box with
  | nil => exact ho host
  | cons p ps ih =>
    refine ih (fun host' => numbered_pushes hn [p] host') fun host' => ?_
    rw [pushUnicast_eq]
    split
    · exact (ho host').send (hn host') p.req
    · exact ho host'

theorem ordered_step (h : σ.Sound nodes) (ho : ∀ host, (σ.box host).Ordered) {a : Action}
    (ha : InOrder [a]) (host : String) : ((σ.step a).box host).Ordered := by
  cases a with
  | event req => exact ordered_pushes h.numbered ho _ host
  | deliver host' i disk =>
    have hi := ha host' i disk List.mem_cons_self
    subst hi
    unfold step
    dsimp only
    rw [Function.update_apply]
    split
    · exact (ho host').deliver_zero
    · exact ho host

theorem ordered_run (h : σ.Sound nodes) (ho : ∀ host, (σ.box host).Ordered) {acts : List Action}
    (hacts : ∀ req, .event req ∈ acts → req.IsEvent) (hin : InOrder acts) (host : String) :
    ((σ.run acts).box host).Ordered := by
  induction acts generalizing σ with
  | nil => exact ho host
  | cons a acts ih =>
    have hstep : (σ.step a).Sound nodes := h.step fun req ha => hacts req (by
      rw [ha]
      exact List.mem_cons_self)
    have hhead : InOrder [a] := fun host i disk hmem =>
      hin host i disk (List.mem_singleton.1 hmem ▸ List.mem_cons_self)
    exact ih hstep (ordered_step h ho hhead)
      (fun req hreq => hacts req (List.mem_cons_of_mem a hreq))
      fun host i disk hmem => hin host i disk (List.mem_cons_of_mem a hmem)

/-- The threads of each node are in its state; a node of the map agrees with the controller
if the message delivered to it last is the one sent to it last, and so it does whenever
nothing is in flight to it if its messages are delivered in order. -/
theorem run_agrees (nodes : List (String × Node)) (node : String → FzNodeManager)
    (hnode : ∀ host, (node host).Uniform ∧ (node host).state = .idle) (acts : List Action)
    (hacts : ∀ req, .event req ∈ acts → req.IsEvent) :
    (∀ host, (((start nodes node).run acts).box host).receiver.Uniform) ∧
      (∀ host ∈ hosts nodes,
        (((start nodes node).run acts).box host).last =
            (((start nodes node).run acts).box host).sent →
          (((start nodes node).run acts).box host).receiver.Agrees
            ((start nodes node).run acts).controller.rc.curstate) ∧
      (InOrder acts → ∀ host ∈ hosts nodes,
        (((start nodes node).run acts).box host).flight = [] →
          (((start nodes node).run acts).box host).receiver.Agrees
            ((start nodes node).run acts).controller.rc.curstate) := by
  have hstart := start_sound nodes hnode
  have hrun := hstart.run hacts
  refine ⟨hrun.uniform, fun host hhost => (hrun.newest host hhost).last, ?_⟩
  intro hin host hhost hquiet
  have hordered := ordered_run hstart (fun _ => rfl) hacts hin host
  exact (hrun.newest host hhost).last (hordered.last_eq (hrun.numbered host) hquiet)

/-- A node with a reader and a parser. -/
def sampleNode : FzNodeManager :=
  { rcmode := .rcModeRemote
    profile := .compute {} [.idle]
    nodereport := { hostname := "fazia0", profile := "compute", status := "IDLE" } }

def sampleEvent (value : String) : Action :=
  .event { channel := .rc, operation := .write, module := .cnt, varname := "event",
           value := some value }

def sampleNodes : List (String × Node) := [("fazia0", sampleNode.nodereport)]

theorem sampleEvent_isEvent {value : String} {req : Request} (h : .event req = sampleEvent value) :
    req.IsEvent := by
  cases h
  exact ⟨rfl, rfl, rfl, rfl⟩

/-- `run_agrees` on a configure and a start delivered in order. -/
theorem inOrder_agrees :
    (((start sampleNodes fun _ => sampleNode).run
      [sampleEvent "configure", sampleEvent "start", .deliver "fazia0" 0 {},
        .deliver "fazia0" 0 {}]).box "fazia0").receiver.Agrees .running := by
  have hagrees := (run_agrees sampleNodes (fun _ => sampleNode)
    (fun _ => ⟨⟨rfl, rfl, by decide⟩, rfl⟩)
    [sampleEvent "configure", sampleEvent "start", .deliver "fazia0" 0 {}, .deliver "fazia0" 0 {}]
    (by
      intro req hreq
      simp only [List.mem_cons, List.not_mem_nil, or_false, reduceCtorEq] at hreq
      rcases hreq with h | h
      · exact sampleEvent_isEvent h
      · exact sampleEvent_isEvent h)).2.1 "fazia0" (by decide +kernel) (by decide +kernel)
  exact hagrees

/-- The same two events, delivered the other way round: nothing is in flight, the
controller is RUNNING and the node READY. -/
theorem swapped_disagrees :
    (((start sampleNodes fun _ => sampleNode).run
        [sampleEvent "configure", sampleEvent "start", .deliver "fazia0" 1 {},
          .deliver "fazia0" 0 {}]).box "fazia0").flight = [] ∧
      ((start sampleNodes fun _ => sampleNode).run
        [sampleEvent "configure", sampleEvent "start", .deliver "fazia0" 1 {},
          .deliver "fazia0" 0 {}]).controller.rc.curstate = .running ∧
      (((start sampleNodes fun _ => sampleNode).run
        [sampleEvent "configure", sampleEvent "start", .deliver "fazia0" 1 {},
          .deliver "fazia0" 0 {}]).box "fazia0").receiver.state = .ready := by
  decide +kernel

end System

end FzDaq.RunControl
