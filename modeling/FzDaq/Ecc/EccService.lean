import FzDaq.RunControl.Controller

/-!
# `EccService`

The service that translates the SOAP requests of the experiment's run control into
events for the controller. It keeps a state of its own, which it moves before it sends
the command, and does not look at the answer.
-/

namespace FzDaq.Ecc

open FzDaq.RunControl

inductive EccState where
  | off
  | idle
  | described
  | prepared
  | ready
  | running
  | paused
  deriving DecidableEq, Repr

inductive SoapRequest where
  | describe
  | prepare
  | configure
  | start
  | stop
  | pause
  | resume
  | breakup
  | undo
  deriving DecidableEq, Repr

/-- The state that a request moves to, and the command sent; `none` if it does nothing. -/
abbrev Transition := Option (EccState × String)

/-- `if self.eccState == from: self.eccState = to; self.set_status(status)`. -/
def move (source target : EccState) (status : String) (eccState : EccState) : Transition :=
  if eccState = source then some (target, status) else none

def soapDescribe : EccState → Transition := move .idle .described "reset"

def soapPrepare : EccState → Transition := move .described .prepared "reset"

def soapConfigure : EccState → Transition := move .prepared .ready "configure"

def soapStart : EccState → Transition := move .ready .running "start"

def soapStop (eccState : EccState) : Transition :=
  (move .running .ready "stop" eccState).or (move .paused .ready "configure" eccState)

def soapPause : EccState → Transition := move .running .paused "stop"

def soapResume : EccState → Transition := move .paused .running "start"

def soapBreakup : EccState → Transition := move .ready .prepared "reset"

def soapUndo (eccState : EccState) : Transition :=
  (move .prepared .described "reset" eccState).or (move .described .idle "reset" eccState)

def soap : SoapRequest → EccState → Transition
  | .describe => soapDescribe
  | .prepare => soapPrepare
  | .configure => soapConfigure
  | .start => soapStart
  | .stop => soapStop
  | .pause => soapPause
  | .resume => soapResume
  | .breakup => soapBreakup
  | .undo => soapUndo

/-- The request of `set_status`. -/
def statusEvent (status : String) : Request :=
  { channel := .rc, operation := .write, module := .cnt, varname := "event", value := some status }

/-- What happens to a command: it is lost, or it reaches the controller, which has these
nodes in its map then. -/
inductive Link where
  | lost
  | reached (map : List (String × Node))
  deriving DecidableEq, Repr

/-- `set_status`, with the answer if one comes within the timeout. -/
def setStatus (status : String) (link : Link) (rc : RCFSM) : Option Reply × RCFSM :=
  match link with
  | .lost => (none, rc)
  | .reached map =>
    let c : FzController := { rc := rc, map := map }
    let r := c.handleRequest (fun _ _ => none) (some (statusEvent status))
    (some r.1, r.2.1.rc)

/-- The service and the run-control state of the controller. -/
structure System where
  eccState : EccState := .idle
  rc : RCFSM := {}
  deriving DecidableEq, Repr

namespace System

/-- Neither the answer nor the timeout is looked at. -/
def step (σ : System) (request : SoapRequest × Link) : System :=
  match soap request.1 σ.eccState with
  | none => σ
  | some (eccState, status) =>
    { eccState := eccState, rc := (setStatus status request.2 σ.rc).2 }

def run (σ : System) (requests : List (SoapRequest × Link)) : System := requests.foldl step σ

/-- The two states belong together. -/
structure Agrees (σ : System) : Prop where
  running : σ.eccState = .running ↔ σ.rc.curstate = .running
  paused : σ.eccState = .paused → σ.rc.curstate = .paused
  ready : σ.eccState = .ready → σ.rc.curstate = .ready ∨ σ.rc.curstate = .paused
  unconfigured : σ.eccState = .idle ∨ σ.eccState = .described ∨ σ.eccState = .prepared →
    σ.rc.curstate = .idle

instance (σ : System) : Decidable σ.Agrees :=
  decidable_of_iff ((σ.eccState = .running ↔ σ.rc.curstate = .running) ∧
      (σ.eccState = .paused → σ.rc.curstate = .paused) ∧
      (σ.eccState = .ready → σ.rc.curstate = .ready ∨ σ.rc.curstate = .paused) ∧
      (σ.eccState = .idle ∨ σ.eccState = .described ∨ σ.eccState = .prepared →
        σ.rc.curstate = .idle))
    ⟨fun h => ⟨h.1, h.2.1, h.2.2.1, h.2.2.2⟩,
      fun h => ⟨h.running, h.paused, h.ready, h.unconfigured⟩⟩

/-- The pairs of states that belong together. -/
def agreeing : EccState → RCstate → Bool
  | .running, .running => true
  | .paused, .paused => true
  | .ready, .ready => true
  | .ready, .paused => true
  | .idle, .idle => true
  | .described, .idle => true
  | .prepared, .idle => true
  | .off, s => s != .running
  | _, _ => false

theorem agrees_iff (σ : System) : σ.Agrees ↔ agreeing σ.eccState σ.rc.curstate = true := by
  obtain ⟨e, ⟨s, err⟩⟩ := σ
  cases e <;> cases s <;> cases err <;> decide

/-- The command reaches a controller with a node. -/
def Executes (link : Link) : Prop := ∃ node nodes, link = .reached (node :: nodes)

/-- The command of the request, if there is one, is executed, or it need not be. -/
def Meets (σ : System) (request : SoapRequest × Link) : Prop :=
  Executes request.2 ∨ soap request.1 σ.eccState = none ∨
    request.1 = .describe ∨ request.1 = .prepare ∨ request.1 = .undo ∨
    (request.1 = .stop ∧ σ.eccState = .paused)

/-- Each request of the run meets the condition. -/
def Careful (σ : System) : List (SoapRequest × Link) → Prop
  | [] => True
  | request :: requests => σ.Meets request ∧ (σ.step request).Careful requests

variable {σ : System} {status : String} {cmd : RCcommand} {link : Link} {rc : RCFSM}

theorem setStatus_executed (hcmd : FzController.commandOf status = some cmd)
    (hlink : Executes link) : (setStatus status link rc).2 = (rc.process cmd).2 := by
  obtain ⟨node, nodes, rfl⟩ := hlink
  simp only [setStatus, FzController.handleRequest, statusEvent, FzController.handleEvent,
    Request.valueStr, Option.getD_some, hcmd, if_true, List.length_cons, Nat.succ_ne_zero, if_false]
  split <;> rfl

theorem setStatus_unexecuted (hlink : ¬ Executes link) : (setStatus status link rc).2 = rc := by
  match link with
  | .lost => rfl
  | .reached [] => rfl
  | .reached (node :: nodes) => exact absurd ⟨node, nodes, rfl⟩ hlink

/-- In each pair of states that belong together the controller accepts the command of a
request, and the states behind it belong together again. -/
theorem executed_agrees {e e' : EccState} {s : RCstate} {r : SoapRequest}
    (h : agreeing e s = true) (hsoap : soap r e = some (e', status)) :
    ∃ cmd s', FzController.commandOf status = some cmd ∧ RCFSM.next cmd s = some s' ∧
      agreeing e' s' = true := by
  cases r <;> cases e <;> cases hsoap <;> cases s <;>
    first
    | exact absurd h (by decide)
    | exact ⟨_, _, rfl, rfl, rfl⟩

/-- Without its command a request leaves states that belong together only if the controller
is idle on both sides, or paused in a Stop. -/
theorem unexecuted_agrees {e e' : EccState} {s : RCstate} {r : SoapRequest}
    (h : agreeing e s = true) (hsoap : soap r e = some (e', status)) :
    agreeing e' s = true ↔
      r = .describe ∨ r = .prepare ∨ r = .undo ∨ (r = .stop ∧ e = .paused) := by
  cases r <;> cases e <;> cases hsoap <;> cases s <;> revert h <;> decide

/-- The step lemma: from states that belong together a request leads to such states exactly
if it meets the condition. -/
theorem step_agrees_iff (h : σ.Agrees) (request : SoapRequest × Link) :
    (σ.step request).Agrees ↔ σ.Meets request := by
  obtain ⟨r, link⟩ := request
  have hpair := (agrees_iff σ).1 h
  unfold step Meets
  dsimp only
  cases hsoap : soap r σ.eccState with
  | none =>
    refine ⟨fun _ => .inr (.inl rfl), fun _ => h⟩
  | some t =>
    obtain ⟨e', status⟩ := t
    dsimp only
    rw [agrees_iff]
    by_cases hlink : Executes link
    · obtain ⟨cmd, s', hcmd, hnext, hagree⟩ := executed_agrees hpair hsoap
      rw [setStatus_executed hcmd hlink, RCFSM.process_of_next hnext]
      exact ⟨fun _ => .inl hlink, fun _ => hagree⟩
    · rw [setStatus_unexecuted hlink]
      dsimp only
      rw [unexecuted_agrees hpair hsoap]
      simp [hlink]

/-- The states belong together behind each request of the run. -/
def AgreesThroughout (σ : System) (requests : List (SoapRequest × Link)) : Prop :=
  ∀ done, done <+: requests → (σ.run done).Agrees

theorem agreesThroughout_iff (h : σ.Agrees) (requests : List (SoapRequest × Link)) :
    σ.AgreesThroughout requests ↔ σ.Careful requests := by
  induction requests generalizing σ with
  | nil =>
    refine ⟨fun _ => trivial, fun _ done hdone => ?_⟩
    rw [List.prefix_nil.1 hdone]
    exact h
  | cons request requests ih =>
    constructor
    · intro hall
      have hstep : (σ.step request).Agrees :=
        hall [request] (List.cons_prefix_cons.2 ⟨rfl, List.nil_prefix⟩)
      refine ⟨(step_agrees_iff h request).1 hstep, (ih hstep).1 fun done hdone => ?_⟩
      exact hall (request :: done) (List.cons_prefix_cons.2 ⟨rfl, hdone⟩)
    · rintro ⟨hmeets, hrest⟩ done hdone
      have hstep := (step_agrees_iff h request).2 hmeets
      cases done with
      | nil => exact h
      | cons first done =>
        obtain ⟨rfl, hmore⟩ := List.cons_prefix_cons.1 hdone
        exact (ih hstep).2 hrest done hmore

/-- The two states belong together behind each request exactly if each command is executed,
but for those that leave an idle controller idle and the one of a Stop in a pause. -/
theorem run_agrees_iff (requests : List (SoapRequest × Link)) :
    AgreesThroughout {} requests ↔ Careful {} requests :=
  agreesThroughout_iff (by decide) requests

/-- The command of Configure finds no node. -/
theorem noNode_disagrees :
    ¬ AgreesThroughout {} [(.describe, .reached []), (.prepare, .reached []),
      (.configure, .reached [])] := by
  intro hall
  exact absurd (hall _ (List.prefix_refl _)) (by decide)

end System

end FzDaq.Ecc
