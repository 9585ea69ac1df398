import Mathlib

/-!
# `RCFSM`

The run-control state machine of the controller, with the table of its transitions.
-/

namespace FzDaq.RunControl

inductive RCcommand where
  | configure
  | start
  | stop
  | reset
  deriving DecidableEq, Repr

inductive RCstate where
  | idle
  | ready
  | running
  | paused
  deriving DecidableEq, Repr

inductive RCtransition where
  | rcerror
  | rcok
  deriving DecidableEq, Repr

/-- `state_labels`. -/
def stateLabels : RCstate → String
  | .idle => "IDLE"
  | .ready => "READY"
  | .running => "RUNNING"
  | .paused => "PAUSED"

/-- The id of the transition, 0 for none. -/
def rcTtable : RCcommand → RCstate → Nat
  | .configure, .idle => 1
  | .configure, .paused => 7
  | .start, .ready => 3
  | .start, .paused => 8
  | .stop, .running => 5
  | .reset, .idle => 2
  | .reset, .ready => 4
  | .reset, .running => 6
  | .reset, .paused => 9
  | _, _ => 0

structure RCFSM where
  curstate : RCstate := .idle
  lasterr : RCtransition := .rcok
  deriving DecidableEq, Repr

namespace RCFSM

def process (rc : RCFSM) (cmd : RCcommand) : RCtransition × RCFSM :=
  match rcTtable cmd rc.curstate with
  | 0 => (.rcerror, { rc with lasterr := .rcerror })
  | 1 | 7 => (.rcok, { curstate := .ready, lasterr := .rcok })
  | 3 | 8 => (.rcok, { curstate := .running, lasterr := .rcok })
  | 5 => (.rcok, { curstate := .paused, lasterr := .rcok })
  | 2 | 4 | 6 | 9 => (.rcok, { curstate := .idle, lasterr := .rcok })
  | _ => (.rcok, { rc with lasterr := .rcok })

/-- The state behind a command, `none` if the table has no transition. -/
def next : RCcommand → RCstate → Option RCstate
  | .configure, .idle | .configure, .paused => some .ready
  | .start, .ready | .start, .paused => some .running
  | .stop, .running => some .paused
  | .reset, _ => some .idle
  | _, _ => none

theorem process_eq (rc : RCFSM) (cmd : RCcommand) :
    rc.process cmd =
      match next cmd rc.curstate with
      | some s => (.rcok, { curstate := s, lasterr := .rcok })
      | none => (.rcerror, { rc with lasterr := .rcerror }) := by
  obtain ⟨s, e⟩ := rc
  cases cmd <;> cases s <;> rfl

theorem process_of_next {rc : RCFSM} {cmd : RCcommand} {s : RCstate}
    (h : next cmd rc.curstate = some s) :
    rc.process cmd = (.rcok, { curstate := s, lasterr := .rcok }) := by
  rw [process_eq, h]

theorem process_of_next_none {rc : RCFSM} {cmd : RCcommand} (h : next cmd rc.curstate = none) :
    rc.process cmd = (.rcerror, { rc with lasterr := .rcerror }) := by
  rw [process_eq, h]

end RCFSM

end FzDaq.RunControl
