import FzDaq.Machine.Loop
import FzDaq.Parser.Transitions

/-!
# `FzFSM::process`

The transition table, the loop over the words of a chunk, and the sequence of
calls with which `FzParser::process` parses one chunk.
-/

namespace FzDaq.Parser

/-- The transition ids; `notValid` is 0. -/
inductive Trans where
  | notValid | t01 | t02 | t03 | t04 | t05 | t06 | t07 | t08 | t09 | t10 | t11 | t12 | t13
  | t14 | t15 | t16 | t17 | t18
  deriving DecidableEq, Repr

/-- The matrix `ttable`, by its entries other than 0. -/
def ttable : WordId → FsmState → Trans
  | .empty, _ => .notValid
  | .ec, .idle => .t02
  | _, .idle => .t01
  | .telid, .s1 => .t03
  | .data, .s2 => .t04
  | .data, .s3 => .t05
  | .detid, .s3 => .t06
  | .data, .s4 => .t07
  | .data, .s5 => .t08
  | .detid, .s5 => .t09
  | .telid, .s5 => .t10
  | .length, .s5 => .t11
  | .crcfe, .s6 => .t12
  | .ec, .s7 => .t13
  | .blkid, .s1 => .t14
  | .length, .s8 => .t15
  | .crcbl, .s9 => .t16
  | .ec, .s10 => .t17
  | .regid, .s10 => .t18
  | _, _ => .notValid

namespace Fsm

variable (E : Env)

/-- The branch of transition 0: "reset FSM", "clear incomplete event". -/
def reset (s : Fsm) : Fsm :=
  { s with
    stateId := .idle
    ev := {}
    report := { s.report with stateInvalid := s.report.stateInvalid + 1 } }

/-- The `switch(trans_id)` of the loop. -/
def fire (s : Fsm) (t : Trans) (w : Word) : Option Fsm :=
  match t with
  | .notValid => some s.reset
  | .t01 => some s
  | .t02 => some { s.trans02 w with stateId := .s1 }
  | .t03 => some { s.trans03 w with stateId := .s2 }
  | .t04 => some { s.trans04 w with stateId := .s3 }
  | .t05 => some { s.trans05 w with stateId := .s3 }
  | .t06 => some { s.trans06 E w with stateId := .s4 }
  | .t07 => match E.evformat with
      | .basic => some { s.trans07Basic w with stateId := .s5 }
      | .tag => some { s.trans07Tag w with stateId := .s5 }
  | .t08 => match E.evformat with
      | .basic => (s.trans08Basic E w).map ({ · with stateId := .s5 })
      | .tag => (s.trans08Tag E w).map ({ · with stateId := .s5 })
  | .t09 => match E.evformat with
      | .basic => (s.trans09Basic E w).map ({ · with stateId := .s4 })
      | .tag => some { s.trans09Tag E w with stateId := .s4 }
  | .t10 => match E.evformat with
      | .basic => (s.trans10Basic E w).map ({ · with stateId := .s2 })
      | .tag => some { s.trans10Tag w with stateId := .s2 }
  | .t11 => match E.evformat with
      | .basic => (s.trans11Basic E w).map ({ · with stateId := .s6 })
      | .tag => some { s.trans11Tag w with stateId := .s6 }
  | .t12 => some { s.trans12 w with stateId := .s7 }
  | .t13 => some { s.trans13 w with stateId := .s1 }
  | .t14 => some { s.trans14 w with stateId := .s8 }
  | .t15 => some { s.trans15 w with stateId := .s9 }
  | .t16 => (s.trans16 E w).map ({ · with stateId := .s10 })
  | .t17 => some { s.trans17 w with stateId := .s1 }
  | .t18 => some { s.trans18 w with stateId := .idle, retval := .PARSE_OK }

/-- The `event_index++` of the `for` loop. -/
def advance (s : Fsm) : Fsm := { s with eventIndex := s.eventIndex + 1 }

/-- What the loop does with the word `w` under the cursor. -/
def dispatch (s : Fsm) (w : Word) : Option Fsm :=
  if getwordId w = .empty then some s.advance
  else (s.fire E (ttable (getwordId w) s.stateId) w).map advance

/-- One turn of the `for` loop. -/
def turn (s : Fsm) : Option Fsm := do
  let w ← E.event s.eventIndex
  s.dispatch E w

/-- `process` up to its loop. -/
def start (s : Fsm) : Fsm :=
  { s with
    retval := .PARSE_FAIL
    eventIndex := 0
    report := { s.report with
      inEvents := s.report.inEvents + 1
      inBytes := s.report.inBytes + E.eventSize * 2 } }

/-- `process` behind its loop. -/
def finish (s : Fsm) : Fsm :=
  { s with
    report := { s.report with
      outEvents := s.report.outEvents + 1
      outBytes := s.report.outBytes + E.eventSize * 2 } }

/-- `init` and `import`; the words and the format that they set are the environment. -/
def importEvent (s : Fsm) : Fsm := { s with eventIndex := 0, stateId := .idle, ev := {} }

end Fsm

open Machine in
/-- The `for` loop of `process`. -/
def Env.loop (E : Env) : Loop Fsm where
  halted s := E.eventSize ≤ s.eventIndex
  body := Fsm.turn E

open Machine in
/-- `FzFSM::process` with at most `fuel` turns of its loop. -/
def Fsm.process (E : Env) (fuel : Nat) (s : Fsm) : Outcome Fsm :=
  match E.loop.run fuel (s.start E) with
  | .ended t => .ended (t.finish E)
  | o => o

open Machine in
/-- How `FzParser::process` has a chunk parsed: `init`, `import`, `process`. -/
def Fsm.parse (E : Env) (fuel : Nat) (s : Fsm) : Outcome Fsm := s.importEvent.process E fuel

end FzDaq.Parser
