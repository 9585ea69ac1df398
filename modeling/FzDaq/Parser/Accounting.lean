import FzDaq.Parser.Flags
import FzDaq.Parser.Lockstep

/-!
# `FzParser::process`

The thread around the state machine: it counts the chunks that it takes from the
reader and the events that it pushes to the writer. Its report and the report of
the state machine account for the same events.
-/

namespace FzDaq.Parser

open Machine

/-- The message `Report::FzParser`. -/
structure PsrReport where
  inBytes : Nat := 0
  inEvents : Nat := 0
  outBytes : Nat := 0
  outEvents : Nat := 0
  deriving DecidableEq, Repr

/-- An `FzParser` object. `serialize` is `SerializeToString` on an event set with one event. -/
structure FzParser where
  evformat : Format
  sm : Fsm
  psrReport : PsrReport := {}
  /-- The messages pushed to the writer, the last one first. -/
  writer : List (List UInt8) := []

namespace FzParser

variable (serialize : FzEvent → List UInt8)

/-- The object after its constructor, which clears both reports. Other members of the
state machine hold what the memory held before. -/
def new (fmt : Format) (members : Fsm) : FzParser where
  evformat := fmt
  sm := { members with report := {} }

/-- The body of the loop behind `sm.process()`: `r` is the state machine that has returned. -/
def deliver (E : Env) (p : FzParser) (r : Fsm) : FzParser :=
  let psrReport := { p.psrReport with
    inBytes := p.psrReport.inBytes + E.eventSize * 2
    inEvents := p.psrReport.inEvents + 1 }
  let p := { p with sm := { r with ev := {} } }
  if r.retval = .PARSE_OK ∧ r.eventIsEmpty = false then
    let str := serialize r.ev
    { p with
      writer := str :: p.writer
      psrReport := { psrReport with
        outBytes := psrReport.outBytes + str.length
        outEvents := psrReport.outEvents + 1 } }
  else { p with psrReport := psrReport }

/-- One iteration of the loop that takes a chunk, with at most `fuel` turns of the
loop of the state machine. -/
def process (E : Env) (fuel : Nat) (p : FzParser) : Option FzParser :=
  match p.sm.parse E fuel with
  | .ended r => some (p.deliver serialize E r)
  | _ => none

/-- Completed iterations on received chunks, with the values that `FzFSM::process`
returned, the last one first. -/
inductive Runs (p : FzParser) : List Retval → FzParser → Prop
  | nil : Runs p [] p
  | snoc {rets : List Retval} {q q' : FzParser} {E : Env} {ch : Chunk} {fuel : Nat} {r : Fsm}
      (hq : Runs p rets q) (hE : E.Carries ch) (hf : E.evformat = q.evformat)
      (hrun : q.sm.parse E fuel = .ended r) (hq' : q.process serialize E fuel = some q') :
      Runs p (r.retval :: rets) q'

/-- The accounts of the two reports, after calls that returned `rets`. -/
structure Balanced (rets : List Retval) (p : FzParser) : Prop where
  inEvents : p.psrReport.inEvents = p.sm.report.inEvents
  outEvents : p.sm.report.inEvents = p.sm.report.outEvents
  sent : p.psrReport.outEvents = p.sm.report.eventsGood + p.sm.report.eventsBad
  messages : p.psrReport.outEvents = p.writer.length
  failed : p.sm.report.eventsGood + p.sm.report.eventsBad + p.sm.report.eventsEmpty +
    rets.count .PARSE_FAIL = p.sm.report.inEvents

variable {serialize} {E : Env} {ch : Chunk} {p q : FzParser} {r : Fsm} {fuel : Nat}
  {rets : List Retval}

theorem next_traffic {c d : Fsm} (h : E.loop.Next c d) :
    d.report.inEvents = c.report.inEvents ∧ d.report.outEvents = c.report.outEvents := by
  obtain ⟨_, ⟨_, rfl⟩ | ⟨w, tr, u, htakes, hfires, rfl⟩⟩ := Fsm.next_cases h
  · exact ⟨rfl, rfl⟩
  · by_cases hreset : tr = .notValid
    · subst hreset
      cases hfires
      exact ⟨rfl, rfl⟩
    by_cases hregid : tr = .t18
    · subst hregid
      cases hfires
      change (c.trans18 w).report.inEvents = _ ∧ (c.trans18 w).report.outEvents = _
      rw [Fsm.trans18_eq]
      unfold Fsm.verdict
      dsimp only
      split_ifs <;> exact ⟨rfl, rfl⟩
    · have hreport := (hfires.quiet htakes.1 hreset hregid).1
      exact ⟨congrArg _ hreport, congrArg _ hreport⟩

theorem parse_traffic {s : Fsm} (hrun : s.parse E fuel = .ended r) :
    r.report.inEvents = s.report.inEvents + 1 ∧ r.report.outEvents = s.report.outEvents + 1 := by
  obtain ⟨t, ⟨hreach, _⟩, rfl⟩ := Fsm.parse_ended hrun
  obtain ⟨hin, hout⟩ := hreach.invariant
    (fun c => c.report.inEvents = s.report.inEvents + 1 ∧ c.report.outEvents = s.report.outEvents)
    ⟨rfl, rfl⟩ fun c d _ hcd ⟨hin, hout⟩ =>
      ⟨(next_traffic hcd).1.trans hin, (next_traffic hcd).2.trans hout⟩
  exact ⟨hin, congrArg (· + 1) hout⟩

/-- A call that returns PARSE_OK comes to one verdict, the one that the parser reads
from `event_is_empty`; a call that returns PARSE_FAIL comes to none. -/
theorem parse_verdicts {s : Fsm} (hE : E.Carries ch) (hrun : s.parse E fuel = .ended r) :
    (r.retval = .PARSE_FAIL ∧ s.SameVerdicts r) ∨
      (r.retval = .PARSE_OK ∧
        r.report.eventsGood + r.report.eventsBad = s.report.eventsGood + s.report.eventsBad +
          (if r.eventIsEmpty = false then 1 else 0) ∧
        r.report.eventsEmpty =
          s.report.eventsEmpty + (if r.eventIsEmpty = false then 0 else 1)) := by
  rcases Fsm.parse_verdict hE hrun with hfail | ⟨c, _, _, ⟨hgood, hbad, hempty⟩, rfl⟩
  · exact .inl hfail
  right
  refine ⟨rfl, ?_⟩
  rw [← hgood, ← hbad, ← hempty]
  change (c.trans18 ch.regid).report.eventsGood + (c.trans18 ch.regid).report.eventsBad =
      c.report.eventsGood + c.report.eventsBad +
        (if (c.trans18 ch.regid).eventIsEmpty = false then 1 else 0) ∧
    (c.trans18 ch.regid).report.eventsEmpty = c.report.eventsEmpty +
      (if (c.trans18 ch.regid).eventIsEmpty = false then 0 else 1)
  rw [Fsm.trans18_eq]
  unfold Fsm.verdict FsmReport.add
  dsimp only
  cases Fsm.noData c.ev <;> cases c.errInEvent <;> simp <;> omega

theorem Balanced.deliver (hp : p.Balanced rets) (hE : E.Carries ch)
    (hrun : p.sm.parse E fuel = .ended r) :
    (p.deliver serialize E r).Balanced (r.retval :: rets) := by
  obtain ⟨hin, hout, hsent, hmessages, hfailed⟩ := hp
  obtain ⟨hin', hout'⟩ := parse_traffic hrun
  rcases parse_verdicts hE hrun with ⟨hret, hgood, hbad, hempty⟩ | ⟨hret, hgood, hempty⟩
  · have hdeliver : p.deliver serialize E r = { p with
        sm := { r with ev := {} }
        psrReport := { p.psrReport with
          inBytes := p.psrReport.inBytes + E.eventSize * 2
          inEvents := p.psrReport.inEvents + 1 } } := by
      rw [FzParser.deliver, if_neg (by simp [hret])]
    rw [hdeliver]
    refine ⟨?_, ?_, ?_, hmessages, ?_⟩
    · exact (congrArg (· + 1) hin).trans hin'.symm
    · exact hin'.trans ((congrArg (· + 1) hout).trans hout'.symm)
    · change p.psrReport.outEvents = r.report.eventsGood + r.report.eventsBad
      rw [hgood, hbad, hsent]
    · change r.report.eventsGood + r.report.eventsBad + r.report.eventsEmpty +
        (r.retval :: rets).count .PARSE_FAIL = r.report.inEvents
      rw [hret, List.count_cons_self]
      omega
  · have hsm : (p.deliver serialize E r).sm.report = r.report := by
      unfold FzParser.deliver
      dsimp only
      split <;> rfl
    have hcounts : (p.deliver serialize E r).psrReport.inEvents = p.psrReport.inEvents + 1 ∧
        (p.deliver serialize E r).psrReport.outEvents =
          p.psrReport.outEvents + (if r.eventIsEmpty = false then 1 else 0) ∧
        (p.deliver serialize E r).writer.length =
          p.writer.length + (if r.eventIsEmpty = false then 1 else 0) := by
      unfold FzParser.deliver
      dsimp only
      by_cases hsend : r.eventIsEmpty = false
      · rw [if_pos ⟨hret, hsend⟩, if_pos hsend]
        exact ⟨rfl, rfl, rfl⟩
      · rw [if_neg fun h => hsend h.2, if_neg hsend]
        exact ⟨rfl, rfl, rfl⟩
    obtain ⟨hpsrIn, hpsrOut, hwriter⟩ := hcounts
    have hfails : (r.retval :: rets).count .PARSE_FAIL = rets.count .PARSE_FAIL :=
      List.count_cons_of_ne (by simp [hret])
    refine ⟨?_, ?_, ?_, ?_, ?_⟩
    · rw [hpsrIn, hsm, hin', hin]
    · rw [hsm, hin', hout', hout]
    · rw [hpsrOut, hsm, hgood, hsent]
    · rw [hpsrOut, hwriter, hmessages]
    · rw [hfails, hsm, hgood, hempty, hin', ← hfailed]
      split <;> omega

/-- Event accounting is conserved over all completed iterations: what comes in is
counted alike, what is good or bad is sent, and what fails is neither good, bad nor empty. -/
theorem runs_balanced (fmt : Format) (members : Fsm)
    (hruns : Runs serialize (new fmt members) rets p) : p.Balanced rets := by
  induction hruns with
  | nil => exact ⟨rfl, rfl, rfl, rfl, rfl⟩
  | @snoc rets q q' E ch fuel r _ hE _ hrun hq' ih =>
      rw [FzParser.process, hrun, Option.some.injEq] at hq'
      subst hq'
      exact ih.deliver hE hrun

/-- `runs_balanced` on one good event. -/
theorem sampled_balanced : ∃ p, Runs (fun _ => [0]) (new .tag {}) [.PARSE_OK] p ∧
    p.Balanced [.PARSE_OK] ∧ p.writer.length = 1 := by
  obtain ⟨r, p, hrun, hp, hret, hlen⟩ : ∃ r p,
      (new .tag {}).sm.parse (Fsm.sampled.env .tag .zero) 20 = .ended r ∧
      (new .tag {}).process (fun _ => [0]) (Fsm.sampled.env .tag .zero) 20 = some p ∧
      r.retval = .PARSE_OK ∧ p.writer.length = 1 := ⟨_, _, rfl, rfl, rfl, rfl⟩
  have hruns : Runs (fun _ => [0]) (new .tag {}) [r.retval] p :=
    .snoc .nil (Fsm.sampled.env_carries .tag .zero) rfl hrun hp
  rw [hret] at hruns
  exact ⟨p, hruns, runs_balanced .tag {} hruns, hlen⟩

end FzParser

end FzDaq.Parser
