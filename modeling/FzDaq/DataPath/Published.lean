import FzDaq.Controller.Monitoring
import FzDaq.DataPath.Counters
import FzDaq.DataPath.Progress

/-!
# What the weblog says of a node

The report of a node is filled from the counters of its threads, and the weblog adds up those
of the state machines. Once the pipes of the node have run empty, what it publishes of the
events parsed is what it publishes of the events read.
-/

namespace FzDaq.DataPath

open FzDaq.Controller FzDaq.Machine FzDaq.Parser FzDaq.Reader FzDaq.RunControl FzDaq.Writer

/-- `get_fsm_report`. -/
def fsmFigures (psr : FzParser) : Perfdata.FsmFigures where
  inBytes := UInt64.ofNat psr.sm.report.inBytes
  inEvents := UInt64.ofNat psr.sm.report.inEvents
  outBytes := UInt64.ofNat psr.sm.report.outBytes
  outEvents := UInt64.ofNat psr.sm.report.outEvents
  stateInvalid := UInt64.ofNat psr.sm.report.stateInvalid
  eventsEmpty := UInt64.ofNat psr.sm.report.eventsEmpty
  eventsGood := UInt64.ofNat psr.sm.report.eventsGood
  eventsBad := UInt64.ofNat psr.sm.report.eventsBad

/-- `get_report` of a parser. -/
def psrFigures (psr : FzParser) : Perfdata.Figures where
  inBytes := UInt64.ofNat psr.psrReport.inBytes
  inEvents := UInt64.ofNat psr.psrReport.inEvents
  outBytes := UInt64.ofNat psr.psrReport.outBytes
  outEvents := UInt64.ofNat psr.psrReport.outEvents

/-- What the controller reads of a state machine. -/
def fsmPart (psr : FzParser) : Report.FzFSM where
  stateInvalid := (fsmFigures psr).stateInvalid
  eventsEmpty := (fsmFigures psr).eventsEmpty
  eventsGood := (fsmFigures psr).eventsGood
  eventsBad := (fsmFigures psr).eventsBad

/-- The reports that `process_perfdata` reads, one after the other. -/
inductive ReportOf where
  | rd
  | psr (i : Nat)
  | fsm (i : Nat)
  | wr
  deriving DecidableEq, Repr

namespace Node

def psr? (n : Node) (i : Nat) : Option FzParser := n.psrArray[i]?.map ParserThread.psr

/-- What `process_perfdata` reads, where `seen r` is the node as it is when the report `r` is
read. -/
def snapshot (seen : ReportOf → Node) : Perfdata.Snapshot where
  rd :=
    { inBytes := UInt64.ofNat (seen .rd).rd.report.inBytes
      inEvents := UInt64.ofNat (seen .rd).rd.report.inEvents
      outBytes := UInt64.ofNat (seen .rd).rd.report.outBytes
      outEvents := UInt64.ofNat (seen .rd).rd.report.outEvents }
  psr i := (((seen (.psr i)).psr? i).map psrFigures).getD {}
  fsm i := (((seen (.fsm i)).psr? i).map fsmFigures).getD {}
  wr :=
    { inBytes := UInt64.ofNat (seen .wr).wr.report.inBytes
      inEvents := UInt64.ofNat (seen .wr).wr.report.inEvents
      outBytes := UInt64.ofNat (seen .wr).wr.report.outBytes
      outEvents := UInt64.ofNat (seen .wr).wr.report.outEvents }

/-- While the reports are read, the reader gets no datagram and no parser a chunk: each of
them is read as it is in `m`. -/
structure Rests (m : Node) (seen : ReportOf → Node) : Prop where
  rd : (seen .rd).rd = m.rd
  psr : ∀ i, (seen (.fsm i)).psr? i = m.psr? i

variable {serialize : FzEvent → List UInt8} {fmt : Format} {members : List Fsm}
  {ds : List Datagram} {m : Node} {p : Perfdata.Thread} {rcState : RCstate} {store : Bool}
  {t0 : Perfdata.Snapshot} {seen : ReportOf → Node}

theorem report_fsm (hrests : m.Rests seen) (hkind : p.kind.iscompute)
    (hnum : p.nparsers.toNat = m.psrArray.length) :
    (p.turn rcState store t0 (snapshot seen)).nodereport.toReport.fsm =
      m.psrArray.map fun t => fsmPart t.psr := by
  have hfsm : (p.turn rcState store t0 (snapshot seen)).nodereport.fsm =
      (List.range m.psrArray.length).map fun i =>
        Perfdata.ratedFsm (t0.fsm i) ((snapshot seen).fsm i) := by
    rw [← hnum]
    unfold Perfdata.Thread.turn
    rw [hkind]
    cases p.kind.isstorage <;> rfl
  unfold Perfdata.NodeReport.toReport
  dsimp only
  rw [hfsm, List.map_map]
  refine List.ext_getElem (by simp) fun i hi hi' => ?_
  have hlt : i < m.psrArray.length := by simpa using hi'
  have hread : (snapshot seen).fsm i = fsmFigures m.psrArray[i].psr := by
    have hpsr : m.psr? i = some m.psrArray[i].psr := by simp [psr?, List.getElem?_eq_getElem hlt]
    simp [snapshot, hrests.psr, hpsr]
  simp [hread, Perfdata.ratedFsm, fsmPart]

theorem total_report (past : Nat → Report.FzFSM) (hrests : m.Rests seen)
    (hkind : p.kind.iscompute) (hnum : p.nparsers.toNat = m.psrArray.length)
    (figure : Report.FzFSM → UInt64) (f : FzParser → Nat)
    (hf : ∀ psr, figure (fsmPart psr) = UInt64.ofNat (f psr)) :
    Controller.total past figure (p.turn rcState store t0 (snapshot seen)).nodereport.toReport =
      UInt32.ofNat (m.total fun t => f t.psr) := by
  have hfsm : (p.turn rcState store t0 (snapshot seen)).nodereport.toReport.fsm = _ :=
    report_fsm hrests hkind hnum
  have hnump : (p.turn rcState store t0 (snapshot seen)).nodereport.toReport.parserNum =
      p.nparsers := by
    unfold Perfdata.Thread.turn Perfdata.NodeReport.toReport
    cases p.kind.iscompute <;> cases p.kind.isstorage <;> rfl
  have hlength : (p.turn rcState store t0 (snapshot seen)).nodereport.toReport.fsm.length =
      (p.turn rcState store t0 (snapshot seen)).nodereport.toReport.parserNum.toNat := by
    rw [hfsm, List.length_map, hnump, hnum]
  rw [Monitoring.total_eq hlength, hfsm, List.foldl_map]
  simp only [hf]
  rw [foldl_toUInt32, UInt32.zero_add, total]

/-- As far as a `uint32_t` goes, the published verdicts on all events, the events that failed
and the chunks that lie in a pipe make up the published events of the reader. -/
def AddsUp (past : Nat → Report.FzFSM) (rep : Report.Node) (m : Node) : Prop :=
  ∃ reader, rep.reader = some reader ∧
    Controller.total past (·.eventsGood) rep + Controller.total past (·.eventsBad) rep +
        Controller.total past (·.eventsEmpty) rep +
        UInt32.ofNat (m.total (·.rets.count .PARSE_FAIL) + m.inboxes.length + m.unhanded.length) =
      reader.inEvents.toUInt32

/-- In every state of a run in which the reader and the parsers rest while their reports are
read, and whatever the counters were in front of the turn, the figures that the weblog
publishes of a node add up. -/
theorem run_adds_up {bdir run : String} {id : UInt32} {unset : Unset} {disk : Disk}
    (hruns : Runs serialize (allocate fmt members (.create bdir run id unset disk)) ds m)
    (hrests : m.Rests seen) (hkind : p.kind.iscompute) (hnum : p.nparsers.toNat = members.length)
    (past : Nat → Report.FzFSM) :
    AddsUp past (p.turn rcState store t0 (snapshot seen)).nodereport.toReport m := by
  have hparsers : p.nparsers.toNat = m.psrArray.length := hnum.trans (parsers_length hruns).symm
  have hbooks := Runs.books rfl hruns
  have hbal := hbooks.balances
  obtain ⟨reader, hreader, hin⟩ : ∃ reader,
      (p.turn rcState store t0 (snapshot seen)).nodereport.toReport.reader = some reader ∧
        reader.inEvents = UInt64.ofNat m.rd.report.inEvents := by
    unfold Perfdata.Thread.turn Perfdata.NodeReport.toReport
    rw [hkind, ← hrests.rd]
    cases p.kind.isstorage <;> exact ⟨_, rfl, rfl⟩
  have hread : m.rd.report.inEvents = m.total (fun t => t.psr.sm.report.eventsGood) +
      m.total (fun t => t.psr.sm.report.eventsBad) +
      m.total (fun t => t.psr.sm.report.eventsEmpty) +
      (m.total (·.rets.count .PARSE_FAIL) + m.inboxes.length + m.unhanded.length) := by
    have hchunks := hbal.chunks
    have hverdicts := hbal.verdicts
    rw [total_add, total_add] at hverdicts
    have hsame : m.rd.report.inEvents = m.rd.report.outEvents :=
      hbooks.rd.inEvents.trans hbooks.rd.outEvents.symm
    omega
  refine ⟨reader, hreader, ?_⟩
  have htotal := @total_report m p rcState store t0 seen past hrests hkind hparsers
  rw [htotal (·.eventsGood) (·.sm.report.eventsGood) fun _ => rfl,
    htotal (·.eventsBad) (·.sm.report.eventsBad) fun _ => rfl,
    htotal (·.eventsEmpty) (·.sm.report.eventsEmpty) fun _ => rfl, hin, UInt64.toUInt32_ofNat',
    hread, ← UInt32.ofNat_add, ← UInt32.ofNat_add, ← UInt32.ofNat_add]

/-- `run_adds_up` on an event that has come through two parsers. -/
theorem sampled_adds_up : ∃ m,
    Runs (fun _ => [0]) (allocate .tag [{}, {}] (.create "data" "run" 0 {} {}))
      [sampledDatagram] m ∧
      AddsUp (fun _ => ⟨0, 0, 0, 0⟩)
        (({ hostname := "fazia0", kind := .all, nparsers := 2 } : Perfdata.Thread).turn .running
          true {} (snapshot fun _ => m)).nodereport.toReport m := by
  obtain ⟨m, hruns, -⟩ := sampled_runs
  exact ⟨m, hruns, run_adds_up hruns ⟨rfl, fun _ => rfl⟩ rfl rfl _⟩

end Node

end FzDaq.DataPath
