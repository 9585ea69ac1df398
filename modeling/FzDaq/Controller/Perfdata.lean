import FzDaq.Controller.NodeMap

/-!
# `FzNodeManager::process_perfdata`

Once a second a node fills its report from two snapshots of the counters of its threads, and
sends it to the controller. The parts of a parser are taken away and put in again each time.
-/

namespace FzDaq.Controller

open FzDaq.RunControl

namespace Perfdata

/-- The counters that all threads have. -/
structure Figures where
  inBytes : UInt64 := 0
  inEvents : UInt64 := 0
  outBytes : UInt64 := 0
  outEvents : UInt64 := 0
  deriving DecidableEq, Repr

/-- The counters of a state machine. -/
structure FsmFigures extends Figures where
  stateInvalid : UInt64 := 0
  eventsEmpty : UInt64 := 0
  eventsGood : UInt64 := 0
  eventsBad : UInt64 := 0
  deriving DecidableEq, Repr

/-- Counters with their rates. -/
structure Rated extends Figures where
  inBytesBw : UInt32 := 0
  inEventsBw : UInt32 := 0
  outBytesBw : UInt32 := 0
  outEventsBw : UInt32 := 0
  deriving DecidableEq, Repr

structure RatedFsm extends Rated where
  stateInvalid : UInt64 := 0
  eventsEmpty : UInt64 := 0
  eventsGood : UInt64 := 0
  eventsBad : UInt64 := 0
  deriving DecidableEq, Repr

/-- What `get_report` and `get_fsm_report` return at one time. -/
structure Snapshot where
  rd : Figures := {}
  psr : Nat → Figures := fun _ => {}
  fsm : Nat → FsmFigures := fun _ => {}
  wr : Figures := {}

/-- The profile of a node, from its configuration. -/
inductive Kind where
  | compute
  | storage
  | all
  deriving DecidableEq, Repr

def Kind.label : Kind → String
  | .compute => "compute"
  | .storage => "storage"
  | .all => "all"

def Kind.iscompute : Kind → Bool
  | .storage => false
  | _ => true

def Kind.isstorage : Kind → Bool
  | .compute => false
  | _ => true

/-- The member `nodereport`. -/
structure NodeReport where
  hostname : String := ""
  profile : String := ""
  status : String := ""
  parserNum : UInt32 := 0
  reader : Option Rated := none
  parser : List Rated := []
  fsm : List RatedFsm := []
  writer : Option Rated := none
  deriving DecidableEq, Repr

/-- A `uint32_t` that is set to the difference of two `uint64_t`. -/
def rate (t0 t1 : UInt64) : UInt32 := (t1 - t0).toUInt32

def rated (t0 t1 : Figures) : Rated where
  toFigures := t1
  inBytesBw := rate t0.inBytes t1.inBytes
  inEventsBw := rate t0.inEvents t1.inEvents
  outBytesBw := rate t0.outBytes t1.outBytes
  outEventsBw := rate t0.outEvents t1.outEvents

def ratedFsm (t0 t1 : FsmFigures) : RatedFsm where
  toRated := rated t0.toFigures t1.toFigures
  stateInvalid := t1.stateInvalid
  eventsEmpty := t1.eventsEmpty
  eventsGood := t1.eventsGood
  eventsBad := t1.eventsBad

/-- Of a writer that does not store, the rates at the output are 0. -/
def ratedWriter (store : Bool) (t0 t1 : Figures) : Rated :=
  if store then rated t0 t1
  else { rated t0 t1 with outBytesBw := 0, outEventsBw := 0 }

/-- The thread `process_perfdata` of a node. `nparsers` is the size of `psr_array`, as an
`unsigned int`. -/
structure Thread where
  hostname : String
  kind : Kind
  nparsers : UInt32
  nodereport : NodeReport := {}
  deriving DecidableEq, Repr

/-- One turn of its loop, up to the message that is pushed. -/
def Thread.turn (p : Thread) (rcState : RCstate) (store : Bool) (t0 t1 : Snapshot) : Thread :=
  let rep := { p.nodereport with
    hostname := p.hostname
    profile := p.kind.label
    status := stateLabels rcState
    parserNum := p.nparsers }
  let rep := if p.kind.iscompute then { rep with
      reader := some (rated t0.rd t1.rd)
      parser := (List.range p.nparsers.toNat).map fun i => rated (t0.psr i) (t1.psr i)
      fsm := (List.range p.nparsers.toNat).map fun i => ratedFsm (t0.fsm i) (t1.fsm i) }
    else rep
  let rep := if p.kind.isstorage then { rep with writer := some (ratedWriter store t0.wr t1.wr) }
    else rep
  { p with nodereport := rep }

/-- The message as the controller reads it: what it publishes of it. -/
def NodeReport.toReport (rep : NodeReport) : Report.Node where
  hostname := rep.hostname
  profile := rep.profile
  status := rep.status
  parserNum := rep.parserNum
  reader := rep.reader.map fun r =>
    { inBytes := r.inBytes, inBytesBw := r.inBytesBw, inEvents := r.inEvents,
      inEventsBw := r.inEventsBw }
  fsm := rep.fsm.map fun f =>
    { stateInvalid := f.stateInvalid, eventsEmpty := f.eventsEmpty, eventsGood := f.eventsGood,
      eventsBad := f.eventsBad }
  writer := rep.writer.map fun w =>
    { outBytes := w.outBytes, outBytesBw := w.outBytesBw, outEvents := w.outEvents,
      outEventsBw := w.outEventsBw }

/-! ## The parts of a report -/

/-- A report of a reader has a part for each of the parsers, and one for each of their state
machines. -/
structure NodeReport.Sized (rep : NodeReport) : Prop where
  parser : rep.reader.isSome → rep.parser.length = rep.parserNum.toNat
  fsm : rep.reader.isSome → rep.fsm.length = rep.parserNum.toNat

variable {p : Thread} {rcState : RCstate} {store : Bool} {t0 t1 : Snapshot}

/-- A storage node never has the part of a reader. -/
structure Thread.Sound (p : Thread) : Prop where
  sized : p.nodereport.Sized
  reader : p.kind.iscompute = false → p.nodereport.reader = none

theorem Thread.sound_start (hostname : String) (kind : Kind) (nparsers : UInt32) :
    Thread.Sound { hostname, kind, nparsers } :=
  ⟨⟨fun h => absurd h Bool.false_ne_true, fun h => absurd h Bool.false_ne_true⟩, fun _ => rfl⟩

theorem Thread.Sound.turn (h : p.Sound) : (p.turn rcState store t0 t1).Sound := by
  have hparts : (p.turn rcState store t0 t1).nodereport.parserNum = p.nparsers ∧
      (p.turn rcState store t0 t1).kind = p.kind ∧
      (p.kind.iscompute = true →
        (p.turn rcState store t0 t1).nodereport.parser.length = p.nparsers.toNat ∧
          (p.turn rcState store t0 t1).nodereport.fsm.length = p.nparsers.toNat) ∧
      (p.kind.iscompute = false →
        (p.turn rcState store t0 t1).nodereport.reader = p.nodereport.reader) := by
    unfold Thread.turn
    cases hkind : p.kind <;> simp [Kind.iscompute, Kind.isstorage]
  obtain ⟨hnum, hkind, hcompute, hother⟩ := hparts
  have hnone : p.kind.iscompute = false →
      (p.turn rcState store t0 t1).nodereport.reader = none :=
    fun hk => (hother hk).trans (h.reader hk)
  cases hk : p.kind.iscompute with
  | true =>
    obtain ⟨hparser, hfsm⟩ := hcompute hk
    exact ⟨⟨fun _ => by rw [hparser, hnum], fun _ => by rw [hfsm, hnum]⟩,
      fun hno => by rw [hkind, hk] at hno; contradiction⟩
  | false =>
    have hreader := hnone hk
    exact ⟨⟨fun hsome => by rw [hreader] at hsome; contradiction,
      fun hsome => by rw [hreader] at hsome; contradiction⟩, fun _ => hreader⟩

end Perfdata

end FzDaq.Controller
