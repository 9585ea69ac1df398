import FzDaq.Parser.Message

/-!
# The members of `FzFSM`

The object that parses raw events: the state of its machine, its cursors into
the event under construction, and the flags, lengths and checksums that the
transitions share. What it only reads while it parses one chunk, the words and
the constant tables, is an `Env`.
-/

namespace FzDaq.Parser

/-- `evformat`: `FMT_BASIC` or `FMT_TAG`. -/
inductive Format where
  | basic | tag
  deriving DecidableEq, Repr

inductive FsmState where
  | idle | s1 | s2 | s3 | s4 | s5 | s6 | s7 | s8 | s9 | s10
  deriving DecidableEq, Repr

/-- The return value of `process`. -/
inductive Retval where
  | PARSE_FAIL | PARSE_OK
  deriving DecidableEq, Repr

/-! ## What the parser reads -/

/-- The constant arrays of names in `FzFSM.h`. -/
inductive Table where
  | fec | dataType | telescope | detector | triggerInfoBasic | centrumInfo
  deriving DecidableEq, Repr

def Table.entries : Table → List String
  | .fec => ["FEC#0", "FEC#1", "FEC#2", "FEC#3", "FEC#4", "FEC#5", "FEC#6", "FEC#7",
      "", "", "", "", "", "", "", "ADC", "UNK"]
  | .dataType => ["QH1", "I1", "QL1", "Q2", "I2", "Q3", "ADC", "UNK"]
  | .telescope => ["A", "B", "UNK"]
  | .detector => ["Si1", "Si2", "CsI", "UNK"]
  | .triggerInfoBasic => ["validation", "globtrg", "trigger0", "trigger1", "trigger2",
      "trigger3", "trigger4", "trigger5", "trigger6", "trigger7", "mantrig", "exttrig",
      "totaltime", "gttagmsb", "evtcntrmsb", "trigpattern", "temperature"]
  | .centrumInfo => ["centrum0", "centrum1", "centrum2", "centrum3"]

/-- What is constant during one call of `process`. An access outside an object
is not defined by the language: the environment says for each one whether it
faults (`none`) or what value it happens to find. Neither is the conversion of a
`float` that is not in the range of the integer. -/
structure Env where
  evformat : Format
  /-- `event_size`, in words. -/
  eventSize : Nat
  /-- The memory from `event` on. -/
  event : Nat → Option Word
  /-- What `en->value(k)` reads for a `k` that is not below `value_size()`. -/
  pastValue : Nat → Option UInt32
  /-- What `wf.sample(k)` reads for a `k` that is not below `sample_size()`. -/
  pastSample : Nat → Option Nat
  /-- What a name table reads as behind its last entry. -/
  pastStr : Table → Nat → Option String
  /-- What the energy `value` of the rise time `risetime` is converted to if it is too
  large for a `uint32_t`, infinite or not a number. -/
  pastRange : (value : UInt32) → (risetime : Word) → UInt32

namespace Env

def str (E : Env) (t : Table) (k : Nat) : Option String :=
  match t.entries[k]? with
  | some name => some name
  | none => E.pastStr t k

def valueAt (E : Env) (en : Energy) (k : Nat) : Option UInt32 :=
  match en.value[k]? with
  | some v => some v
  | none => E.pastValue k

def sampleAt (E : Env) (wf : Waveform) (k : Nat) : Option Nat :=
  match wf.sample[k]? with
  | some v => some v
  | none => E.pastSample k

end Env

/-! ## The object -/

/-- The pointers into the event under construction. `en` and `wf` point to the
energy and the waveform of a data message and are given by its path. -/
structure Cursors where
  blk : BlkPtr := 0
  fee : FeePtr := ⟨0, 0⟩
  hit : HitPtr := ⟨0, 0, 0⟩
  d : DataPtr := ⟨0, 0, 0, 0⟩
  en : DataPtr := ⟨0, 0, 0, 0⟩
  wf : DataPtr := ⟨0, 0, 0, 0⟩

/-- The flags that steer the transitions inside a section. -/
structure Flags where
  tag : Word := 0
  tagDone : Bool := false
  dettagDone : Bool := false
  energy1Done : Bool := false
  energy2Done : Bool := false
  pretrigDone : Bool := false
  wflenDone : Bool := false
  rdWflen : Word := 0

/-- The running lengths and checksums and the values read for comparison. -/
structure Sums where
  blklen : Nat := 0
  rdBlklen : Word := 0
  feelen : Nat := 0
  rdFeelen : Word := 0
  blkcrc : Word := 0
  rdBlkcrc : Word := 0
  feecrc : Word := 0
  rdFeecrc : Word := 0
  saveBlkcrc : Word := 0
  saveFeecrc : Word := 0

/-- The message `Report::FzFSM`. -/
structure FsmReport where
  inEvents : Nat := 0
  inBytes : Nat := 0
  outEvents : Nat := 0
  outBytes : Nat := 0
  stateInvalid : Nat := 0
  eventsEmpty : Nat := 0
  eventsGood : Nat := 0
  eventsBad : Nat := 0
  deriving DecidableEq, Repr

/-- An `FzFSM` object, with the event it fills and the local `retval` of
`process`. The constructor clears the report only: every other member of a new
object holds an arbitrary value. -/
structure Fsm extends Cursors, Flags, Sums where
  stateId : FsmState := .idle
  eventIndex : Nat := 0
  ev : FzEvent := {}
  tmpEc : Word := 0
  tmpRawec : Word := 0
  errInEvent : Bool := false
  eventIsEmpty : Bool := false
  report : FsmReport := {}
  retval : Retval := .PARSE_FAIL

namespace Fsm

/-! ## Messages behind the cursors -/

def onBlk (s : Fsm) (f : FzBlock → FzBlock) : Fsm := { s with ev := s.ev.modBlk s.blk f }

def onFee (s : Fsm) (f : FzFee → FzFee) : Fsm := { s with ev := s.ev.modFee s.fee f }

def onHit (s : Fsm) (f : FzHit → FzHit) : Fsm := { s with ev := s.ev.modHit s.hit f }

/-- An update of the energy that `en` points to. -/
def onEn (s : Fsm) (f : Energy → Energy) : Fsm :=
  { s with ev := s.ev.modData s.en fun d => { d with energy := d.energy.map f } }

/-- An update of the waveform that `wf` points to. -/
def onWf (s : Fsm) (f : Waveform → Waveform) : Fsm :=
  { s with ev := s.ev.modData s.wf fun d => { d with waveform := d.waveform.map f } }

def curEnergy (s : Fsm) : Energy := (s.ev.getData s.en).energy.getD {}

def curWaveform (s : Fsm) : Waveform := (s.ev.getData s.wf).waveform.getD {}

/-- `d->type()`; the default of the enumeration is its first value. -/
def dType (s : Fsm) : FzDataType := (s.ev.getData s.d).type.getD .QH1

def addBlk (s : Fsm) (b : FzBlock) : Fsm :=
  { s with
    blk := s.ev.block.length
    ev := { s.ev with block := s.ev.block ++ [b] } }

def addFee (s : Fsm) (r : FzFee) : Fsm :=
  { s with
    fee := ⟨s.blk, (s.ev.getBlk s.blk).fee.length⟩
    ev := s.ev.modBlk s.blk fun b => { b with fee := b.fee ++ [r] } }

def addHit (s : Fsm) (h : FzHit) : Fsm :=
  { s with
    hit := ⟨s.fee.blk, s.fee.fee, (s.ev.getFee s.fee).hit.length⟩
    ev := s.ev.modFee s.fee fun r => { r with hit := r.hit ++ [h] } }

def addData (s : Fsm) (d : FzData) : Fsm :=
  { s with
    d := ⟨s.hit.blk, s.hit.fee, s.hit.hit, (s.ev.getHit s.hit).data.length⟩
    ev := s.ev.modHit s.hit fun h => { h with data := h.data ++ [d] } }

def addTrinfo (s : Fsm) (t : FzTrigInfo) : Fsm :=
  { s with ev := { s.ev with trinfo := s.ev.trinfo ++ [t] } }

/-- `wf = d->mutable_waveform(); wf->set_len_error(true)`. -/
def openWaveform (s : Fsm) : Fsm :=
  { s with
    wf := s.d
    ev := s.ev.modData s.d fun d =>
      { d with waveform := some { d.waveform.getD {} with lenError := some true } } }

/-- `en = d->mutable_energy(); en->set_len_error(false)`. -/
def openEnergy (s : Fsm) : Fsm :=
  { s with
    en := s.d
    ev := s.ev.modData s.d fun d =>
      { d with energy := some { d.energy.getD {} with lenError := some false } } }

/-- `en->set_value(k, f(en->value(k)))`. A write behind the last value is not
seen by any reader. -/
def modValue (E : Env) (s : Fsm) (k : Nat) (f : UInt32 → UInt32) : Option Fsm := do
  let v ← E.valueAt s.curEnergy k
  some (s.onEn fun en => { en with value := en.value.set k (f v) })

def addValue (s : Fsm) (v : UInt32) : Fsm :=
  s.onEn fun en => { en with value := en.value ++ [v] }

def addSample (s : Fsm) (w : Word) : Fsm :=
  s.onWf fun wf => { wf with sample := wf.sample ++ [w.toNat] }

/-! ## Lengths and checksums -/

def updateBlkLen (s : Fsm) : Fsm := { s with blklen := s.blklen + 1 }

def updateBlkCrc (s : Fsm) (w : Word) : Fsm := { s with blkcrc := s.blkcrc ^^^ w }

def updateBlk (s : Fsm) (w : Word) : Fsm := s.updateBlkLen.updateBlkCrc w

def updateFeeLen (s : Fsm) : Fsm := { s with feelen := s.feelen + 1 }

def updateFeeCrc (s : Fsm) (w : Word) : Fsm := { s with feecrc := s.feecrc ^^^ w }

def updateFee (s : Fsm) (w : Word) : Fsm := s.updateFeeLen.updateFeeCrc w

/-- `next_event_word`, with the word it moves to. -/
def nextEventWord (E : Env) (s : Fsm) : Option (Word × Fsm) := do
  let w ← E.event (s.eventIndex + 1)
  some (w, ({ s with eventIndex := s.eventIndex + 1 }.updateBlk w).updateFee w)

end Fsm

end FzDaq.Parser
