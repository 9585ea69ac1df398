import FzDaq.Parser.State

/-!
# The transitions of the state machine

One definition for each `transNN` of `FzFSM.cpp`, in the order of the source.
`w` is the word under the cursor, `event[event_index]`, at the start of the
transition. Transitions that look at other words of the event, or index a
repeated field or a name table with a value from the data, may fault.
-/

namespace FzDaq.Parser

namespace FzDataType

/-- The number of the value in `enum FzDataType`. -/
def index : FzDataType → Nat
  | QH1 => 0
  | I1 => 1
  | QL1 => 2
  | Q2 => 3
  | I2 => 4
  | Q3 => 5
  | ADC => 6
  | UNKDT => 7

/-- In the basic format these types carry energy words before the waveform. -/
def hasEnergy : FzDataType → Bool
  | QH1 | Q2 | Q3 => true
  | _ => false

end FzDataType

/-- The range check of FEEID in the header transitions. -/
def checkFeeid (feeid : Word) : Nat :=
  if feeid.toNat < FzFec.FEC0 || feeid.toNat > FzFec.ADCF then FzFec.UNKFEC else feeid.toNat

/-- The range check of TELID in the header transitions. -/
def checkTelid (telid : Word) : Nat :=
  if telid.toNat < FzTelescope.A || telid.toNat > FzTelescope.B then FzTelescope.UNKT
  else telid.toNat

/-- The type of the data that follow a DETID word. -/
def sectionType (w : Word) : FzDataType :=
  let detid := (detidOf w).toNat
  let dtype := (dtypeOf w).toNat
  if checkFeeid (feeidOf w) = FzFec.ADCF then .ADC
  else if detid = FzDetector.Si1 ∧ dtype = 0 then .QH1
  else if detid = FzDetector.Si1 ∧ dtype = 1 then .I1
  else if detid = FzDetector.Si1 ∧ dtype = 2 then .QL1
  else if detid = FzDetector.Si2 ∧ dtype = 0 then .Q2
  else if detid = FzDetector.Si2 ∧ dtype = 1 then .I2
  else if detid = FzDetector.CsI ∧ dtype = 0 then .Q3
  else .UNKDT

/-- The data message that a DETID word adds to its hit. In the basic format its
parts are laid out at once; `enError` is the first value of the energy's `len_error`. -/
def sectionData (fmt : Format) (t : FzDataType) (enError : Bool) : FzData :=
  match fmt with
  | .basic =>
      { type := some t
        energy := if t.hasEnergy then some { lenError := some enError } else none
        waveform := some { lenError := some true } }
  | .tag => { type := some t }

/-- `(uint32_t)((float)value / (float)risetime * 1000)`. -/
def Env.scaleEnergy (E : Env) (value : UInt32) (risetime : Word) : UInt32 :=
  let scaled := value.toFloat32 / risetime.toFloat32 * 1000
  if scaled < 4294967296 then scaled.toUInt32 else E.pastRange value risetime

/-- The baseline of a pair of words: 30 bits in two's complement, in units of 1/16. -/
def baselineOf (first second : Word) : Float32 :=
  let temp : Int := first.toNat * 2 ^ 15 + second.toNat
  let temp := if temp > 536870911 then temp - 1073741824 else temp
  Float32.ofInt temp / 16

/-- Sine or cosine from three words: a sum of type `int`, widened to `int64_t`. -/
def adcOf (a b c : Word) : Int64 :=
  let sum := (a.toUInt32 <<< 22) + (b.toUInt32 <<< 7) + (c.toUInt32 >>> 8)
  let wide := sum.toInt32.toInt64
  if wide &&& 0x1000000000 ≠ 0 then (0xFFFFFFE000000000 : UInt64).toInt64 + wide else wide

namespace Fsm

variable (E : Env)

/-- The names that an error message is composed of. -/
def logNames (s : Fsm) : Option Unit := do
  let hit := s.ev.getHit s.hit
  let _ ← E.str .fec (hit.feeid.getD 0)
  let _ ← E.str .telescope (hit.telid.getD 0)
  let _ ← E.str .detector (hit.detid.getD 0)
  let _ ← E.str .dataType s.dType.index
  some ()

/-- A new block and its header word; shared by `trans02` and `trans17`. -/
def startBlk (s : Fsm) (w : Word) : Fsm :=
  let s := s.addBlk { lenError := some true, crcError := some true }
  { s with
    blklen := 1
    blkcrc := w
    tmpRawec := w
    tmpEc := ecOf w
    ev := { s.ev with ec := some (ecOf w).toUInt32 } }

/-- The data message of a section and the cursors to it; the last lines of
`trans06`, `trans09_basic` and `trans09_tag`. -/
def startSection (s : Fsm) (w : Word) (enError : Bool) : Fsm :=
  let t := sectionType w
  let s := s.addData (sectionData E.evformat t enError)
  let s := match E.evformat with
    | .basic => { s with wf := s.d, en := if t.hasEnergy then s.d else s.en }
    | .tag => s
  if t = .UNKDT then { s with errInEvent := true } else s

def trans02 (s : Fsm) (w : Word) : Fsm :=
  { s with errInEvent := false }.startBlk w

def trans03 (s : Fsm) (w : Word) : Fsm :=
  let feeid := checkFeeid (feeidOf w)
  let s := s.updateBlk w
  let s := { s with feelen := 2, feecrc := s.tmpRawec ^^^ w }
  let s := s.addFee { lenError := some true, crcError := some true, feeid := some feeid }
  s.addHit
    { ec := some s.tmpEc.toUInt32
      telid := some (checkTelid (telidOf w))
      feeid := some feeid }

def trans04 (s : Fsm) (w : Word) : Fsm :=
  let s := (s.updateBlk w).updateFee w
  let s := s.onHit fun h => { h with gttag := some w.toUInt32 }
  { s with dettagDone := false }

def trans05 (s : Fsm) (w : Word) : Fsm :=
  let s := (s.updateBlk w).updateFee w
  if !s.dettagDone then
    { s.onHit fun h => { h with dettag := some w.toUInt32 } with dettagDone := true }
  else s.onHit fun h => { h with trigpat := some w.toUInt32 }

def trans06 (s : Fsm) (w : Word) : Fsm :=
  let s := (s.updateBlk w).updateFee w
  let s := s.onHit fun h => { h with detid := some (detidOf w).toNat }
  s.startSection E w false

def trans07Basic (s : Fsm) (w : Word) : Fsm :=
  let s := { s with
    energy1Done := false
    energy2Done := false
    pretrigDone := false
    wflenDone := false
    rdWflen := 0 }
  let s := (s.updateBlk w).updateFee w
  match s.dType with
  | .I1 | .QL1 | .I2 | .ADC | .UNKDT =>
      { s.onWf fun wf => { wf with pretrig := some w.toUInt32 } with pretrigDone := true }
  | .QH1 | .Q2 | .Q3 => s.addValue w.toUInt32

/-- A word where a tag is expected; shared by `trans07_tag` and `trans08_tag`. -/
def readTag (s : Fsm) (w : Word) : Fsm :=
  let s := { s with tag := w }
  if w = TAG_VOID then s
  else
    let s :=
      if w = TAG_PRETRIGGER ∨ w = TAG_WAVEFORM then
        if (s.ev.getData s.d).waveform.isNone then s.openWaveform else s
      else if w = TAG_SLOW ∨ w = TAG_FAST then s.openEnergy
      else s
    { s with tagDone := true }

def trans07Tag (s : Fsm) (w : Word) : Fsm :=
  let s := { s with tagDone := false, wflenDone := false, rdWflen := 0 }
  ((s.updateBlk w).updateFee w).readTag w

/-- One turn of a gathering loop of `trans08_basic`. -/
def gatherSample (s : Fsm) (w : Word) : Fsm :=
  let s := s.addSample w
  let s := { s with saveBlkcrc := s.blkcrc }.updateBlk w
  let s := { s with saveFeecrc := s.feecrc }.updateFee w
  { s with eventIndex := s.eventIndex + 1 }

/-- `while(event[event_index] <= 0x7FFF)`. The first argument bounds the number
of turns; the words of a received chunk stop the loop before it is used up. -/
def gatherData : Nat → Fsm → Option Fsm
  | 0, _ => none
  | turns + 1, s => do
      let w ← E.event s.eventIndex
      if w ≤ 0x7FFF then gatherData turns (s.gatherSample w) else some s

/-- `while(nsample < rd_wflen)` of `trans08_basic`, with the turns that are left. -/
def gatherCount : Nat → Fsm → Option Fsm
  | 0, s => some s
  | left + 1, s => do
      let w ← E.event s.eventIndex
      gatherCount left (s.gatherSample w)

/-- The checksums of the word before the last one gathered. -/
def restoreCrc (s : Fsm) : Fsm := { s with blkcrc := s.saveBlkcrc, feecrc := s.saveFeecrc }

/-- The step back at the end of a gathering loop. -/
def stepBack (s : Fsm) : Fsm :=
  { s with eventIndex := s.eventIndex - 1, blklen := s.blklen - 1, feelen := s.feelen - 1 }

/-- `update_blk(); update_fee(); event_index++`. -/
def skipWord (s : Fsm) (w : Word) : Fsm :=
  let s := (s.updateBlk w).updateFee w
  { s with eventIndex := s.eventIndex + 1 }

/-- Sine and cosine of ADC data, from the six words at the cursor. -/
def readSineCosine (s : Fsm) : Option Fsm := do
  let i := s.eventIndex
  let w0 ← E.event i
  let w1 ← E.event (i + 1)
  let w2 ← E.event (i + 2)
  let w3 ← E.event (i + 3)
  let w4 ← E.event (i + 4)
  let w5 ← E.event (i + 5)
  let s := { s with ev := s.ev.modData s.d fun d =>
    { d with sine := some (adcOf w0 w1 w2), cosine := some (adcOf w3 w4 w5) } }
  let s := [w0, w1, w2, w3, w4, w5].foldl skipWord s
  some { s with saveBlkcrc := s.blkcrc, saveFeecrc := s.feecrc }

/-- The low word of the first energy. -/
def lowEnergy1 (s : Fsm) (w : Word) : Option Fsm := do
  let s ← s.modValue E 0 fun v => (v <<< 15) + w.toUInt32
  some { s with energy1Done := true }

/-- The high word of the second energy, then its low word. -/
def energy2 (s : Fsm) (w : Word) : Option Fsm :=
  if s.curEnergy.value.length = 1 then some (s.addValue w.toUInt32)
  else do
    let s ← s.modValue E 1 fun v => (v <<< 15) + w.toUInt32
    some { s with energy2Done := true }

/-- Pretrigger, length and samples behind the energies; the same for QH1, Q2 and Q3. -/
def waveformByData (s : Fsm) (w : Word) : Option Fsm :=
  if !s.pretrigDone then
    some { s.onWf fun wf => { wf with pretrig := some w.toUInt32 } with pretrigDone := true }
  else if !s.wflenDone then
    some { s with rdWflen := w, wflenDone := true }
  else do
    let s ← s.restoreCrc.gatherData E E.eventSize
    some s.stepBack

/-- Length and samples of the types without energies. -/
def waveformByCount (s : Fsm) (w : Word) : Option Fsm :=
  if !s.wflenDone then
    some { s with rdWflen := w, wflenDone := true }
  else do
    let s := s.restoreCrc
    let s ← (if s.dType = .ADC then s.readSineCosine E else some s)
    let s ← s.gatherCount E s.rdWflen.toNat
    some s.stepBack

def trans08Basic (s : Fsm) (w : Word) : Option Fsm :=
  let s := (s.updateBlk w).updateFee w
  match s.dType with
  | .QH1 | .Q2 =>
      if !s.energy1Done then s.lowEnergy1 E w
      else s.waveformByData E w
  | .Q3 =>
      if !s.energy1Done then s.lowEnergy1 E w
      else if !s.energy2Done then s.energy2 E w
      else s.waveformByData E w
  | .I1 | .I2 | .QL1 | .ADC | .UNKDT => s.waveformByCount E w

/-- `while(nsample < rd_wflen)` of `trans08_tag`, with the turns that are left. -/
def gatherTag : Nat → Fsm → Option Fsm
  | 0, s => some s
  | left + 1, s => do
      let w ← E.event s.eventIndex
      let s := s.addSample w
      let s := { s with saveBlkcrc := s.blkcrc, saveFeecrc := s.feecrc }
      let (_, s) ← s.nextEventWord E
      gatherTag left s

/-- The loop of TAG_RB_COUNTERS from counter `i` on, with the turns that are
left. The last turn does not move to the next word. -/
def readCounters (i : Nat) : Nat → Fsm → Option Fsm
  | 0, s => some s
  | left + 1, s => do
      let attr ← E.str .triggerInfoBasic i
      let w ← E.event s.eventIndex
      let s := s.addTrinfo
        { id := some (0x100 + UInt32.ofNat i), attr := some attr, value := some w.toUInt64 }
      if left = 0 then some s
      else do
        let (_, s) ← s.nextEventWord E
        readCounters (i + 1) left s

/-- A trigger info of the tag format with a fixed name. -/
def addTagInfo (s : Fsm) (id : UInt32) (t : Table) (k : Nat) (value : UInt64) : Option Fsm := do
  let attr ← E.str t k
  some (s.addTrinfo { id := some id, attr := some attr, value := some value })

/-- The payload of a record, by its tag. -/
def readRecord (s : Fsm) (w : Word) : Option Fsm :=
  if s.tag = TAG_PRETRIGGER then
    some (s.onWf fun wf => { wf with pretrig := some w.toUInt32 })
  else if s.tag = TAG_WAVEFORM then do
    let s ← s.gatherTag E s.rdWflen.toNat
    some s.stepBack.restoreCrc
  else if s.tag = TAG_SLOW then do
    let (high, s) ← s.nextEventWord E
    let s := s.addValue high.toUInt32
    let (low, s) ← s.nextEventWord E
    let s ← s.modValue E 0 fun v => (v <<< 15) + low.toUInt32
    s.modValue E 0 fun v => E.scaleEnergy v w
  else if s.tag = TAG_FAST then do
    let (high, s) ← s.nextEventWord E
    let s := s.addValue high.toUInt32
    let (low, s) ← s.nextEventWord E
    let s ← s.modValue E 1 fun v => (v <<< 15) + low.toUInt32
    s.modValue E 1 fun v => E.scaleEnergy v w
  else if s.tag = TAG_BASELINE then do
    let (second, s) ← s.nextEventWord E
    some { s with ev := s.ev.modData s.d fun d =>
      { d with baseline := some (baselineOf w second) } }
  else if s.tag = TAG_RB_COUNTERS then
    s.readCounters E 0 s.rdWflen.toNat
  else if s.tag = TAG_RB_TIME then do
    let (low, s) ← s.nextEventWord E
    s.addTagInfo E 0x10C .triggerInfoBasic 0xC
      (((w.toUInt64 <<< 15) + low.toUInt64) * 4 / 150)
  else if s.tag = TAG_RB_GTTAG then do
    let (low, s) ← s.nextEventWord E
    let gttag := (s.ev.getHit s.hit).gttag.getD 0
    s.addTagInfo E 0x10D .triggerInfoBasic 0xD
      ((((w.toUInt64 <<< 15) + low.toUInt64) <<< 15) + gttag.toUInt64)
  else if s.tag = TAG_RB_EC then do
    let (low, s) ← s.nextEventWord E
    let ec := (s.ev.getHit s.hit).ec.getD 0
    s.addTagInfo E 0x10E .triggerInfoBasic 0xE
      ((((w.toUInt64 <<< 15) + low.toUInt64) <<< 12) + ec.toUInt64)
  else if s.tag = TAG_RB_TRIGPAT then
    s.addTagInfo E 0x10F .triggerInfoBasic 0xF w.toUInt64
  else if s.tag = TAG_RB_TEMP then
    s.addTagInfo E 0x110 .triggerInfoBasic 0x10 w.toUInt64
  else if s.tag = TAG_RB_CENTRUM then do
    let s ← s.addTagInfo E 0x200 .centrumInfo 0
      ((w &&& 0x003F).toUInt64 + ((w &&& 0xF800).toUInt64 <<< 15))
    let (w1, s) ← s.nextEventWord E
    let (w2, s) ← s.nextEventWord E
    let s ← s.addTagInfo E 0x201 .centrumInfo 1 ((w1.toUInt64 <<< 15) + w2.toUInt64)
    let (w3, s) ← s.nextEventWord E
    let (w4, s) ← s.nextEventWord E
    let s ← s.addTagInfo E 0x202 .centrumInfo 2 ((w3.toUInt64 <<< 15) + w4.toUInt64)
    let (w5, s) ← s.nextEventWord E
    let (w6, s) ← s.nextEventWord E
    s.addTagInfo E 0x203 .centrumInfo 3 ((w5.toUInt64 <<< 15) + w6.toUInt64)
  else some s

/-- "verify waveform length of event just acquired". -/
def verifyWaveform (s : Fsm) : Option Fsm :=
  if s.rdWflen.toNat = s.curWaveform.sample.length then
    some (s.onWf fun wf => { wf with lenError := some false })
  else do
    s.logNames E
    some { s.onWf fun wf => { wf with lenError := some true } with errInEvent := true }

/-- "verify energy length of event just acquired": `n` values are required. -/
def verifyEnergyLen (s : Fsm) (n : Nat) : Option Fsm :=
  if s.curEnergy.value.length = n then
    some (s.onEn fun en => { en with lenError := some false })
  else do
    s.logNames E
    some { s.onEn fun en => { en with lenError := some true } with errInEvent := true }

def verifyEnergy (s : Fsm) : Option Fsm :=
  match s.dType with
  | .Q3 => s.verifyEnergyLen E 2
  | .QH1 | .Q2 => s.verifyEnergyLen E 1
  | _ => some s

def trans08Tag (s : Fsm) (w : Word) : Option Fsm :=
  let s := (s.updateBlk w).updateFee w
  if !s.tagDone then some (s.readTag w)
  else if !s.wflenDone then some { s with rdWflen := w, wflenDone := true }
  else do
    let s ← s.readRecord E w
    let s ← (if s.tag = TAG_WAVEFORM then s.verifyWaveform E else some s)
    some { s with tagDone := false, wflenDone := false, rdWflen := 0 }

def trans09Basic (s : Fsm) (w : Word) : Option Fsm := do
  let s := (s.updateBlk w).updateFee w
  let s ← s.verifyWaveform E
  let s ← s.verifyEnergy E
  let last := s.ev.getHit s.hit
  let s := s.addHit
    { ec := some (s.ev.ec.getD 0)
      gttag := some (last.gttag.getD 0)
      dettag := some (last.dettag.getD 0)
      detid := some (detidOf w).toNat
      telid := some (checkTelid (telidOf w))
      feeid := some (checkFeeid (feeidOf w)) }
  some (s.startSection E w true)

def trans09Tag (s : Fsm) (w : Word) : Fsm :=
  let s := (s.updateBlk w).updateFee w
  let last := s.ev.getHit s.hit
  let s := s.addHit
    { ec := some (s.ev.ec.getD 0)
      gttag := some (last.gttag.getD 0)
      dettag := some (last.dettag.getD 0)
      trigpat := some (last.trigpat.getD 0)
      detid := some (detidOf w).toNat
      telid := some (checkTelid (telidOf w))
      feeid := some (checkFeeid (feeidOf w)) }
  s.startSection E w true

/-- The hit that a TELID word adds in S5; the last lines of `trans10_basic` and
`trans10_tag`. -/
def startTelescope (s : Fsm) (w : Word) : Fsm :=
  s.addHit
    { ec := some (s.ev.ec.getD 0)
      feeid := some (checkFeeid (feeidOf w))
      telid := some (checkTelid (telidOf w)) }

def trans10Basic (s : Fsm) (w : Word) : Option Fsm := do
  let s := (s.updateBlk w).updateFee w
  let s ← s.verifyWaveform E
  let s ← s.verifyEnergy E
  some (s.startTelescope w)

def trans10Tag (s : Fsm) (w : Word) : Fsm :=
  ((s.updateBlk w).updateFee w).startTelescope w

def trans11Basic (s : Fsm) (w : Word) : Option Fsm := do
  let s := { s with rdFeelen := lengthOf w }.updateBlk w
  let s ← s.verifyWaveform E
  s.verifyEnergy E

def trans11Tag (s : Fsm) (w : Word) : Fsm :=
  { s with rdFeelen := lengthOf w }.updateBlk w

def trans12 (s : Fsm) (w : Word) : Fsm :=
  let s := { s.updateBlk w with rdFeecrc := crcfeOf w }
  let s :=
    if s.feelen &&& 0xFFF = s.rdFeelen.toNat then s.onFee fun r => { r with lenError := some false }
    else { s.onFee fun r => { r with lenError := some true } with errInEvent := true }
  if s.rdFeecrc = crcFold s.feecrc then s.onFee fun r => { r with crcError := some false }
  else { s.onFee fun r => { r with crcError := some true } with errInEvent := true }

def trans13 (s : Fsm) (w : Word) : Fsm :=
  { s with tmpEc := ecOf w, tmpRawec := w }.updateBlk w

def trans14 (s : Fsm) (w : Word) : Fsm :=
  (s.updateBlk w).onBlk fun b => { b with blkid := some (blkidOf w).toUInt32 }

def trans15 (s : Fsm) (w : Word) : Fsm :=
  { s with rdBlklen := lengthOf w, blkcrc := s.blkcrc ^^^ w }

/-- One entry of the trigger block: three samples from `i` on. -/
def triggerInfo (hit : FzHit) (wf : Waveform) (i : Nat) : Option FzTrigInfo := do
  let id ← E.sampleAt wf i
  let idx := id % 256
  let attr ←
    (if id ≥ 0x200 then
      if idx ≤ 4 then E.str .centrumInfo idx else some "unknown"
    else if idx ≤ 15 then E.str .triggerInfoBasic idx
    else some "unknown")
  let high ← E.sampleAt wf (i + 1)
  let low ← E.sampleAt wf (i + 2)
  let supp := (UInt32.ofNat high <<< 15) + UInt32.ofNat low
  let supp :=
    if id = 0x10C then supp * 4 / 150000000
    else if id = 0x10D then (supp <<< 15) + hit.gttag.getD 0
    else if id = 0x10E then (supp <<< 12) + hit.ec.getD 0
    else if id = 0x10F then supp &&& 0x00FF
    else supp
  some { id := some (UInt32.ofNat id), attr := some attr, value := some supp.toUInt64 }

/-- The loop of `read_triggerinfo` from sample `i` on, with the turns that are left. -/
def triggerInfos (hit : FzHit) (wf : Waveform) (i : Nat) : Nat → Fsm → Option Fsm
  | 0, s => some s
  | left + 1, s => do
      let tri ← triggerInfo E hit wf i
      triggerInfos hit wf (i + 3) left (s.addTrinfo tri)

def readTriggerinfo (s : Fsm) (blk : FzBlock) : Option Fsm :=
  let fee := blk.fee[0]?.getD {}
  let hit := fee.hit[0]?.getD {}
  let data := hit.data[0]?.getD {}
  let wf := data.waveform.getD {}
  match E.evformat with
  | .basic => s.triggerInfos E hit wf 0 ((wf.sample.length + 2) / 3)
  | .tag => some s

/-- The "fake block" that carries the trigger infos is read and taken off the event. -/
def endTriggerBlk (s : Fsm) : Option Fsm := do
  let blk := s.ev.getBlk s.blk
  let s ← (match E.evformat with
    | .basic => if blk.fee.length > 0 then s.readTriggerinfo E blk else some s
    | .tag => some s)
  some { s with ev := { s.ev with block := s.ev.block.dropLast } }

def trans16 (s : Fsm) (w : Word) : Option Fsm :=
  let s := { s with rdBlkcrc := crcblOf w }
  let s : Fsm :=
    if (s.blklen &&& 0x0FFF) + 2 = s.rdBlklen.toNat then
      s.onBlk fun b => { b with lenError := some false }
    else { s.onBlk fun b => { b with lenError := some true } with errInEvent := true }
  if s.rdBlkcrc = crcFold s.blkcrc then
    let s := s.onBlk fun b => { b with crcError := some false }
    if (s.ev.getBlk s.blk).blkid.getD 0 = 0x7FF then s.endTriggerBlk E else some s
  else some { s.onBlk fun b => { b with crcError := some true } with errInEvent := true }

def trans17 (s : Fsm) (w : Word) : Fsm := s.startBlk w

def trans18 (s : Fsm) (w : Word) : Fsm :=
  let s := { s with ev := { s.ev with regid := some (regidOf w).toUInt32 } }
  let isEmpty :=
    if s.ev.trinfo.length > 0 then false else !s.ev.block.any fun b => b.fee.length > 0
  let s := { s with eventIsEmpty := isEmpty }
  if isEmpty then
    { s with report := { s.report with eventsEmpty := s.report.eventsEmpty + 1 } }
  else
    let report :=
      if s.errInEvent then { s.report with eventsBad := s.report.eventsBad + 1 }
      else { s.report with eventsGood := s.report.eventsGood + 1 }
    { s with report := report, errInEvent := false }

end Fsm

end FzDaq.Parser
