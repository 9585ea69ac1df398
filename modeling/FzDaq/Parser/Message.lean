import FzDaq.Parser.Word

/-!
# The messages of `FzEventSet.proto`

A `required` or `optional` field that has not been set is `none`; reading it
gives the default of its type. Enumerations that the parser fills with
unchecked bit fields are numbers, with the declared values listed; `FzDataType`
is only ever assigned declared values and is an inductive type.
-/

namespace FzDaq.Parser

/-! ## Enumerations -/

inductive FzDataType where
  | QH1 | I1 | QL1 | Q2 | I2 | Q3 | ADC | UNKDT
  deriving DecidableEq, Repr

namespace FzFec

def FEC0 : Nat := 0
def FEC7 : Nat := 7
def ADCF : Nat := 15
def UNKFEC : Nat := 16

/-- The numbers that `enum FzFec` declares, in `FzHit` and in `FzFee` alike. -/
def isValid (n : Nat) : Bool := n ≤ FEC7 || n = ADCF || n = UNKFEC

end FzFec

namespace FzTelescope

def A : Nat := 0
def B : Nat := 1
def UNKT : Nat := 2

/-- The numbers that `enum FzTelescope` declares. -/
def isValid (n : Nat) : Bool := n ≤ UNKT

end FzTelescope

namespace FzDetector

def Si1 : Nat := 0
def Si2 : Nat := 1
def CsI : Nat := 2
def UNKD : Nat := 3

/-- The numbers that `enum FzDetector` declares. -/
def isValid (n : Nat) : Bool := n ≤ UNKD

end FzDetector

/-! ## Messages -/

structure Energy where
  value : List UInt32 := []
  lenError : Option Bool := none
  deriving Repr

structure Waveform where
  pretrig : Option UInt32 := none
  sample : List Nat := []
  lenError : Option Bool := none
  deriving Repr

structure FzData where
  type : Option FzDataType := none
  energy : Option Energy := none
  waveform : Option Waveform := none
  sine : Option Int64 := none
  cosine : Option Int64 := none
  baseline : Option Float32 := none
  deriving Repr

structure FzHit where
  ec : Option UInt32 := none
  telid : Option Nat := none
  detid : Option Nat := none
  feeid : Option Nat := none
  gttag : Option UInt32 := none
  dettag : Option UInt32 := none
  data : List FzData := []
  trigpat : Option UInt32 := none
  deriving Repr

structure FzFee where
  feeid : Option Nat := none
  hit : List FzHit := []
  lenError : Option Bool := none
  crcError : Option Bool := none
  deriving Repr

structure FzBlock where
  blkid : Option UInt32 := none
  fee : List FzFee := []
  lenError : Option Bool := none
  crcError : Option Bool := none
  deriving Repr

structure FzTrigInfo where
  id : Option UInt32 := none
  attr : Option String := none
  value : Option UInt64 := none
  deriving Repr

structure FzEvent where
  ec : Option UInt32 := none
  block : List FzBlock := []
  regid : Option UInt32 := none
  trinfo : List FzTrigInfo := []
  deriving Repr

/-! ## What a receiver accepts

`isInitialized` is the test of a message that has been received: every
`required` field is set and every required enumeration holds a declared value,
here and in all nested messages. -/

def Energy.isInitialized (en : Energy) : Bool := en.lenError.isSome

def Waveform.isInitialized (wf : Waveform) : Bool := wf.pretrig.isSome && wf.lenError.isSome

def FzData.isInitialized (d : FzData) : Bool :=
  d.type.isSome && d.energy.all Energy.isInitialized && d.waveform.all Waveform.isInitialized

def FzHit.isInitialized (h : FzHit) : Bool :=
  h.ec.isSome && h.telid.any FzTelescope.isValid && h.detid.any FzDetector.isValid &&
    h.feeid.any FzFec.isValid && h.gttag.isSome && h.dettag.isSome &&
    h.data.all FzData.isInitialized

def FzFee.isInitialized (r : FzFee) : Bool :=
  r.feeid.any FzFec.isValid && r.hit.all FzHit.isInitialized && r.lenError.isSome &&
    r.crcError.isSome

def FzBlock.isInitialized (b : FzBlock) : Bool :=
  b.blkid.isSome && b.fee.all FzFee.isInitialized && b.lenError.isSome && b.crcError.isSome

def FzTrigInfo.isInitialized (t : FzTrigInfo) : Bool :=
  t.id.isSome && t.attr.isSome && t.value.isSome

def FzEvent.isInitialized (e : FzEvent) : Bool :=
  e.ec.isSome && e.block.all FzBlock.isInitialized && e.regid.isSome &&
    e.trinfo.all FzTrigInfo.isInitialized

/-! ## Cursors into the tree

The parser holds pointers to the messages it is filling. A pointer is the path
of indices that leads to the message from the event. -/

abbrev BlkPtr := Nat

structure FeePtr where
  blk : Nat
  fee : Nat
  deriving DecidableEq, Repr

structure HitPtr where
  blk : Nat
  fee : Nat
  hit : Nat
  deriving DecidableEq, Repr

structure DataPtr where
  blk : Nat
  fee : Nat
  hit : Nat
  data : Nat
  deriving DecidableEq, Repr

namespace FzEvent

def getBlk (e : FzEvent) (p : BlkPtr) : FzBlock := e.block[p]?.getD {}

def getFee (e : FzEvent) (p : FeePtr) : FzFee := (e.getBlk p.blk).fee[p.fee]?.getD {}

def getHit (e : FzEvent) (p : HitPtr) : FzHit :=
  (e.getFee ⟨p.blk, p.fee⟩).hit[p.hit]?.getD {}

def getData (e : FzEvent) (p : DataPtr) : FzData :=
  (e.getHit ⟨p.blk, p.fee, p.hit⟩).data[p.data]?.getD {}

def modBlk (e : FzEvent) (p : BlkPtr) (f : FzBlock → FzBlock) : FzEvent :=
  { e with block := e.block.modify p f }

def modFee (e : FzEvent) (p : FeePtr) (f : FzFee → FzFee) : FzEvent :=
  e.modBlk p.blk fun b => { b with fee := b.fee.modify p.fee f }

def modHit (e : FzEvent) (p : HitPtr) (f : FzHit → FzHit) : FzEvent :=
  e.modFee ⟨p.blk, p.fee⟩ fun r => { r with hit := r.hit.modify p.hit f }

def modData (e : FzEvent) (p : DataPtr) (f : FzData → FzData) : FzEvent :=
  e.modHit ⟨p.blk, p.fee, p.hit⟩ fun h => { h with data := h.data.modify p.data f }

end FzEvent

end FzDaq.Parser
