import FzDaq.Machine.Decimal
import FzDaq.RunControl.RCFSM

/-!
# `FzWriter`

The writer stores the messages that it receives in files, the files in directories
of limited size, and takes a new directory at the start of a run. What the file
system and the clock answer to an operation is given with it, as a `Disk`.
-/

namespace FzDaq.Writer

open FzDaq.Machine FzDaq.RunControl

inductive DirStatus where
  | dirOk
  | dirExists
  | dirFail
  deriving DecidableEq, Repr

/-- An entry of the base directory; `isDir` is `d_type == DT_DIR`. -/
structure Dirent where
  isDir : Bool
  dName : String
  deriving DecidableEq, Repr

/-- The file `dirstr/FzEventSet-time-fileid.pb`. -/
structure EventFile where
  dirstr : String
  time : Nat
  fileid : UInt32
  deriving DecidableEq, Repr

/-- What the system answers to the calls made in one operation. -/
structure Disk where
  entries : List Dirent := []
  time : Nat := 0
  /-- `mkdir` finds the name taken. -/
  taken : Bool := false
  /-- A write reaches the open file. -/
  written : Bool := true
  /-- The buffer is flushed when the file is closed. -/
  flushed : Bool := true
  opened : Bool := true
  deriving DecidableEq, Repr

/-- `std::fstream`, as far as the writer uses it. -/
structure Fstream where
  file : Option EventFile := none
  good : Bool := true
  deriving DecidableEq, Repr

namespace Fstream

def write (output : Fstream) (disk : Disk) : Fstream :=
  { output with good := output.good && output.file.isSome && disk.written }

def close (output : Fstream) (disk : Disk) : Fstream :=
  { file := none, good := output.good && output.file.isSome && disk.flushed }

/-- Opening fails on a stream that has a file open; it clears the status if it succeeds. -/
def openFile (output : Fstream) (file : EventFile) (disk : Disk) : Fstream :=
  if output.file.isNone && disk.opened then { file := some file, good := true }
  else { output with good := false }

end Fstream

/-- The message `Report::FzWriter`. -/
structure WriterReport where
  inBytes : Nat := 0
  inEvents : Nat := 0
  outBytes : Nat := 0
  outEvents : Nat := 0
  deriving DecidableEq, Repr

/-- The writer, with the two locals of `process` and with the messages that have
reached a file. -/
structure FzWriter where
  startNewdir : Bool
  firstrun : Bool := true
  eventFileSize : UInt64
  eventDirSize : UInt64
  esize : UInt64
  dsize : UInt64
  basedir : String
  runtag : String
  fileid : UInt32
  dirid : UInt32
  dirstr : String := ""
  store : Bool
  output : Fstream := {}
  report : WriterReport := {}
  rcstate : RCstate
  lastOutBytes : Nat := 0
  lastOutEvents : Nat := 0
  files : List (EventFile × List UInt8) := []
  deriving DecidableEq, Repr

/-- The members that the constructor leaves unset. -/
structure Unset where
  eventFileSize : UInt64 := 0
  eventDirSize : UInt64 := 0
  esize : UInt64 := 0
  dsize : UInt64 := 0
  fileid : UInt32 := 0

/-- `sscanf(name, "%*[^0123456789]%d", &num)`: nothing is read unless a digit follows
something that is not a digit. The number is read as a `long`, with `LONG_MAX` for what
does not fit, and stored as an `int`. -/
def scanRunid (name : String) : Option Int32 :=
  let digits := (name.toList.dropWhile fun c => !c.isDigit).takeWhile Char.isDigit
  if (name.toList.takeWhile fun c => !c.isDigit).isEmpty || digits.isEmpty then none
  else some (Int32.ofNat (min (Nat.ofDigitChars 10 digits 0) (2 ^ 63 - 1)))

/-- `runtag` followed by the id with at least six digits. -/
def dirName (basedir runtag : String) (dirid : UInt32) : String :=
  basedir ++ "/" ++ (runtag ++ String.ofList (zeroPadded 6 dirid.toNat))

theorem dirName_injective {basedir runtag : String} {m n : UInt32}
    (h : dirName basedir runtag m = dirName basedir runtag n) : m = n := by
  have hchars := congrArg String.toList h
  simp only [dirName, String.toList_append, String.toList_ofList, List.append_cancel_left_eq]
    at hchars
  exact UInt32.toNat_inj.1 (zeroPadded_injective 6 hchars)

namespace FzWriter

/-- One turn of the loop over the entries, with `num` and `max`. -/
def scanEntry (runtag : String) (acc : Int32 × Int32) (entry : Dirent) : Int32 × Int32 :=
  if entry.isDir && decide (runtag.toList <:+: entry.dName.toList) then
    let num := (scanRunid entry.dName).getD acc.1
    (num, if num > acc.2 then num else acc.2)
  else acc

def getMaxRunid (w : FzWriter) (disk : Disk) : Int32 :=
  (disk.entries.foldl (scanEntry w.runtag) (w.dirid.toInt32, w.dirid.toInt32)).2

def setupNewdir (w : FzWriter) (disk : Disk) : DirStatus × FzWriter :=
  let w := if w.firstrun then
    { w with dirid := (w.getMaxRunid disk + 1).toUInt32, firstrun := false }
  else w
  let w := { w with dirstr := dirName w.basedir w.runtag w.dirid }
  -- The other test is `status != 0`, on a status that is `DIR_OK`.
  let status := if disk.taken then .dirExists else .dirOk
  (status, { w with dirid := w.dirid + 1 })

def setupNewfile (w : FzWriter) (disk : Disk) : FzWriter :=
  let output := if w.output.good then w.output.close disk else w.output
  let file := { dirstr := w.dirstr, time := disk.time, fileid := w.fileid }
  { w with output := output.openFile file disk, fileid := w.fileid + 1 }

/-- `setup_newdir(); setup_newfile(); esize = dsize = 0;`. -/
def renewDir (w : FzWriter) (disk : Disk) : FzWriter :=
  { (w.setupNewdir disk).2.setupNewfile disk with esize := 0, dsize := 0 }

/-- The constructor. -/
def create (bdir run : String) (id : UInt32) (unset : Unset) (disk : Disk) : FzWriter :=
  let w : FzWriter :=
    { store := true
      basedir := bdir
      runtag := run
      dirid := id
      rcstate := .idle
      startNewdir := true
      eventFileSize := unset.eventFileSize
      eventDirSize := unset.eventDirSize
      esize := unset.esize
      dsize := unset.dsize
      fileid := unset.fileid }
  (w.setupNewdir disk).2.setupNewfile disk

def setEventfilesize (w : FzWriter) (size : UInt64) : FzWriter := { w with eventFileSize := size }

def setEventdirsize (w : FzWriter) (size : UInt64) : FzWriter := { w with eventDirSize := size }

/-- A message reaches the file that is open. -/
def reaches (w : FzWriter) (disk : Disk) : Option EventFile :=
  if w.output.good && disk.written then w.output.file else none

def writeDataset (w : FzWriter) (message : List UInt8) (disk : Disk) : FzWriter :=
  { w with
    output := w.output.write disk
    files := w.files ++ ((w.reaches disk).map fun file => (file, message)).toList }

/-- The body of the branch `if(store)`. -/
def storeMessage (w : FzWriter) (message : List UInt8) (disk : Disk) : FzWriter :=
  let w := w.writeDataset message disk
  let size := UInt64.ofNat message.length
  let w := { w with
    lastOutBytes := w.report.outBytes + message.length
    lastOutEvents := w.report.outEvents + 1
    esize := w.esize + size
    dsize := w.dsize + size }
  if w.dsize > w.eventDirSize then w.renewDir disk
  else if w.esize > w.eventFileSize then { w.setupNewfile disk with esize := 0 }
  else w

/-- The turn of `process` in which `recv` delivers a message. `recv` waits up to a second
behind the test for `RUNNING`, so that the state may have changed meanwhile. -/
def receive (w : FzWriter) (message : List UInt8) (disk : Disk) : FzWriter :=
  let w := { w with report := { w.report with
    inBytes := w.report.inBytes + message.length
    inEvents := w.report.inEvents + 1 } }
  let w := if w.store then w.storeMessage message disk else w
  { w with report := { w.report with
    outBytes := w.lastOutBytes
    outEvents := w.lastOutEvents } }

/-- The state `s` starts a run. -/
def starts (w : FzWriter) (s : RCstate) : Bool :=
  (w.rcstate == .paused || w.rcstate == .ready) && s == .running

def setRcstate (w : FzWriter) (s : RCstate) (disk : Disk) : FzWriter :=
  let w := if w.starts s then
    let w := if !w.startNewdir then
      if w.store then w.renewDir disk else w
    else w
    { w with startNewdir := false }
  else w
  { w with rcstate := s }

def setStore (w : FzWriter) (value : Bool) : FzWriter := { w with store := value }

end FzWriter

end FzDaq.Writer
