import FzDaq.Writer.Rotation

/-!
# Writes that fail

A file is opened on a stream whose old file is closed, and `setup_newfile` closes the old
file only if nothing has failed on the stream. After a failure every further file fails
to open, and what is stored is still counted.
-/

namespace FzDaq.Writer

open FzDaq.Machine FzDaq.RunControl

namespace Fstream

/-- What `setup_newfile` does to the stream. -/
def renew (output : Fstream) (file : EventFile) (disk : Disk) : Fstream :=
  (if output.good then output.close disk else output).openFile file disk

variable {output : Fstream} {file : EventFile} {disk : Disk}

theorem renew_of_good (hgood : output.good = true) (hopened : disk.opened = true) :
    output.renew file disk = { file := some file, good := true } := by
  rw [renew, if_pos hgood, openFile]
  simp [close, hopened]

/-- The file of a stream that has failed stays open. -/
theorem renew_of_failed (hgood : output.good = false) (hfile : output.file.isSome = true) :
    output.renew file disk = output := by
  obtain ⟨old, hold⟩ := Option.isSome_iff_exists.1 hfile
  rw [renew, if_neg (by simp [hgood]), openFile, if_neg (by simp [hold]), ← hgood]

end Fstream

namespace FzWriter

variable {w : FzWriter} {op : Op} {message : List UInt8} {disk : Disk}

/-- The operation opens a file, with what the system answers to it. -/
def opens (w : FzWriter) : Op → Option Disk
  | .setRcstate s disk => if w.renews (.setRcstate s disk) then some disk else none
  | .setStore _ => none
  | .receive message disk =>
    if w.store && decide (w.cut message.length ≠ .none) then some disk else none

/-- A message is stored. -/
def stores (w : FzWriter) : Op → Bool
  | .receive _ _ => w.store
  | _ => false

/-- The write of a message that is stored fails. -/
def fails (w : FzWriter) : Op → Bool
  | .receive _ disk => w.store && !disk.written
  | _ => false

/-- The file that `setup_newfile` has opened last, in the state that it leaves. -/
def lastFile (w : FzWriter) (disk : Disk) : EventFile where
  dirstr := w.dirstr
  time := disk.time
  fileid := w.fileid - 1

/-! ## What an operation does to the stream and to the figures -/

/-- The stream behind the write of the operation, if there is one. -/
def wrote (w : FzWriter) : Op → Fstream
  | .receive _ disk => if w.store then w.output.write disk else w.output
  | _ => w.output

theorem setupNewfile_renew (w : FzWriter) (disk : Disk) :
    (w.setupNewfile disk).output =
      w.output.renew ((w.setupNewfile disk).lastFile disk) disk := by
  have hfile : (w.setupNewfile disk).lastFile disk =
      { dirstr := w.dirstr, time := disk.time, fileid := w.fileid } := by
    simp [setupNewfile, lastFile]
  rw [hfile]
  rfl

/-- A new directory leaves the stream and the figures to the new file. -/
theorem setupNewdir_output (w : FzWriter) (disk : Disk) :
    (w.setupNewdir disk).2.output = w.output ∧ (w.setupNewdir disk).2.files = w.files ∧
      (w.setupNewdir disk).2.report = w.report ∧
      (w.setupNewdir disk).2.lastOutEvents = w.lastOutEvents := by
  unfold setupNewdir
  dsimp only
  split <;> exact ⟨rfl, rfl, rfl, rfl⟩

theorem renewDir_renew (w : FzWriter) (disk : Disk) :
    (w.renewDir disk).output = w.output.renew ((w.renewDir disk).lastFile disk) disk := by
  have hrenew := setupNewfile_renew (w.setupNewdir disk).2 disk
  rw [(setupNewdir_output w disk).1] at hrenew
  exact hrenew

theorem renewDir_figures (w : FzWriter) (disk : Disk) :
    (w.renewDir disk).files = w.files ∧ (w.renewDir disk).report = w.report ∧
      (w.renewDir disk).lastOutEvents = w.lastOutEvents :=
  (setupNewdir_output w disk).2

theorem storeMessage_figures (w : FzWriter) (message : List UInt8) (disk : Disk) :
    (w.storeMessage message disk).files =
        w.files ++ ((w.reaches disk).map fun file => (file, message)).toList ∧
      (w.storeMessage message disk).lastOutEvents = w.report.outEvents + 1 := by
  unfold storeMessage
  dsimp only
  split
  · obtain ⟨hfiles, -, hlast⟩ := renewDir_figures { w.writeDataset message disk with
      lastOutBytes := (w.writeDataset message disk).report.outBytes + message.length
      lastOutEvents := (w.writeDataset message disk).report.outEvents + 1
      esize := (w.writeDataset message disk).esize + UInt64.ofNat message.length
      dsize := (w.writeDataset message disk).dsize + UInt64.ofNat message.length } disk
    exact ⟨hfiles, hlast⟩
  · split <;> exact ⟨rfl, rfl⟩

theorem storeMessage_output (w : FzWriter) (message : List UInt8) (disk : Disk) :
    (w.storeMessage message disk).output =
      if w.cut message.length = .none then w.output.write disk
      else (w.output.write disk).renew ((w.storeMessage message disk).lastFile disk) disk := by
  have hbox : (w.writeDataset message disk).dsize + UInt64.ofNat message.length >
      (w.writeDataset message disk).eventDirSize ↔ w.cut message.length = .box :=
    cut_box_iff.symm
  have hsheet : ¬w.cut message.length = .box → ((w.writeDataset message disk).esize +
      UInt64.ofNat message.length > (w.writeDataset message disk).eventFileSize ↔
        w.cut message.length = .sheet) := fun hdir =>
    ⟨fun hfull => cut_sheet_iff.2 ⟨fun hmore => hdir (cut_box_iff.2 hmore), hfull⟩,
      fun hcut => (cut_sheet_iff.1 hcut).2⟩
  unfold storeMessage
  dsimp only
  by_cases hdir : w.cut message.length = .box
  · rw [if_pos (hbox.2 hdir), if_neg (by rw [hdir]; exact Cut.noConfusion)]
    exact renewDir_renew _ disk
  · rw [if_neg fun hfull => hdir (hbox.1 hfull)]
    by_cases hfile : w.cut message.length = .sheet
    · rw [if_pos ((hsheet hdir).2 hfile), if_neg (by rw [hfile]; exact Cut.noConfusion)]
      exact setupNewfile_renew _ disk
    · have hnone : w.cut message.length = .none := by
        cases hcut : w.cut message.length with
        | none => rfl
        | sheet => exact absurd hcut hfile
        | box => exact absurd hcut hdir
      rw [if_neg fun hfull => hfile ((hsheet hdir).1 hfull), if_pos hnone]
      rfl

/-- What one operation does, as far as the stream and the figures are concerned. -/
structure Effect (w : FzWriter) (op : Op) (w' : FzWriter) : Prop where
  opened : ∀ disk, w.opens op = some disk →
    w'.output = (w.wrote op).renew (w'.lastFile disk) disk
  kept : w.opens op = none → w'.output = w.wrote op
  files : w'.files.length = w.files.length + if (w.storesIn op).isSome then 1 else 0
  counted : w.lastOutEvents = w.report.outEvents →
    w'.lastOutEvents = w'.report.outEvents ∧
      w'.report.outEvents = w.report.outEvents + if w.stores op then 1 else 0

/-- A message that has been taken in, before it is stored. -/
def takenIn (w : FzWriter) (message : List UInt8) : FzWriter :=
  { w with report := { w.report with
    inBytes := w.report.inBytes + message.length
    inEvents := w.report.inEvents + 1 } }

theorem receive_stored {w : FzWriter} (hstore : w.store = true) (message : List UInt8)
    (disk : Disk) : w.receive message disk = { (w.takenIn message).storeMessage message disk with
      report := { ((w.takenIn message).storeMessage message disk).report with
        outBytes := ((w.takenIn message).storeMessage message disk).lastOutBytes
        outEvents := ((w.takenIn message).storeMessage message disk).lastOutEvents } } := by
  unfold receive
  dsimp only
  rw [if_pos hstore]
  rfl

theorem receive_dropped {w : FzWriter} (hstore : ¬w.store = true) (message : List UInt8)
    (disk : Disk) : w.receive message disk = { w.takenIn message with
      report := { (w.takenIn message).report with
        outBytes := w.lastOutBytes, outEvents := w.lastOutEvents } } := by
  unfold receive
  dsimp only
  rw [if_neg hstore]
  rfl

theorem effect_receive_stored {w : FzWriter} (hstore : w.store = true) (message : List UInt8)
    (disk : Disk) : w.Effect (.receive message disk) (w.receive message disk) := by
  have hopens : w.opens (.receive message disk) =
      if w.cut message.length = .none then none else some disk := by
    by_cases hcut : w.cut message.length = .none <;> simp [opens, hstore, hcut]
  have hwrote : w.wrote (.receive message disk) = w.output.write disk := if_pos hstore
  have houtput : (w.receive message disk).output =
      if w.cut message.length = .none then w.output.write disk
      else (w.output.write disk).renew ((w.receive message disk).lastFile disk) disk := by
    rw [receive_stored hstore]
    exact storeMessage_output (w.takenIn message) message disk
  obtain ⟨hfiles, hlast⟩ := storeMessage_figures (w.takenIn message) message disk
  refine ⟨fun disk' hdisk => ?_, fun hnone => ?_, ?_, fun _ => ?_⟩
  · rw [hopens] at hdisk
    split at hdisk
    · cases hdisk
    · rename_i hcut
      rw [houtput, if_neg hcut, hwrote, ← Option.some.inj hdisk]
  · rw [hopens] at hnone
    split at hnone
    · rename_i hcut
      rw [houtput, if_pos hcut, hwrote]
    · cases hnone
  · have hreaches : (w.takenIn message).reaches disk = w.storesIn (.receive message disk) := by
      simp [storesIn, hstore, reaches, takenIn]
    rw [receive_stored hstore]
    dsimp only
    rw [hfiles, hreaches, List.length_append]
    cases w.storesIn (.receive message disk) <;> rfl
  · have hstores : w.stores (.receive message disk) = true := hstore
    rw [receive_stored hstore, hstores]
    exact ⟨rfl, hlast⟩

theorem effect_receive_dropped {w : FzWriter} (hstore : ¬w.store = true)
    (message : List UInt8) (disk : Disk) :
    w.Effect (.receive message disk) (w.receive message disk) := by
  have hopens : w.opens (.receive message disk) = none := by simp [opens, hstore]
  have hwrote : w.wrote (.receive message disk) = w.output := if_neg hstore
  have hnone : w.storesIn (.receive message disk) = none := by simp [storesIn, hstore]
  rw [receive_dropped hstore]
  refine ⟨fun disk' hdisk => ?_, fun _ => hwrote.symm, ?_, fun hsame => ⟨rfl, ?_⟩⟩
  · rw [hopens] at hdisk
    cases hdisk
  · rw [hnone]
    rfl
  · simp [stores, hstore, hsame]

theorem effect_receive (w : FzWriter) (message : List UInt8) (disk : Disk) :
    w.Effect (.receive message disk) (w.receive message disk) := by
  by_cases hstore : w.store = true
  · exact effect_receive_stored hstore message disk
  · exact effect_receive_dropped hstore message disk

theorem effect_setRcstate (w : FzWriter) (s : RCstate) (disk : Disk) :
    w.Effect (.setRcstate s disk) (w.setRcstate s disk) := by
  obtain ⟨hfiles, hreport, hlast⟩ := renewDir_figures w disk
  have hopens : w.opens (.setRcstate s disk) =
      if w.renews (.setRcstate s disk) then some disk else none := rfl
  rw [setRcstate_eq]
  split
  · rename_i hrenews
    rw [if_pos hrenews] at hopens
    refine ⟨fun disk' hdisk => ?_, fun hnone => ?_, ?_, fun hsame => ?_⟩
    · rw [hopens] at hdisk
      rw [← Option.some.inj hdisk]
      exact renewDir_renew w disk
    · rw [hopens] at hnone
      cases hnone
    · exact congrArg List.length hfiles
    · dsimp only
      rw [hreport, hlast]
      exact ⟨hsame, rfl⟩
  · rename_i hrenews
    rw [if_neg hrenews] at hopens
    refine ⟨fun disk' hdisk => ?_, fun _ => rfl, rfl, fun hsame => ⟨hsame, rfl⟩⟩
    rw [hopens] at hdisk
    cases hdisk

theorem effect_perform (w : FzWriter) (op : Op) : w.Effect op (w.perform op) := by
  cases op with
  | setRcstate s disk => exact effect_setRcstate w s disk
  | setStore value =>
    refine ⟨fun disk hdisk => ?_, fun _ => rfl, rfl, fun hsame => ⟨hsame, rfl⟩⟩
    cases hdisk
  | receive message disk => exact effect_receive w message disk

end FzWriter

/-- Files are opened on the disk that is there for the operation, if their stream is closed. -/
def Op.Opens : Op → Prop
  | .setRcstate _ disk => disk.opened = true
  | .setStore _ => True
  | .receive _ disk => disk.opened = true

/-- A writer with the file that the last `setup_newfile` was to open, and with what has
failed: a write since then, and a write at all. -/
structure Ledger where
  writer : FzWriter
  newfile : EventFile
  failed : Bool := false
  everFailed : Bool := false
  deriving DecidableEq, Repr

namespace Ledger

open FzWriter

variable {l : Ledger} {op : Op} {ops : List Op}

def step (l : Ledger) (op : Op) : Ledger :=
  let w := l.writer.perform op
  { writer := w
    newfile := ((l.writer.opens op).map w.lastFile).getD l.newfile
    failed := (l.failed || l.writer.fails op) && (l.writer.opens op).isNone
    everFailed := l.everFailed || l.writer.fails op }

/-- A writer as `main` sets it up. -/
def start (bdir run : String) (id : UInt32) (unset : Unset) (disk : Disk)
    (esize dsize : UInt64) : Ledger :=
  let w := ((FzWriter.create bdir run id unset disk).setEventfilesize esize).setEventdirsize dsize
  { writer := w, newfile := w.lastFile disk }

/-- `p` holds of each operation, in the state that it finds. -/
def AtOps (p : Ledger → Op → Prop) : Ledger → List Op → Prop
  | _, [] => True
  | l, op :: ops => p l op ∧ AtOps p (l.step op) ops

/-- The new file is open, and nothing has failed on it. -/
def Open (l : Ledger) : Prop := l.writer.output = { file := some l.newfile, good := true }

/-- The operation leaves a file that it opens open, and what it stores before the next
failure is written to the file that is open. -/
structure Refiles (l : Ledger) (op : Op) : Prop where
  opened : (l.writer.opens op).isSome → (l.step op).Open
  written : l.writer.stores op → (l.failed || l.writer.fails op) = false →
    l.writer.storesIn op = some l.newfile

/-- As many messages are reported as have reached a file. -/
def Counts (l : Ledger) (op : Op) : Prop :=
  (l.step op).writer.report.outEvents = (l.step op).writer.files.length

/-- The failure of a write has no effect on later files, and none on the figures. -/
structure Recovers (l : Ledger) (op : Op) : Prop where
  refiles : l.Refiles op
  counts : l.Counts op

/-- The write of the operation works, if there is one. -/
def Writes (l : Ledger) (op : Op) : Prop := l.writer.fails op = false

/-- No file is opened behind a write that has failed. -/
def InTime (l : Ledger) (op : Op) : Prop :=
  (l.writer.opens op).isSome → (l.step op).everFailed = false

/-! ## What holds in every run -/

/-- Before the first failure the stream is good and the figures are right; behind it
neither is the case ever again. -/
structure Sound (l : Ledger) : Prop where
  last : l.writer.lastOutEvents = l.writer.report.outEvents
  whole : l.everFailed = false →
    l.Open ∧ l.writer.report.outEvents = l.writer.files.length
  stuck : l.everFailed = true → l.writer.output.good = false ∧
    l.writer.output.file.isSome = true ∧ l.writer.files.length < l.writer.report.outEvents
  failed : l.failed = true → l.everFailed = true

theorem wrote_of_not_stores {w : FzWriter} (h : w.stores op = false) :
    w.wrote op = w.output ∧ w.storesIn op = none ∧ w.fails op = false := by
  cases op with
  | setRcstate s disk => exact ⟨rfl, rfl, rfl⟩
  | setStore value => exact ⟨rfl, rfl, rfl⟩
  | receive message disk =>
    have hstore : w.store = false := h
    simp [wrote, storesIn, fails, hstore]

/-- The stream behind the write while nothing has failed. -/
theorem Sound.wrote_whole (h : l.Sound) (hnever : (l.step op).everFailed = false) :
    l.writer.wrote op = { file := some l.newfile, good := true } ∧
      (l.writer.storesIn op).isSome = l.writer.stores op ∧
      (l.writer.stores op → l.writer.storesIn op = some l.newfile) := by
  obtain ⟨hever, hop⟩ := Bool.or_eq_false_iff.1 hnever
  have hopen : l.writer.output = { file := some l.newfile, good := true } := (h.whole hever).1
  cases hstores : l.writer.stores op with
  | false =>
    obtain ⟨hwrote, hnone, -⟩ := wrote_of_not_stores hstores
    rw [hwrote, hnone]
    exact ⟨hopen, rfl, fun htrue => absurd htrue (by decide)⟩
  | true =>
    cases op with
    | setRcstate s disk => cases hstores
    | setStore value => cases hstores
    | receive message disk =>
      have hstore : l.writer.store = true := hstores
      have hdisk : disk.written = true := by simpa [fails, hstore] using hop
      simp [wrote, storesIn, reaches, Fstream.write, hstore, hdisk, hopen]

/-- The stream behind the write when something has failed. -/
theorem Sound.wrote_stuck (h : l.Sound) (hfailed : (l.step op).everFailed = true) :
    (l.writer.wrote op).good = false ∧ (l.writer.wrote op).file.isSome = true ∧
      l.writer.storesIn op = none := by
  cases hstores : l.writer.stores op with
  | false =>
    obtain ⟨hwrote, hnone, hop⟩ := wrote_of_not_stores hstores
    have hever : l.everFailed = true := by
      rcases Bool.or_eq_true_iff.1 hfailed with hever | hfails
      · exact hever
      · rw [hop] at hfails
        cases hfails
    rw [hwrote]
    exact ⟨(h.stuck hever).1, (h.stuck hever).2.1, hnone⟩
  | true =>
    cases op with
    | setRcstate s disk => cases hstores
    | setStore value => cases hstores
    | receive message disk =>
      have hstore : l.writer.store = true := hstores
      cases hever : l.everFailed with
      | true =>
        obtain ⟨hgood, hfile, -⟩ := h.stuck hever
        simp [wrote, storesIn, reaches, Fstream.write, hstore, hgood, hfile]
      | false =>
        have hopen : l.writer.output = { file := some l.newfile, good := true } := (h.whole hever).1
        have hdisk : disk.written = false := by
          simpa [Ledger.step, fails, hstore, hever] using hfailed
        simp [wrote, storesIn, reaches, Fstream.write, hstore, hdisk, hopen]

theorem Sound.step_open (h : l.Sound) (hopens : op.Opens)
    (hnever : (l.step op).everFailed = false) : (l.step op).Open := by
  obtain ⟨hwrote, -, -⟩ := h.wrote_whole hnever
  have heffect := effect_perform l.writer op
  rw [Open, Ledger.step]
  cases hdisk : l.writer.opens op with
  | none => exact (heffect.kept hdisk).trans hwrote
  | some disk =>
    have hopened : disk.opened = true := by
      cases op with
      | setRcstate s disk' =>
        simp only [opens, Option.ite_none_right_eq_some, Option.some.injEq] at hdisk
        exact hdisk.2 ▸ hopens
      | setStore value => cases hdisk
      | receive message disk' =>
        simp only [opens, Option.ite_none_right_eq_some, Option.some.injEq] at hdisk
        exact hdisk.2 ▸ hopens
    have houtput := heffect.opened disk hdisk
    rw [hwrote, Fstream.renew_of_good rfl hopened] at houtput
    exact houtput

/-- Else the stream stays as the failure has left it. -/
theorem Sound.step_stuck (h : l.Sound) (hfailed : (l.step op).everFailed = true) :
    (l.step op).writer.output.good = false ∧ (l.step op).writer.output.file.isSome = true := by
  obtain ⟨hgood, hfile, -⟩ := h.wrote_stuck hfailed
  have heffect := effect_perform l.writer op
  have houtput : (l.step op).writer.output = l.writer.wrote op := by
    cases hdisk : l.writer.opens op with
    | none => exact heffect.kept hdisk
    | some disk => exact (heffect.opened disk hdisk).trans (Fstream.renew_of_failed hgood hfile)
  rw [houtput]
  exact ⟨hgood, hfile⟩

theorem Sound.step (h : l.Sound) (hopens : op.Opens) : (l.step op).Sound := by
  have heffect := effect_perform l.writer op
  obtain ⟨hlast, hcount⟩ := heffect.counted h.last
  have hfiles := heffect.files
  refine ⟨hlast, fun hnever => ⟨h.step_open hopens hnever, ?_⟩, fun hfailed => ?_, fun hsince => ?_⟩
  · obtain ⟨-, hsome, -⟩ := h.wrote_whole hnever
    have hbefore := (h.whole (Bool.or_eq_false_iff.1 hnever).1).2
    rw [hsome] at hfiles
    exact hcount.trans (by rw [hbefore, ← hfiles]; rfl)
  · obtain ⟨-, -, hnone⟩ := h.wrote_stuck hfailed
    rw [hnone] at hfiles
    refine ⟨(h.step_stuck hfailed).1, (h.step_stuck hfailed).2, ?_⟩
    change (l.writer.perform op).files.length < (l.writer.perform op).report.outEvents
    rw [hfiles, hcount]
    cases hever : l.everFailed with
    | true => exact Nat.lt_of_lt_of_le (h.stuck hever).2.2 (Nat.le_add_right ..)
    | false =>
      have hstores : l.writer.stores op = true := by
        by_contra hnot
        obtain ⟨-, -, hop⟩ := wrote_of_not_stores (Bool.eq_false_of_not_eq_true hnot)
        simp [Ledger.step, hever, hop] at hfailed
      rw [(h.whole hever).2, hstores]
      exact Nat.lt_succ_self _
  · have hsince := (Bool.and_eq_true_iff.1 hsince).1
    rcases Bool.or_eq_true_iff.1 hsince with hbefore | hop
    · exact Bool.or_eq_true_iff.2 (.inl (h.failed hbefore))
    · exact Bool.or_eq_true_iff.2 (.inr hop)

/-! ## Which runs recover -/

theorem Sound.counts_iff (h : l.Sound) (hopens : op.Opens) :
    l.Counts op ↔ (l.step op).everFailed = false := by
  constructor
  · intro hcounts
    by_contra hfailed
    exact Nat.ne_of_gt ((h.step hopens).stuck (Bool.eq_true_of_not_eq_false hfailed)).2.2 hcounts
  · exact fun hnever => ((h.step hopens).whole hnever).2

/-- While no file has been opened behind a failure. -/
theorem Sound.refiles_iff (h : l.Sound) (hsame : l.everFailed = l.failed) (hopens : op.Opens) :
    l.Refiles op ↔ l.InTime op := by
  constructor
  · intro hrefiles hdisk
    by_contra hfailed
    have hgood := (h.step_stuck (Bool.eq_true_of_not_eq_false hfailed)).1
    rw [hrefiles.opened hdisk] at hgood
    cases hgood
  · intro hintime
    refine ⟨fun hdisk => h.step_open hopens (hintime hdisk), fun hstores hnone => ?_⟩
    rw [← hsame] at hnone
    exact (h.wrote_whole hnone).2.2 hstores

theorem InTime.step (h : l.InTime op) (hsame : l.everFailed = l.failed) :
    (l.step op).everFailed = (l.step op).failed := by
  cases hdisk : (l.writer.opens op).isNone with
  | true => simp [Ledger.step, hdisk, hsame]
  | false =>
    have hnever := h (by simpa using hdisk)
    rw [hnever]
    simp [Ledger.step, hdisk]

theorem atOps_refiles_iff (h : l.Sound) (hsame : l.everFailed = l.failed)
    (hopens : ∀ op ∈ ops, op.Opens) : AtOps Refiles l ops ↔ AtOps InTime l ops := by
  induction ops generalizing l with
  | nil => exact Iff.rfl
  | cons op ops ih =>
    obtain ⟨hop, hops⟩ := List.forall_mem_cons.1 hopens
    exact (and_congr_left' (h.refiles_iff hsame hop)).trans
      (and_congr_right fun hintime => ih (h.step hop) (hintime.step hsame) hops)

theorem atOps_recovers_iff (h : l.Sound) (hsame : l.everFailed = l.failed)
    (hnever : l.everFailed = false) (hopens : ∀ op ∈ ops, op.Opens) :
    AtOps Recovers l ops ↔ AtOps Writes l ops := by
  induction ops generalizing l with
  | nil => exact Iff.rfl
  | cons op ops ih =>
    obtain ⟨hop, hops⟩ := List.forall_mem_cons.1 hopens
    have hwrites : l.Writes op ↔ (l.step op).everFailed = false := by
      simp [Writes, Ledger.step, hnever]
    have hrecovers : l.Recovers op ↔ l.Writes op := by
      rw [hwrites]
      constructor
      · exact fun hrec => (h.counts_iff hop).1 hrec.counts
      · exact fun hnext =>
          ⟨(h.refiles_iff hsame hop).2 fun _ => hnext, (h.counts_iff hop).2 hnext⟩
    refine (and_congr_left' hrecovers).trans (and_congr_right fun hwrite => ?_)
    have hnext := hwrites.1 hwrite
    have hintime : l.InTime op := fun _ => hnext
    exact ih (h.step hop) (hintime.step hsame) hnext hops

theorem start_open (bdir run : String) (id : UInt32) (unset : Unset) {disk : Disk}
    (hopened : disk.opened = true) (esize dsize : UInt64) :
    (start bdir run id unset disk esize dsize).Open := by
  have hrenew := setupNewfile_renew (setupNewdir
    { store := true
      basedir := bdir
      runtag := run
      dirid := id
      rcstate := .idle
      startNewdir := true
      eventFileSize := unset.eventFileSize
      eventDirSize := unset.eventDirSize
      esize := unset.esize
      dsize := unset.dsize
      fileid := unset.fileid } disk).2 disk
  rw [(setupNewdir_output _ disk).1, Fstream.renew_of_good rfl hopened] at hrenew
  exact hrenew

theorem start_sound (bdir run : String) (id : UInt32) (unset : Unset) {disk : Disk}
    (hopened : disk.opened = true) (esize dsize : UInt64) :
    (start bdir run id unset disk esize dsize).Sound :=
  ⟨rfl, fun _ => ⟨start_open bdir run id unset hopened esize dsize, rfl⟩,
    fun hever => absurd hever Bool.false_ne_true, fun hfailed => absurd hfailed Bool.false_ne_true⟩

/-- A run recovers from its failures if there are none. It is only the figures that a
failure behind which no file is opened makes wrong. -/
theorem recovers_iff (bdir run : String) (id : UInt32) (unset : Unset) (disk : Disk)
    (esize dsize : UInt64) (ops : List Op) (hopened : disk.opened = true)
    (hopens : ∀ op ∈ ops, op.Opens) :
    (start bdir run id unset disk esize dsize).Open ∧
      (AtOps Recovers (start bdir run id unset disk esize dsize) ops ↔
        AtOps Writes (start bdir run id unset disk esize dsize) ops) ∧
      (AtOps Refiles (start bdir run id unset disk esize dsize) ops ↔
        AtOps InTime (start bdir run id unset disk esize dsize) ops) := by
  have hsound := start_sound bdir run id unset hopened esize dsize
  exact ⟨start_open bdir run id unset hopened esize dsize,
    atOps_recovers_iff hsound rfl rfl hopens, atOps_refiles_iff hsound rfl hopens⟩

/-- A message that is longer than the buffer of a stream, so that it is written at once. -/
def longMessage : List UInt8 := List.replicate 9000 0

/-- A run in which one message fills the file, and the write of the next one fails. -/
def lastWriteFails : List Op :=
  [.setRcstate .ready {}, .setRcstate .running {}, .receive (1 :: longMessage) {},
    .receive longMessage { written := false }]

/-- `recovers_iff` at this run: no file is opened behind the failure. -/
theorem recovers_lastWriteFails :
    (start "data" "run" 0 {} {} 9000 100000).Open ∧
      AtOps Refiles (start "data" "run" 0 {} {} 9000 100000) lastWriteFails := by
  obtain ⟨hopen, -, hrefiles⟩ := recovers_iff "data" "run" 0 {} {} 9000 100000 lastWriteFails rfl
    (by simp [lastWriteFails, Op.Opens])
  have hlen : longMessage.length = 9000 := List.length_replicate
  refine ⟨hopen, hrefiles.2 ⟨?_, ?_, ?_, ?_, trivial⟩⟩
  · exact fun _ => rfl
  · exact fun _ => rfl
  · exact fun _ => rfl
  · -- The file is not full behind the second message.
    intro hopens
    simp [start, step, FzWriter.create, FzWriter.setEventfilesize, FzWriter.setEventdirsize,
      FzWriter.setupNewdir, FzWriter.setupNewfile, FzWriter.perform, FzWriter.setRcstate,
      FzWriter.starts, FzWriter.receive, FzWriter.storeMessage, FzWriter.writeDataset,
      FzWriter.reaches, FzWriter.opens, FzWriter.cut, Fstream.write, Fstream.close,
      Fstream.openFile, hlen] at hopens

/-- A run in which the write fails of the message that fills the file. -/
def fillingWriteFails : List Op :=
  [.setRcstate .ready {}, .setRcstate .running {}, .receive longMessage { written := false },
    .receive [3] {}]

theorem fillingWriteFails_figures :
    (fillingWriteFails.foldl step (start "data" "run" 0 {} {} 4000 100000)).writer.files = [] ∧
      (fillingWriteFails.foldl step
        (start "data" "run" 0 {} {} 4000 100000)).writer.report.outEvents = 2 := by
  have hlen : longMessage.length = 9000 := List.length_replicate
  simp [fillingWriteFails, step, start, FzWriter.create, FzWriter.setEventfilesize,
    FzWriter.setEventdirsize, FzWriter.setupNewdir, FzWriter.setupNewfile, FzWriter.perform,
    FzWriter.setRcstate, FzWriter.starts, FzWriter.receive, FzWriter.storeMessage,
    FzWriter.writeDataset, FzWriter.reaches, Fstream.write, Fstream.close, Fstream.openFile, hlen]

/-- The next file is not opened, and the message behind it is lost and counted. -/
theorem not_recovers_fillingWriteFails :
    ¬AtOps Recovers (start "data" "run" 0 {} {} 4000 100000) fillingWriteFails ∧
      (fillingWriteFails.foldl step (start "data" "run" 0 {} {} 4000 100000)).writer.files = [] ∧
      (fillingWriteFails.foldl step
        (start "data" "run" 0 {} {} 4000 100000)).writer.report.outEvents = 2 := by
  obtain ⟨hfiles, hevents⟩ := fillingWriteFails_figures
  refine ⟨fun h => ?_, hfiles, hevents⟩
  have hcounts : (fillingWriteFails.foldl step
      (start "data" "run" 0 {} {} 4000 100000)).writer.report.outEvents =
      (fillingWriteFails.foldl step (start "data" "run" 0 {} {} 4000 100000)).writer.files.length :=
    h.2.2.2.1.counts
  rw [hfiles, hevents] at hcounts
  cases hcounts

end Ledger

end FzDaq.Writer
