import FzDaq.Machine.Journal
import FzDaq.Writer.FzWriter

/-!
# Runs and directories

A run starts each time the writer goes from PAUSED or READY to RUNNING. The messages
of two runs are kept in different directories unless a run that was started with
storing off goes on with a directory of an earlier run.
-/

namespace FzDaq.Writer

open FzDaq.Machine FzDaq.RunControl

/-- What is done to a writer, by the node manager and by the parsers. -/
inductive Op where
  | setRcstate (s : RCstate) (disk : Disk)
  | setStore (value : Bool)
  | receive (message : List UInt8) (disk : Disk)
  deriving DecidableEq, Repr

namespace FzWriter

variable {w : FzWriter} {disk : Disk} {s : RCstate} {message : List UInt8}

/-- The operation takes a new directory. -/
def renews (w : FzWriter) : Op → Bool
  | .setRcstate s _ => w.starts s && !w.startNewdir && w.store
  | .setStore _ => false
  | .receive message _ =>
    w.store && decide (w.dsize + UInt64.ofNat message.length > w.eventDirSize)

/-- The file that the message of the operation reaches, if it is stored. -/
def storesIn (w : FzWriter) : Op → Option EventFile
  | .receive _ disk => if w.store then w.reaches disk else none
  | _ => none

/-- The writer is in the directory of an id, and so is the file that it has open. -/
structure In (w : FzWriter) (base tag : String) (id : UInt32) : Prop where
  firstrun : w.firstrun = false
  basedir : w.basedir = base
  runtag : w.runtag = tag
  dirstr : w.dirstr = dirName base tag id
  dirid : w.dirid = id + 1
  output : w.output.good = true → ∃ file, w.output.file = some file ∧ file.dirstr = w.dirstr

theorem openFile_good {output : Fstream} {file : EventFile}
    (h : (output.openFile file disk).good = true) :
    (output.openFile file disk).file = some file := by
  unfold Fstream.openFile at h ⊢
  split
  · rfl
  · rename_i hfails
    rw [if_neg hfails] at h
    exact absurd h Bool.false_ne_true

theorem setupNewfile_output (w : FzWriter) (disk : Disk) :
    (w.setupNewfile disk).output.good = true →
      ∃ file, (w.setupNewfile disk).output.file = some file ∧ file.dirstr = w.dirstr :=
  fun hgood => ⟨_, openFile_good hgood, rfl⟩

variable {base tag : String} {id : UInt32}

theorem In.setupNewfile (h : w.In base tag id) (disk : Disk) :
    (w.setupNewfile disk).In base tag id where
  firstrun := h.firstrun
  basedir := h.basedir
  runtag := h.runtag
  dirstr := h.dirstr
  dirid := h.dirid
  output := setupNewfile_output w disk

theorem In.renewDir (h : w.In base tag id) (disk : Disk) :
    (w.renewDir disk).In base tag (id + 1) := by
  have hdir : (w.setupNewdir disk).2 =
      { w with dirstr := dirName base tag (id + 1), dirid := id + 1 + 1 } := by
    simp [setupNewdir, h.firstrun, h.basedir, h.runtag, h.dirid]
  rw [FzWriter.renewDir, hdir]
  exact ⟨h.firstrun, h.basedir, h.runtag, rfl, rfl, setupNewfile_output _ disk⟩

theorem In.create (bdir run : String) (id : UInt32) (unset : Unset) (disk : Disk) :
    ∃ first, (create bdir run id unset disk).In bdir run first :=
  ⟨_, rfl, rfl, rfl, rfl, rfl, setupNewfile_output _ disk⟩

theorem In.writeDataset (h : w.In base tag id) (message : List UInt8) (disk : Disk) :
    (w.writeDataset message disk).In base tag id where
  firstrun := h.firstrun
  basedir := h.basedir
  runtag := h.runtag
  dirstr := h.dirstr
  dirid := h.dirid
  output hgood := by
    simp only [FzWriter.writeDataset, Fstream.write, Bool.and_eq_true] at hgood
    exact h.output hgood.1.1

/-- The id behind an operation. -/
def idBehind (w : FzWriter) (op : Op) (id : UInt32) : UInt32 := if w.renews op then id + 1 else id

theorem In.storeMessage (h : w.In base tag id) (message : List UInt8) (disk : Disk) :
    (w.storeMessage message disk).In base tag
      (if w.dsize + UInt64.ofNat message.length > w.eventDirSize then id + 1 else id) := by
  have hwrite := h.writeDataset message disk
  unfold FzWriter.storeMessage
  dsimp only
  have hcount : In { w.writeDataset message disk with
      lastOutBytes := (w.writeDataset message disk).report.outBytes + message.length
      lastOutEvents := (w.writeDataset message disk).report.outEvents + 1
      esize := (w.writeDataset message disk).esize + UInt64.ofNat message.length
      dsize := (w.writeDataset message disk).dsize + UInt64.ofNat message.length } base tag id :=
    ⟨hwrite.firstrun, hwrite.basedir, hwrite.runtag, hwrite.dirstr, hwrite.dirid, hwrite.output⟩
  by_cases hfull : w.dsize + UInt64.ofNat message.length > w.eventDirSize
  · rw [if_pos hfull, if_pos (show (w.writeDataset message disk).dsize +
      UInt64.ofNat message.length > (w.writeDataset message disk).eventDirSize from hfull)]
    exact hcount.renewDir disk
  · rw [if_neg hfull, if_neg (show ¬ (w.writeDataset message disk).dsize +
      UInt64.ofNat message.length > (w.writeDataset message disk).eventDirSize from hfull)]
    split
    · have hfile := hcount.setupNewfile disk
      exact ⟨hfile.firstrun, hfile.basedir, hfile.runtag, hfile.dirstr, hfile.dirid, hfile.output⟩
    · exact hcount

theorem In.receive (h : w.In base tag id) (message : List UInt8) (disk : Disk) :
    (w.receive message disk).In base tag (w.idBehind (.receive message disk) id) := by
  by_cases hstore : w.store = true
  · have hid : w.idBehind (.receive message disk) id =
        if w.dsize + UInt64.ofNat message.length > w.eventDirSize then id + 1 else id := by
      simp [idBehind, renews, hstore]
    rw [hid]
    unfold FzWriter.receive
    dsimp only
    rw [if_pos hstore]
    have hmsg := In.storeMessage (w := { w with report := { w.report with
      inBytes := w.report.inBytes + message.length
      inEvents := w.report.inEvents + 1 } })
      ⟨h.firstrun, h.basedir, h.runtag, h.dirstr, h.dirid, h.output⟩ message disk
    exact ⟨hmsg.firstrun, hmsg.basedir, hmsg.runtag, hmsg.dirstr, hmsg.dirid, hmsg.output⟩
  · have hid : w.idBehind (.receive message disk) id = id := by
      simp [idBehind, renews, hstore]
    rw [hid]
    unfold FzWriter.receive
    dsimp only
    rw [if_neg hstore]
    exact ⟨h.firstrun, h.basedir, h.runtag, h.dirstr, h.dirid, h.output⟩

theorem setRcstate_eq (w : FzWriter) (s : RCstate) (disk : Disk) :
    w.setRcstate s disk =
      { (if w.renews (.setRcstate s disk) then w.renewDir disk else w) with
        startNewdir := w.startNewdir && !w.starts s
        rcstate := s } := by
  cases hstarts : w.starts s <;> cases hfirst : w.startNewdir <;> cases hstore : w.store <;>
    simp [FzWriter.setRcstate, renews, hstarts, hfirst, hstore]

theorem In.setRcstate (h : w.In base tag id) (s : RCstate) (disk : Disk) :
    (w.setRcstate s disk).In base tag (w.idBehind (.setRcstate s disk) id) := by
  rw [setRcstate_eq, idBehind]
  split
  · have hrenew := h.renewDir disk
    exact ⟨hrenew.firstrun, hrenew.basedir, hrenew.runtag, hrenew.dirstr, hrenew.dirid,
      hrenew.output⟩
  · exact ⟨h.firstrun, h.basedir, h.runtag, h.dirstr, h.dirid, h.output⟩

def perform (w : FzWriter) : Op → FzWriter
  | .setRcstate s disk => w.setRcstate s disk
  | .setStore value => w.setStore value
  | .receive message disk => w.receive message disk

theorem In.perform (h : w.In base tag id) (op : Op) :
    (w.perform op).In base tag (w.idBehind op id) := by
  cases op with
  | setRcstate s disk => exact h.setRcstate s disk
  | setStore value => exact ⟨h.firstrun, h.basedir, h.runtag, h.dirstr, h.dirid, h.output⟩
  | receive message disk => exact h.receive message disk

/-- The operation starts a run. -/
def startsRun (w : FzWriter) : Op → Bool
  | .setRcstate s _ => w.starts s
  | _ => false

theorem renewDir_startNewdir (w : FzWriter) (disk : Disk) :
    (w.renewDir disk).startNewdir = w.startNewdir := by
  unfold FzWriter.renewDir setupNewdir
  dsimp only
  split <;> rfl

theorem storeMessage_startNewdir (w : FzWriter) (message : List UInt8) (disk : Disk) :
    (w.storeMessage message disk).startNewdir = w.startNewdir := by
  unfold FzWriter.storeMessage
  dsimp only
  split
  · exact renewDir_startNewdir _ disk
  · split <;> rfl

theorem perform_startNewdir (w : FzWriter) (op : Op) :
    (w.perform op).startNewdir = (w.startNewdir && !w.startsRun op) := by
  cases op with
  | setRcstate s disk => rw [perform, setRcstate_eq, startsRun]
  | setStore value => simp [perform, setStore, startsRun]
  | receive message disk =>
    have hstarts : w.startsRun (.receive message disk) = false := rfl
    rw [hstarts, Bool.not_false, Bool.and_true]
    unfold perform FzWriter.receive
    dsimp only
    split
    · exact storeMessage_startNewdir _ message disk
    · rfl

theorem storesIn_dirstr (h : w.In base tag id) {op : Op} {file : EventFile}
    (hfile : w.storesIn op = some file) : file.dirstr = dirName base tag id := by
  cases op with
  | setRcstate s disk => cases hfile
  | setStore value => cases hfile
  | receive message disk =>
    unfold storesIn reaches at hfile
    dsimp only at hfile
    split at hfile
    · split at hfile
      · rename_i hgood
        obtain ⟨open_, hopen, hdir⟩ := h.output (Bool.and_eq_true_iff.1 hgood).1
        rw [hopen] at hfile
        rw [← Option.some.inj hfile, hdir, h.dirstr]
      · cases hfile
    · cases hfile

end FzWriter

/-- A writer with what is to be observed of it: the number of the run, 0 before the first,
and for each message that has reached a file the run and the directory.
`used`: the directory holds a message of a run; `taken`: the run was started with
storing off in a used directory, and no new one has been taken since. -/
structure History where
  writer : FzWriter
  run : Nat := 0
  renewed : Nat := 0
  used : Bool := false
  taken : Bool := false
  stored : List (Nat × String) := []
  deriving DecidableEq, Repr

namespace History

open FzWriter

def step (h : History) (op : Op) : History :=
  let w := h.writer
  let file := w.storesIn op
  { writer := w.perform op
    run := if w.startsRun op then h.run + 1 else h.run
    renewed := if w.renews op then h.renewed + 1 else h.renewed
    used := (h.used || (file.isSome && decide (0 < h.run))) && !w.renews op
    taken := (if w.startsRun op then h.used && !w.store else h.taken) && !w.renews op
    stored := h.stored ++ (file.map fun file => (h.run, file.dirstr)).toList }

def runOps (h : History) (ops : List Op) : History := ops.foldl step h

/-- A writer as `main` sets it up. -/
def start (bdir run : String) (id : UInt32) (unset : Unset) (disk : Disk)
    (esize dsize : UInt64) : History :=
  { writer := ((FzWriter.create bdir run id unset disk).setEventfilesize esize).setEventdirsize
      dsize }

/-- No directory holds messages of two runs. -/
def Separate (stored : List (Nat × String)) : Prop :=
  ∀ a ∈ stored, ∀ b ∈ stored, 0 < a.1 → 0 < b.1 → a.1 ≠ b.1 → a.2 ≠ b.2

instance (stored : List (Nat × String)) : Decidable (Separate stored) :=
  inferInstanceAs (Decidable (∀ a ∈ stored, ∀ b ∈ stored, _ → _ → _ → _))

/-- Nothing is stored in a run that goes on with a used directory. -/
def Careful (h : History) : List Op → Prop
  | [] => True
  | op :: ops => ((h.writer.storesIn op).isSome → h.taken = false) ∧ (h.step op).Careful ops

instance : (h : History) → (ops : List Op) → Decidable (h.Careful ops)
  | _, [] => isTrue trivial
  | h, op :: ops =>
    have := instDecidableCareful (h.step op) ops
    inferInstanceAs (Decidable (_ ∧ _))

/-! ## The history as a journal -/

/-- What an operation does to the journal of runs in directories. -/
def events (w : FzWriter) (op : Op) : List Journal.Event :=
  (if w.startsRun op then [.nextOwner] else []) ++
    (if (w.storesIn op).isSome then [.write] else []) ++
    (if w.renews op then [.nextVolume] else [])

/-- The name of the directory of a volume. -/
def volumeName (base tag : String) (first : UInt32) (volume : Nat) : String :=
  dirName base tag (first + UInt32.ofNat volume)

/-- The step that the journal takes, all at once. -/
theorem run_events (w : FzWriter) (op : Op) (j : Journal) :
    j.run (events w op) =
      { owner := if w.startsRun op then j.owner + 1 else j.owner
        volume := if w.renews op then j.volume + 1 else j.volume
        used := (j.used || ((w.storesIn op).isSome && decide (0 < j.owner))) && !w.renews op
        carried := (if w.startsRun op then j.used else j.carried) && !w.renews op
        entries := j.entries ++
          ((w.storesIn op).map fun _ => (j.owner, j.volume)).toList } := by
  cases op with
  | setRcstate s disk =>
    have hfile : w.storesIn (.setRcstate s disk) = none := rfl
    rw [events, hfile]
    cases w.startsRun (.setRcstate s disk) <;> cases w.renews (.setRcstate s disk) <;>
      simp [Journal.run, Journal.step]
  | setStore value => simp [events, Journal.run, startsRun, storesIn, renews]
  | receive message disk =>
    have hstarts : w.startsRun (.receive message disk) = false := rfl
    rw [events, hstarts]
    cases w.storesIn (.receive message disk) <;> cases w.renews (.receive message disk) <;>
      simp [Journal.run, Journal.step]

/-- The journal of a history. -/
structure Records (h : History) (j : Journal) (base tag : String) (first : UInt32) : Prop where
  within : h.writer.In base tag (first + UInt32.ofNat j.volume)
  owner : j.owner = h.run
  volume : j.volume = h.renewed
  used : j.used = h.used
  carried : j.carried = h.taken
  entries : h.stored = j.entries.map fun e => (e.1, volumeName base tag first e.2)
  unstarted : h.writer.startNewdir = true → h.run = 0
  unused : h.run = 0 → h.used = false

variable {h : History} {j : Journal} {base tag : String} {first : UInt32} {op : Op}
  {ops : List Op}

/-- Only a start with storing off goes on with a used directory. -/
theorem Records.carried_step (hr : h.Records j base tag first) (op : Op) :
    ((if h.writer.startsRun op then j.used else j.carried) && !h.writer.renews op) =
      ((if h.writer.startsRun op then h.used && !h.writer.store else h.taken) &&
        !h.writer.renews op) := by
  rw [hr.used, hr.carried]
  cases hstarts : h.writer.startsRun op with
  | false => rfl
  | true =>
    cases op with
    | setStore value => cases hstarts
    | receive message disk => cases hstarts
    | setRcstate s disk =>
      have hrenews : h.writer.renews (.setRcstate s disk) =
          (h.writer.starts s && !h.writer.startNewdir && h.writer.store) := rfl
      rw [hrenews, show h.writer.starts s = true from hstarts]
      cases hnew : h.writer.startNewdir with
      | false => cases h.used <;> cases h.writer.store <;> rfl
      | true => rw [hr.unused (hr.unstarted hnew)]; rfl

/-- The step lemma: the journal follows the history. -/
theorem Records.step (hr : h.Records j base tag first) (op : Op) :
    (h.step op).Records (j.run (events h.writer op)) base tag first := by
  have hwithin := hr.within.perform op
  have hcarried := hr.carried_step op
  rw [run_events]
  refine ⟨?_, ?_, ?_, ?_, hcarried, ?_, ?_, ?_⟩
  · have hid : h.writer.idBehind op (first + UInt32.ofNat j.volume) =
        first + UInt32.ofNat (if h.writer.renews op then j.volume + 1 else j.volume) := by
      unfold idBehind
      split
      · rw [UInt32.ofNat_add, UInt32.add_assoc]
        rfl
      · rfl
    rw [hid] at hwithin
    exact hwithin
  · simp only [History.step, hr.owner]
  · simp only [History.step, hr.volume]
  · simp only [History.step, hr.used, hr.owner]
  · simp only [History.step, hr.entries, List.map_append, hr.owner]
    congr 1
    cases hfile : h.writer.storesIn op with
    | none => rfl
    | some file =>
      simp only [Option.map_some, Option.toList_some, List.map_singleton]
      rw [storesIn_dirstr hr.within hfile, volumeName]
  · intro hnew
    have hnew : (h.writer.perform op).startNewdir = true := hnew
    rw [perform_startNewdir, Bool.and_eq_true, Bool.not_eq_true'] at hnew
    simp only [History.step, hnew.2]
    exact hr.unstarted hnew.1
  · intro hrun
    simp only [History.step] at hrun ⊢
    split at hrun
    · cases hrun
    · rw [hr.unused hrun, hrun]
      simp

theorem careful_events (w : FzWriter) (op : Op) (j : Journal) :
    j.Careful (events w op) ↔ ((w.storesIn op).isSome → j.carried = false) := by
  cases op with
  | setRcstate s disk =>
    have hfile : w.storesIn (.setRcstate s disk) = none := rfl
    rw [events, hfile]
    cases w.startsRun (.setRcstate s disk) <;> cases w.renews (.setRcstate s disk) <;>
      simp [Journal.Careful]
  | setStore value => simp [events, Journal.Careful, startsRun, storesIn, renews]
  | receive message disk =>
    have hstarts : w.startsRun (.receive message disk) = false := rfl
    rw [events, hstarts]
    cases w.storesIn (.receive message disk) <;> cases w.renews (.receive message disk) <;>
      simp [Journal.Careful]

theorem Records.runOps (hr : h.Records j base tag first) (ops : List Op) :
    ∃ es, (h.runOps ops).Records (j.run es) base tag first ∧
      (j.Careful es ↔ h.Careful ops) := by
  induction ops generalizing h j with
  | nil => exact ⟨[], hr, Iff.rfl⟩
  | cons op ops ih =>
    obtain ⟨es, hrun, hcareful⟩ := ih (hr.step op)
    refine ⟨events h.writer op ++ es, ?_, ?_⟩
    · rw [Journal.run_append]
      exact hrun
    · rw [Journal.careful_append, hcareful, careful_events, hr.carried]
      rfl

theorem volumeName_injective {m n : Nat} (hm : m < 2 ^ 32) (hn : n < 2 ^ 32)
    (h : volumeName base tag first m = volumeName base tag first n) : m = n := by
  have hids := (UInt32.add_right_inj _).1 (dirName_injective h)
  have hnats := congrArg UInt32.toNat hids
  rwa [UInt32.toNat_ofNat_of_lt' hm, UInt32.toNat_ofNat_of_lt' hn] at hnats

theorem Records.separate_iff (hr : h.Records j base tag first) (hsound : j.Sound)
    (hfew : h.renewed < 2 ^ 32) : Separate h.stored ↔ Journal.Exclusive j.entries := by
  have hlt : ∀ e ∈ j.entries, e.2 < 2 ^ 32 := by
    intro e he
    have := hsound.volumes e he
    rw [hr.volume] at this
    omega
  rw [hr.entries]
  constructor
  · intro hsep a ha b hb hpa hpb hne hvol
    exact hsep _ (List.mem_map_of_mem ha) _ (List.mem_map_of_mem hb) hpa hpb hne
      (congrArg (volumeName base tag first) hvol)
  · intro hex x hx y hy hpx hpy hne hname
    obtain ⟨a, ha, rfl⟩ := List.mem_map.1 hx
    obtain ⟨b, hb, rfl⟩ := List.mem_map.1 hy
    exact hex a ha b hb hpx hpy hne (volumeName_injective (hlt a ha) (hlt b hb) hname)

theorem start_records (bdir run : String) (id : UInt32) (unset : Unset) (disk : Disk)
    (esize dsize : UInt64) :
    ∃ first, (start bdir run id unset disk esize dsize).Records {} bdir run first := by
  obtain ⟨first, hin⟩ := In.create bdir run id unset disk
  have hfirst : first + UInt32.ofNat ({} : Journal).volume = first := UInt32.add_zero first
  refine ⟨first, ⟨?_, rfl, rfl, rfl, rfl, rfl, fun _ => rfl, fun _ => rfl⟩⟩
  rw [hfirst]
  exact ⟨hin.firstrun, hin.basedir, hin.runtag, hin.dirstr, hin.dirid, hin.output⟩

/-- The messages of two runs are in different directories exactly if nothing is stored in
a run that was started with storing off and goes on with a used directory. -/
theorem runOps_separate_iff (bdir run : String) (id : UInt32) (unset : Unset) (disk : Disk)
    (esize dsize : UInt64) (ops : List Op)
    (hfew : ((start bdir run id unset disk esize dsize).runOps ops).renewed < 2 ^ 32) :
    Separate ((start bdir run id unset disk esize dsize).runOps ops).stored ↔
      (start bdir run id unset disk esize dsize).Careful ops := by
  obtain ⟨first, hstart⟩ := start_records bdir run id unset disk esize dsize
  obtain ⟨es, hrun, hcareful⟩ := hstart.runOps ops
  rw [hrun.separate_iff (Journal.sound_empty.run es) hfew,
    Journal.exclusive_run Journal.sound_empty, ← hcareful]
  have hempty : Journal.Exclusive ({} : Journal).entries := by
    intro a ha
    cases ha
  exact and_iff_right hempty

/-- Two runs, both started with storing on. -/
theorem twoRuns_separate :
    Separate ((start "data" "run" 0 {} {} 10 100).runOps
      [.setRcstate .ready {}, .setRcstate .running {}, .receive [1, 2, 3] {},
        .setRcstate .paused {}, .setRcstate .running {}, .receive [4, 5, 6] {}]).stored :=
  (runOps_separate_iff "data" "run" 0 {} {} 10 100 _ (by decide +kernel)).2 (by decide +kernel)

/-- The second run is started with storing off, which is put on later. -/
theorem storeOff_not_separate :
    ¬ Separate ((start "data" "run" 0 {} {} 10 100).runOps
      [.setRcstate .ready {}, .setRcstate .running {}, .receive [1, 2, 3] {},
        .setRcstate .paused {}, .setStore false, .setRcstate .running {}, .setStore true,
        .receive [4, 5, 6] {}]).stored := by
  decide +kernel

end History

end FzDaq.Writer
