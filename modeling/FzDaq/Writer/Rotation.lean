import FzDaq.Machine.Filing
import FzDaq.Writer.Directories

/-!
# Sizes of files and directories

The writer counts the bytes of the open file in `esize` and those of the open directory
in `dsize`. The constructor sets neither of them, so that the counts are right from the
message on with which they happen to be, or that has them set to zero.
-/

namespace FzDaq.Writer

open FzDaq.Machine FzDaq.RunControl

namespace FzWriter

variable {w : FzWriter} {message : List UInt8} {disk : Disk} {n : Nat}

/-- What is closed behind a message of `n` bytes that is stored. -/
def cut (w : FzWriter) (n : Nat) : Cut :=
  if w.dsize + UInt64.ofNat n > w.eventDirSize then .box
  else if w.esize + UInt64.ofNat n > w.eventFileSize then .sheet
  else .none

/-- The counters behind a message of `n` bytes that is stored. -/
def sizesBehind (w : FzWriter) (n : Nat) : UInt64 × UInt64 :=
  match w.cut n with
  | .none => (w.esize + UInt64.ofNat n, w.dsize + UInt64.ofNat n)
  | .sheet => (0, w.dsize + UInt64.ofNat n)
  | .box => (0, 0)

theorem cut_box_iff : w.cut n = .box ↔ w.eventDirSize < w.dsize + UInt64.ofNat n := by
  unfold cut
  split
  · rename_i hbox
    exact iff_of_true rfl hbox
  · rename_i hbox
    refine iff_of_false ?_ hbox
    split <;> exact Cut.noConfusion

theorem cut_sheet_iff : w.cut n = .sheet ↔
    ¬w.eventDirSize < w.dsize + UInt64.ofNat n ∧
      w.eventFileSize < w.esize + UInt64.ofNat n := by
  unfold cut
  split
  · rename_i hbox
    exact iff_of_false Cut.noConfusion fun h => h.1 hbox
  · rename_i hbox
    split
    · rename_i hsheet
      exact iff_of_true rfl ⟨hbox, hsheet⟩
    · rename_i hsheet
      exact iff_of_false Cut.noConfusion fun h => hsheet h.2

theorem setupNewdir_limits (w : FzWriter) (disk : Disk) :
    (w.setupNewdir disk).2.eventFileSize = w.eventFileSize ∧
      (w.setupNewdir disk).2.eventDirSize = w.eventDirSize := by
  unfold setupNewdir
  dsimp only
  split <;> exact ⟨rfl, rfl⟩

/-- A new directory leaves the limits, and sets the counters to zero. -/
theorem renewDir_sizes (w : FzWriter) (disk : Disk) :
    (w.renewDir disk).eventFileSize = w.eventFileSize ∧
      (w.renewDir disk).eventDirSize = w.eventDirSize ∧
      (w.renewDir disk).esize = 0 ∧ (w.renewDir disk).dsize = 0 :=
  ⟨(setupNewdir_limits w disk).1, (setupNewdir_limits w disk).2, rfl, rfl⟩

theorem storeMessage_sizes (w : FzWriter) (message : List UInt8) (disk : Disk) :
    (w.storeMessage message disk).eventFileSize = w.eventFileSize ∧
      (w.storeMessage message disk).eventDirSize = w.eventDirSize ∧
      ((w.storeMessage message disk).esize, (w.storeMessage message disk).dsize) =
        w.sizesBehind message.length := by
  unfold storeMessage sizesBehind cut
  dsimp only
  by_cases hbox : w.dsize + UInt64.ofNat message.length > w.eventDirSize
  · rw [if_pos hbox, if_pos (show (w.writeDataset message disk).dsize +
      UInt64.ofNat message.length > (w.writeDataset message disk).eventDirSize from hbox)]
    exact ⟨(renewDir_sizes _ disk).1, (renewDir_sizes _ disk).2.1, rfl⟩
  · rw [if_neg hbox, if_neg (show ¬(w.writeDataset message disk).dsize +
      UInt64.ofNat message.length > (w.writeDataset message disk).eventDirSize from hbox)]
    by_cases hsheet : w.esize + UInt64.ofNat message.length > w.eventFileSize
    · rw [if_pos hsheet, if_pos (show (w.writeDataset message disk).esize +
        UInt64.ofNat message.length > (w.writeDataset message disk).eventFileSize from hsheet)]
      exact ⟨rfl, rfl, rfl⟩
    · rw [if_neg hsheet, if_neg (show ¬(w.writeDataset message disk).esize +
        UInt64.ofNat message.length > (w.writeDataset message disk).eventFileSize from hsheet)]
      exact ⟨rfl, rfl, rfl⟩

theorem receive_sizes (w : FzWriter) (message : List UInt8) (disk : Disk) :
    (w.receive message disk).eventFileSize = w.eventFileSize ∧
      (w.receive message disk).eventDirSize = w.eventDirSize ∧
      ((w.receive message disk).esize, (w.receive message disk).dsize) =
        if w.store then w.sizesBehind message.length else (w.esize, w.dsize) := by
  unfold FzWriter.receive
  dsimp only
  split
  · exact storeMessage_sizes _ message disk
  · exact ⟨rfl, rfl, rfl⟩

theorem setRcstate_sizes (w : FzWriter) (s : RCstate) (disk : Disk) :
    (w.setRcstate s disk).eventFileSize = w.eventFileSize ∧
      (w.setRcstate s disk).eventDirSize = w.eventDirSize ∧
      ((w.setRcstate s disk).esize, (w.setRcstate s disk).dsize) =
        if w.renews (.setRcstate s disk) then (0, 0) else (w.esize, w.dsize) := by
  rw [setRcstate_eq]
  dsimp only
  split
  · obtain ⟨hfile, hdir, hesize, hdsize⟩ := renewDir_sizes w disk
    exact ⟨hfile, hdir, by rw [hesize, hdsize]⟩
  · exact ⟨rfl, rfl, rfl⟩

/-! ## Disks that work -/

/-- Files are opened, and writes reach them. -/
structure Works (disk : Disk) : Prop where
  opened : disk.opened = true
  written : disk.written = true

/-- A file is open, and nothing has failed. -/
structure Ready (w : FzWriter) : Prop where
  good : w.output.good = true
  file : w.output.file.isSome = true

theorem ready_setupNewfile (w : FzWriter) (hgood : w.output.good = true) (hdisk : Works disk) :
    (w.setupNewfile disk).Ready := by
  constructor <;> simp [setupNewfile, hgood, Fstream.close, Fstream.openFile, hdisk.opened]

theorem Ready.renewDir (h : w.Ready) (hdisk : Works disk) : (w.renewDir disk).Ready := by
  have hgood : (w.setupNewdir disk).2.output.good = true := by
    unfold setupNewdir
    dsimp only
    split <;> exact h.good
  have hfile := ready_setupNewfile (w.setupNewdir disk).2 hgood hdisk
  exact ⟨hfile.good, hfile.file⟩

theorem Ready.storeMessage (h : w.Ready) (message : List UInt8) (hdisk : Works disk) :
    (w.storeMessage message disk).Ready := by
  have hwrite : (w.writeDataset message disk).Ready := by
    constructor <;> simp [FzWriter.writeDataset, Fstream.write, h.good, h.file, hdisk.written]
  unfold FzWriter.storeMessage
  dsimp only
  split
  · exact Ready.renewDir ⟨hwrite.good, hwrite.file⟩ hdisk
  · split
    · have hfile := ready_setupNewfile (w.writeDataset message disk) hwrite.good hdisk
      exact ⟨hfile.good, hfile.file⟩
    · exact ⟨hwrite.good, hwrite.file⟩

theorem Ready.receive (h : w.Ready) (message : List UInt8) (hdisk : Works disk) :
    (w.receive message disk).Ready := by
  unfold FzWriter.receive
  dsimp only
  split
  · have hmessage := Ready.storeMessage (w := { w with report := { w.report with
      inBytes := w.report.inBytes + message.length
      inEvents := w.report.inEvents + 1 } }) ⟨h.good, h.file⟩ message hdisk
    exact ⟨hmessage.good, hmessage.file⟩
  · exact ⟨h.good, h.file⟩

theorem Ready.setRcstate (h : w.Ready) (s : RCstate) (hdisk : Works disk) :
    (w.setRcstate s disk).Ready := by
  rw [setRcstate_eq]
  split
  · exact ⟨(h.renewDir hdisk).good, (h.renewDir hdisk).file⟩
  · exact ⟨h.good, h.file⟩

theorem ready_create (bdir run : String) (id : UInt32) (unset : Unset) (hdisk : Works disk) :
    (create bdir run id unset disk).Ready :=
  ready_setupNewfile _ rfl hdisk

theorem Ready.storesIn (h : w.Ready) (hdisk : Works disk) (hstore : w.store = true) :
    (w.storesIn (.receive message disk)).isSome = true := by
  simp only [FzWriter.storesIn, if_pos hstore, reaches, h.good, hdisk.written, Bool.and_self,
    if_true, h.file]

end FzWriter

/-- The disk that is there for an operation works. -/
def Op.Works : Op → Prop
  | .setRcstate _ disk => FzWriter.Works disk
  | .setStore _ => True
  | .receive _ disk => FzWriter.Works disk

/-- A writer with the sizes of the messages in the open file and in the open directory, and
of those in each file and directory that was closed for its limit. `handled` counts the
messages that were received. -/
structure Books where
  writer : FzWriter
  filing : Filing Nat := {}
  handled : Nat := 0
  deriving DecidableEq, Repr

namespace Books

open FzWriter

variable {b : Books} {op : Op} {ops : List Op} {message : List UInt8} {disk : Disk}

/-- The filing behind an operation. A message that reaches no file has no bytes in it. -/
def filed (b : Books) (op : Op) : Filing Nat :=
  match op with
  | .setRcstate _ _ => if b.writer.renews op then b.filing.renew else b.filing
  | .setStore _ => b.filing
  | .receive message _ =>
    if b.writer.store then
      b.filing.store (if (b.writer.storesIn op).isSome then message.length else 0)
        (b.writer.cut message.length)
    else b.filing

def step (b : Books) (op : Op) : Books where
  writer := b.writer.perform op
  filing := b.filed op
  handled := match op with
    | .receive _ _ => b.handled + 1
    | _ => b.handled

/-- `p` holds of each message that is received, in the state that it finds. -/
def AtMessages (p : Books → List UInt8 → Disk → Prop) : Books → List Op → Prop
  | _, [] => True
  | b, op :: ops => (match op with
    | .receive message disk => p b message disk
    | _ => True) ∧ AtMessages p (b.step op) ops

/-- The counters are those of the open file and directory, and the limits are kept. -/
structure Right (b : Books) : Prop where
  esize : b.writer.esize.toNat = b.filing.sheet.sum
  dsize : b.writer.dsize.toNat = b.filing.box.sum
  file : b.writer.esize ≤ b.writer.eventFileSize
  dir : b.writer.dsize ≤ b.writer.eventDirSize
  nested : b.writer.esize ≤ b.writer.dsize
  closedFiles : ∀ part ∈ b.filing.closedSheets,
    Filing.ClosedAt b.writer.eventFileSize.toNat part
  closedDirs : ∀ part ∈ b.filing.closedBoxes, Filing.ClosedAt b.writer.eventDirSize.toNat part

/-- The message reaches a file if it is to be stored, and the memory holds it besides a
full directory. -/
def Kept (b : Books) (message : List UInt8) (disk : Disk) : Prop :=
  (b.writer.store = true → (b.writer.storesIn (.receive message disk)).isSome = true) ∧
    b.writer.eventDirSize.toNat + message.length < 2 ^ 64

/-- The first message finds the counters at zero, or it fills the directory or the file
alone, and is taken to do so. -/
def Settled (b : Books) (message : List UInt8) (_ : Disk) : Prop :=
  b.handled = 0 →
    b.writer.esize = 0 ∧ b.writer.dsize = 0 ∨
      b.writer.store = true ∧
        (b.writer.eventDirSize < b.writer.dsize + UInt64.ofNat message.length ∧
            b.writer.eventDirSize.toNat < message.length ∨
          b.writer.dsize = 0 ∧
            b.writer.eventFileSize < b.writer.esize + UInt64.ofNat message.length ∧
            b.writer.eventFileSize.toNat < message.length)

/-- The state in which a message leaves the writer. -/
def RightBehind (b : Books) (message : List UInt8) (disk : Disk) : Prop :=
  (b.step (.receive message disk)).Right

theorem right_iff : b.Right ↔ b.writer.esize.toNat = b.filing.sheet.sum ∧
    b.writer.dsize.toNat = b.filing.box.sum ∧
    b.filing.Within b.writer.eventFileSize.toNat b.writer.eventDirSize.toNat := by
  constructor
  · intro h
    refine ⟨h.esize, h.dsize, ?_, ?_, ?_, h.closedFiles, h.closedDirs⟩
    · exact h.esize ▸ UInt64.le_iff_toNat_le.1 h.file
    · exact h.dsize ▸ UInt64.le_iff_toNat_le.1 h.dir
    · exact h.esize ▸ h.dsize ▸ UInt64.le_iff_toNat_le.1 h.nested
  · rintro ⟨hesize, hdsize, h⟩
    refine ⟨hesize, hdsize, ?_, ?_, ?_, h.closedSheets, h.closedBoxes⟩
    · exact UInt64.le_iff_toNat_le.2 (hesize ▸ h.sheet)
    · exact UInt64.le_iff_toNat_le.2 (hdsize ▸ h.box)
    · exact UInt64.le_iff_toNat_le.2 (hesize ▸ hdsize ▸ h.nested)

theorem step_limits (b : Books) (op : Op) :
    (b.step op).writer.eventFileSize = b.writer.eventFileSize ∧
      (b.step op).writer.eventDirSize = b.writer.eventDirSize := by
  cases op with
  | setRcstate s disk =>
    exact ⟨(setRcstate_sizes b.writer s disk).1, (setRcstate_sizes b.writer s disk).2.1⟩
  | setStore value => exact ⟨rfl, rfl⟩
  | receive message disk =>
    exact ⟨(receive_sizes b.writer message disk).1, (receive_sizes b.writer message disk).2.1⟩

theorem step_setRcstate_right (h : b.Right) (s : RCstate) (disk : Disk) :
    (b.step (.setRcstate s disk)).Right := by
  obtain ⟨hfile, hdir, hsizes⟩ := setRcstate_sizes b.writer s disk
  obtain ⟨hesize, hdsize, hwithin⟩ := right_iff.1 h
  have hwriter : (b.step (.setRcstate s disk)).writer = b.writer.setRcstate s disk := rfl
  have hfiling : (b.step (.setRcstate s disk)).filing =
    if b.writer.renews (.setRcstate s disk) then b.filing.renew else b.filing := rfl
  rw [right_iff, hwriter, hfile, hdir, hfiling]
  by_cases hrenews : b.writer.renews (.setRcstate s disk) = true
  · rw [if_pos hrenews] at hsizes ⊢
    obtain ⟨hesize', hdsize'⟩ := Prod.ext_iff.1 hsizes
    dsimp only at hesize' hdsize'
    rw [hesize', hdsize']
    exact ⟨rfl, rfl, hwithin.renew⟩
  · rw [if_neg hrenews] at hsizes ⊢
    obtain ⟨hesize', hdsize'⟩ := Prod.ext_iff.1 hsizes
    dsimp only at hesize' hdsize'
    rw [hesize', hdsize']
    exact ⟨hesize, hdsize, hwithin⟩

theorem Kept.toNat_size (hkept : b.Kept message disk) :
    (UInt64.ofNat message.length).toNat = message.length := by
  have hlt : message.length < 2 ^ 64 := Nat.lt_of_le_of_lt (Nat.le_add_left _ _) hkept.2
  exact UInt64.toNat_ofNat_of_lt' hlt

theorem Right.counted (h : b.Right) (hkept : b.Kept message disk) :
    (b.writer.esize + UInt64.ofNat message.length).toNat = b.filing.sheet.sum + message.length ∧
      (b.writer.dsize + UInt64.ofNat message.length).toNat =
        b.filing.box.sum + message.length := by
  have hdir := UInt64.le_iff_toNat_le.1 h.dir
  have hnested := UInt64.le_iff_toNat_le.1 h.nested
  have hfits := hkept.2
  rw [UInt64.toNat_add, UInt64.toNat_add, hkept.toNat_size, ← h.esize, ← h.dsize]
  exact ⟨Nat.mod_eq_of_lt (by omega), Nat.mod_eq_of_lt (by omega)⟩

theorem Right.cut_eq (h : b.Right) (hkept : b.Kept message disk) :
    b.writer.cut message.length = Filing.cutAt b.writer.eventFileSize.toNat
      b.writer.eventDirSize.toNat b.filing message.length := by
  obtain ⟨hsheet, hbox⟩ := h.counted hkept
  simp only [cut, Filing.cutAt, gt_iff_lt, UInt64.lt_iff_toNat_lt, hbox, hsheet]

/-- What a message that is stored does to the counters and to the filing. -/
theorem rightBehind_iff (hstore : b.writer.store = true) (hkept : b.Kept message disk) :
    b.RightBehind message disk ↔
      (b.writer.sizesBehind message.length).1.toNat =
          (b.filing.store message.length (b.writer.cut message.length)).sheet.sum ∧
        (b.writer.sizesBehind message.length).2.toNat =
          (b.filing.store message.length (b.writer.cut message.length)).box.sum ∧
        (b.filing.store message.length (b.writer.cut message.length)).Within
          b.writer.eventFileSize.toNat b.writer.eventDirSize.toNat := by
  obtain ⟨hfile, hdir, hsizes⟩ := receive_sizes b.writer message disk
  rw [if_pos hstore] at hsizes
  have hwriter : (b.step (.receive message disk)).writer = b.writer.receive message disk := rfl
  have hfiling : (b.step (.receive message disk)).filing =
      b.filing.store message.length (b.writer.cut message.length) := by
    simp only [step, filed, if_pos hstore, if_pos (hkept.1 hstore)]
  rw [RightBehind, right_iff, hwriter, hfile, hdir, hfiling, ← hsizes]

theorem rightBehind_of_not_store (hstore : ¬b.writer.store = true) :
    b.RightBehind message disk ↔ b.Right := by
  obtain ⟨hfile, hdir, hsizes⟩ := receive_sizes b.writer message disk
  rw [if_neg hstore] at hsizes
  obtain ⟨hesize, hdsize⟩ := Prod.ext_iff.1 hsizes
  dsimp only at hesize hdsize
  have hwriter : (b.step (.receive message disk)).writer = b.writer.receive message disk := rfl
  have hfiling : (b.step (.receive message disk)).filing = b.filing := if_neg hstore
  rw [RightBehind, right_iff, right_iff, hwriter, hfile, hdir, hfiling, hesize, hdsize]

theorem Right.receive (h : b.Right) (hkept : b.Kept message disk) :
    b.RightBehind message disk := by
  by_cases hstore : b.writer.store = true
  · obtain ⟨hsheet, hbox⟩ := h.counted hkept
    obtain ⟨-, -, hwithin⟩ := right_iff.1 h
    have hstored := hwithin.store message.length
    rw [← h.cut_eq hkept] at hstored
    rw [rightBehind_iff hstore hkept]
    refine ⟨?_, ?_, hstored⟩ <;>
      cases hcut : b.writer.cut message.length <;>
        simp [sizesBehind, hcut, Filing.store, hsheet, hbox]
  · exact (rightBehind_of_not_store hstore).2 h

/-! ## The first message -/

/-- Nothing is filed, and no message was handled. -/
structure Fresh (b : Books) : Prop where
  filing : b.filing = {}
  handled : b.handled = 0

theorem Fresh.right_iff (h : b.Fresh) :
    b.Right ↔ b.writer.esize = 0 ∧ b.writer.dsize = 0 := by
  have hwithin := Filing.within_empty b.writer.eventFileSize.toNat b.writer.eventDirSize.toNat
  rw [Books.right_iff, h.filing, and_iff_left hwithin]
  simp [← UInt64.toNat_inj]

theorem eq_zero_of_counted {size : UInt64} (hkept : b.Kept message disk)
    (h : (size + UInt64.ofNat message.length).toNat = message.length) : size = 0 := by
  have hlt := hkept.2
  rw [UInt64.toNat_add, hkept.toNat_size] at h
  have hsize := size.toNat_lt
  exact UInt64.toNat_inj.1 (show size.toNat = 0 by omega)

theorem Fresh.rightBehind_box (h : b.Fresh) (hkept : b.Kept message disk)
    (hstore : b.writer.store = true)
    (hbox : b.writer.eventDirSize < b.writer.dsize + UInt64.ofNat message.length)
    (hmore : b.writer.eventDirSize.toNat < message.length) : b.RightBehind message disk := by
  have hcut := cut_box_iff.2 hbox
  rw [Books.rightBehind_iff hstore hkept, h.filing]
  simp only [sizesBehind, hcut]
  refine ⟨rfl, rfl, zero_le, zero_le, le_rfl, by simp [Filing.store], fun part hpart => ?_⟩
  rw [List.mem_singleton.1 hpart]
  exact Filing.closedAt_concat zero_le (by rw [List.sum_nil, zero_add]; exact hmore)

theorem Fresh.rightBehind_sheet (h : b.Fresh) (hkept : b.Kept message disk)
    (hstore : b.writer.store = true) (hdsize : b.writer.dsize = 0)
    (hbox : ¬b.writer.eventDirSize < b.writer.dsize + UInt64.ofNat message.length)
    (hsheet : b.writer.eventFileSize < b.writer.esize + UInt64.ofNat message.length)
    (hmore : b.writer.eventFileSize.toNat < message.length) : b.RightBehind message disk := by
  have hcut := cut_sheet_iff.2 ⟨hbox, hsheet⟩
  have hcount : (b.writer.dsize + UInt64.ofNat message.length).toNat = message.length := by
    rw [hdsize, UInt64.zero_add, hkept.toNat_size]
  rw [UInt64.lt_iff_toNat_lt, hcount, Nat.not_lt] at hbox
  rw [Books.rightBehind_iff hstore hkept, h.filing]
  simp only [sizesBehind, hcut]
  refine ⟨rfl, by rw [hcount]; simp [Filing.store], zero_le, by simpa [Filing.store] using hbox,
    zero_le, fun part hpart => ?_, by simp [Filing.store]⟩
  rw [List.mem_singleton.1 hpart]
  exact Filing.closedAt_concat zero_le (by rw [List.sum_nil, zero_add]; exact hmore)

/-- What right counters behind the first message say of it. -/
theorem Fresh.settled (h : b.Fresh) (hkept : b.Kept message disk)
    (hstore : b.writer.store = true) (hright : b.RightBehind message disk) :
    b.Settled message disk := by
  intro _
  obtain ⟨hsheet, hbox, hwithin⟩ := (Books.rightBehind_iff hstore hkept).1 hright
  rw [h.filing] at hsheet hbox hwithin
  cases hcut : b.writer.cut message.length with
  | none =>
    simp only [sizesBehind, hcut, Filing.store, List.nil_append, List.sum_singleton]
      at hsheet hbox
    exact .inl ⟨eq_zero_of_counted hkept hsheet, eq_zero_of_counted hkept hbox⟩
  | sheet =>
    simp only [sizesBehind, hcut, Filing.store, List.nil_append, List.sum_singleton] at hbox
    have hmore := (hwithin.closedSheets [message.length] (by simp [hcut, Filing.store])).1
    rw [List.sum_singleton] at hmore
    exact .inr ⟨hstore, .inr ⟨eq_zero_of_counted hkept hbox, (cut_sheet_iff.1 hcut).2, hmore⟩⟩
  | box =>
    have hmore := (hwithin.closedBoxes [message.length] (by simp [hcut, Filing.store])).1
    rw [List.sum_singleton] at hmore
    exact .inr ⟨hstore, .inl ⟨cut_box_iff.1 hcut, hmore⟩⟩

/-- Which first messages leave right counters. -/
theorem Fresh.rightBehind_iff (h : b.Fresh) (hkept : b.Kept message disk) :
    b.RightBehind message disk ↔ b.Settled message disk := by
  by_cases hstore : b.writer.store = true
  · refine ⟨h.settled hkept hstore, fun hsettled => ?_⟩
    rcases hsettled h.handled with hzero | ⟨-, ⟨hbox, hmore⟩ | ⟨hdsize, hsheet, hmore⟩⟩
    · exact Right.receive (h.right_iff.2 hzero) hkept
    · exact h.rightBehind_box hkept hstore hbox hmore
    by_cases hbox : b.writer.eventDirSize < b.writer.dsize + UInt64.ofNat message.length
    · have hmore' : b.writer.eventDirSize.toNat < message.length := by
        rw [hdsize, UInt64.zero_add, UInt64.lt_iff_toNat_lt, hkept.toNat_size] at hbox
        exact hbox
      exact h.rightBehind_box hkept hstore hbox hmore'
    · exact h.rightBehind_sheet hkept hstore hdsize hbox hsheet hmore
  · rw [rightBehind_of_not_store hstore, h.right_iff]
    simp [Settled, h.handled, hstore]

/-! ## Runs -/

/-- No message yet, or the counters are right. -/
theorem atMessages_right_iff {b : Books} {ops : List Op}
    (h : b.Fresh ∨ 0 < b.handled ∧ b.Right) (hkept : AtMessages Kept b ops) :
    AtMessages RightBehind b ops ↔ AtMessages Settled b ops := by
  induction ops generalizing b with
  | nil => exact Iff.rfl
  | cons op ops ih =>
    cases op with
    | setRcstate s disk =>
      refine and_congr Iff.rfl (ih ?_ hkept.2)
      rcases h with h | ⟨hhandled, h⟩
      · refine .inl ⟨?_, h.handled⟩
        simp [step, filed, h.filing, Filing.renew]
      · exact .inr ⟨hhandled, step_setRcstate_right h s disk⟩
    | setStore value =>
      refine and_congr Iff.rfl (ih ?_ hkept.2)
      rcases h with h | ⟨hhandled, h⟩
      · exact .inl ⟨h.filing, h.handled⟩
      · exact .inr ⟨hhandled, h.esize, h.dsize, h.file, h.dir, h.nested, h.closedFiles,
          h.closedDirs⟩
    | receive message disk =>
      have hsame : b.RightBehind message disk ↔ b.Settled message disk := by
        rcases h with h | ⟨hhandled, h⟩
        · exact h.rightBehind_iff hkept.1
        · exact iff_of_true (h.receive hkept.1) fun hnone => absurd hnone (Nat.ne_of_gt hhandled)
      exact (and_congr_right fun hright => ih (.inr ⟨Nat.succ_pos _, hright⟩) hkept.2).trans
        (and_congr_left' hsame)

/-- A writer as `main` sets it up. -/
def start (bdir run : String) (id : UInt32) (unset : Unset) (disk : Disk)
    (esize dsize : UInt64) : Books where
  writer := ((FzWriter.create bdir run id unset disk).setEventfilesize esize).setEventdirsize
    dsize

/-- On a disk that works every message is kept. -/
theorem atMessages_kept {b : Books} {ops : List Op} (h : b.writer.Ready)
    (hworks : ∀ op ∈ ops, op.Works)
    (hfits : ∀ message disk, .receive message disk ∈ ops →
      b.writer.eventDirSize.toNat + message.length < 2 ^ 64) : AtMessages Kept b ops := by
  induction ops generalizing b with
  | nil => exact trivial
  | cons op ops ih =>
    obtain ⟨hop, hops⟩ := List.forall_mem_cons.1 hworks
    have hready : (b.step op).writer.Ready := by
      cases op with
      | setRcstate s disk => exact h.setRcstate s hop
      | setStore value => exact ⟨h.good, h.file⟩
      | receive message disk => exact h.receive message hop
    refine ⟨?_, ih hready hops fun message disk hmem => ?_⟩
    · cases op with
      | setRcstate s disk => exact trivial
      | setStore value => exact trivial
      | receive message disk =>
        exact ⟨h.storesIn hop, hfits message disk (List.mem_cons_self ..)⟩
    · rw [(step_limits b op).2]
      exact hfits message disk (List.mem_cons_of_mem _ hmem)

/-- The sizes are right behind every message exactly if the first one finds the counters at
zero, or fills the file or the directory alone. -/
theorem rightBehind_all_iff (bdir run : String) (id : UInt32) (unset : Unset) (disk : Disk)
    (esize dsize : UInt64) (ops : List Op)
    (hkept : AtMessages Kept (start bdir run id unset disk esize dsize) ops) :
    AtMessages RightBehind (start bdir run id unset disk esize dsize) ops ↔
      AtMessages Settled (start bdir run id unset disk esize dsize) ops :=
  atMessages_right_iff (.inl ⟨rfl, rfl⟩) hkept

/-- A run of three messages, the second of which fills the file. -/
def threeMessages : List Op :=
  [.setRcstate .ready {}, .setRcstate .running {}, .receive [1, 2] {}, .receive [3, 4] {},
    .setStore false, .receive [5] {}]

theorem rightBehind_threeMessages :
    AtMessages RightBehind (start "data" "run" 0 {} {} 3 8) threeMessages :=
  (rightBehind_all_iff "data" "run" 0 {} {} 3 8 threeMessages
    ⟨trivial, trivial, ⟨fun _ => rfl, by decide⟩, ⟨fun _ => rfl, by decide⟩, trivial,
      ⟨fun hstore => absurd hstore (by decide), by decide⟩, trivial⟩).2
    ⟨trivial, trivial, fun _ => .inl ⟨rfl, rfl⟩, fun hnone => absurd hnone (by decide), trivial,
      fun hnone => absurd hnone (by decide), trivial⟩

/-- A writer that finds five in the memory of `esize` counts them to the first file. -/
theorem not_rightBehind_unset :
    AtMessages Kept (start "data" "run" 0 { esize := 5 } {} 100 200)
        [.setRcstate .ready {}, .setRcstate .running {}, .receive [1] {}] ∧
      ¬AtMessages RightBehind (start "data" "run" 0 { esize := 5 } {} 100 200)
        [.setRcstate .ready {}, .setRcstate .running {}, .receive [1] {}] :=
  ⟨⟨trivial, trivial, ⟨fun _ => rfl, by decide⟩, trivial⟩,
    fun h => absurd h.2.2.1.esize (by decide)⟩

end Books

end FzDaq.Writer
