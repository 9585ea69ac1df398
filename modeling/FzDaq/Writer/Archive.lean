import FzDaq.Machine.Shelf
import FzDaq.Utils.FzProtobuf
import FzDaq.Writer.Stored

/-!
# What is read back

The bytes that the writer leaves on the disk, and the loop that reads event sets from a file.
A file is truncated when it is opened, its buffer is written out in parts, and the rest of it
when the file is closed. The file that is open when the process ends is not closed.
-/

namespace FzDaq.Writer

open FzDaq.Machine FzDaq.RunControl FzDaq.Utils

/-- `WriteDataset` of a string, on the bytes that go to the stream. -/
def dataset (message : List UInt8) : List UInt8 := littleEndian 4 message.length ++ message

namespace FzWriter

variable {w : FzWriter} {op : Op} {ops : List Op} {message : List UInt8} {disk : Disk}

/-- The file that the operation closes, with what the system answers to it. -/
def closes (w : FzWriter) (op : Op) : Option (EventFile × Disk) :=
  match w.opens op, (w.wrote op).file with
  | some disk, some file => if (w.wrote op).good then some (file, disk) else none
  | _, _ => none

/-- The file that the operation creates: `open` fails on a stream whose file is not closed. -/
def creates (w : FzWriter) (op : Op) : Option EventFile :=
  match w.opens op with
  | some disk =>
    if ((w.wrote op).good || (w.wrote op).file.isNone) && disk.opened then
      some ((w.perform op).lastFile disk)
    else none
  | none => none

/-- The files that the operations are to open, in order. -/
def newFiles (w : FzWriter) : List Op → List EventFile
  | [] => []
  | op :: ops => ((w.opens op).map (w.perform op).lastFile).toList ++ (w.perform op).newFiles ops

end FzWriter

/-- How much of the buffer the system writes out behind a message, and how much of it when
closing a file fails. -/
structure Spill where
  write : Nat := 0
  close : Nat := 0
  deriving DecidableEq, Repr

/-- The writer with the files on its disk. -/
structure Archive where
  writer : FzWriter
  shelf : Shelf EventFile UInt8

namespace Archive

/-- The message of the operation goes to the open file. -/
def write (a : Archive) (op : Op) (spill : Spill) : Shelf EventFile UInt8 :=
  match a.writer.storesIn op, receivedBy op with
  | some file, some message => (a.shelf.append (dataset message)).flush file spill.write
  | _, _ => a.shelf

/-- `output.close()` in `setup_newfile`. -/
def close (a : Archive) (op : Op) (spill : Spill) : Shelf EventFile UInt8 :=
  let shelf := a.write op spill
  match a.writer.closes op with
  | some (file, disk) =>
    if disk.flushed then shelf.flush file shelf.buffer.length
    else (shelf.flush file spill.close).discard
  | none => shelf

def step (a : Archive) (op : Op × Spill) : Archive where
  writer := a.writer.perform op.1
  shelf :=
    match a.writer.creates op.1 with
    | some file => (a.close op.1 op.2).create file
    | none => a.close op.1 op.2

/-- A writer as `main` sets it up, on a disk that may hold files already. -/
def start (bdir run : String) (id : UInt32) (unset : Unset) (disk : Disk) (esize dsize : UInt64)
    (onDisk : EventFile → List UInt8) : Archive :=
  let w := ((FzWriter.create bdir run id unset disk).setEventfilesize esize).setEventdirsize dsize
  { writer := w
    shelf := if disk.opened then Shelf.create { onDisk } (w.lastFile disk) else { onDisk } }

end Archive

/-- Closing a file writes out what is left in the buffer. -/
def Op.Flushes : Op → Prop
  | .setRcstate _ disk => disk.flushed = true
  | .setStore _ => True
  | .receive _ disk => disk.flushed = true

namespace FzWriter

variable {w : FzWriter} {op : Op} {message : List UInt8} {disk : Disk} {file : EventFile}

/-! ## The numbers of the files -/

theorem renewDir_fileid (w : FzWriter) (disk : Disk) : (w.renewDir disk).fileid = w.fileid + 1 := by
  unfold renewDir setupNewdir
  dsimp only
  split <;> rfl

theorem storeMessage_fileid (w : FzWriter) (message : List UInt8) (disk : Disk) :
    (w.storeMessage message disk).fileid =
      if w.cut message.length = .none then w.fileid else w.fileid + 1 := by
  unfold storeMessage
  dsimp only
  split
  · rename_i hfull
    have hcut : w.cut message.length = .box := cut_box_iff.2 hfull
    rw [hcut, if_neg Cut.noConfusion]
    exact renewDir_fileid _ disk
  · rename_i hbox
    split
    · rename_i hfull
      have hcut : w.cut message.length = .sheet := cut_sheet_iff.2 ⟨hbox, hfull⟩
      rw [hcut, if_neg Cut.noConfusion]
      rfl
    · rename_i hsheet
      have hcut : w.cut message.length = .none := (if_neg hbox).trans (if_neg hsheet)
      rw [if_pos hcut]
      rfl

theorem perform_fileid (w : FzWriter) (op : Op) :
    (w.perform op).fileid = if (w.opens op).isSome then w.fileid + 1 else w.fileid := by
  cases op with
  | setRcstate s disk =>
    rw [perform, setRcstate_eq, opens]
    cases w.renews (.setRcstate s disk) with
    | true => exact renewDir_fileid w disk
    | false => rfl
  | setStore value => rfl
  | receive message disk =>
    let u : FzWriter := { w with report := { w.report with
      inBytes := w.report.inBytes + message.length
      inEvents := w.report.inEvents + 1 } }
    have hid : (u.storeMessage message disk).fileid =
        if w.cut message.length = .none then w.fileid else w.fileid + 1 :=
      storeMessage_fileid u message disk
    have hreceive : (w.receive message disk).fileid =
        if w.store then (u.storeMessage message disk).fileid else w.fileid := by
      unfold receive
      dsimp only
      split <;> rfl
    rw [perform, hreceive, hid, opens]
    cases w.store <;> by_cases hcut : w.cut message.length = .none <;> simp [hcut]

theorem lastFile_fileid (hopens : w.opens op = some disk) :
    ((w.perform op).lastFile disk).fileid = w.fileid := by
  rw [lastFile, perform_fileid, hopens, Option.isSome_some, if_pos rfl]
  exact UInt32.add_sub_cancel w.fileid 1

/-! ## The open file -/

theorem opens_disk (hopens : w.opens op = some disk) :
    (op.Works → Works disk) ∧ (op.Flushes → disk.flushed = true) := by
  cases op with
  | setRcstate s disk' =>
    rw [opens] at hopens
    split at hopens
    · obtain rfl := Option.some.inj hopens
      exact ⟨id, id⟩
    · contradiction
  | setStore value => contradiction
  | receive message disk' =>
    rw [opens] at hopens
    split at hopens
    · obtain rfl := Option.some.inj hopens
      exact ⟨id, id⟩
    · contradiction

variable (hout : w.output = { file := some file, good := true }) (hworks : op.Works)

include hout hworks

theorem wrote_eq : w.wrote op = { file := some file, good := true } := by
  cases op with
  | setRcstate s disk => exact hout
  | setStore value => exact hout
  | receive message disk =>
    rw [wrote, hout]
    split
    · simp [Fstream.write, hworks.written]
    · rfl

theorem perform_kept (hopens : w.opens op = none) :
    (w.perform op).output = { file := some file, good := true } := by
  rw [(effect_perform w op).kept hopens, wrote_eq hout hworks]

theorem perform_opened (hopens : w.opens op = some disk) :
    (w.perform op).output = { file := some ((w.perform op).lastFile disk), good := true } := by
  rw [(effect_perform w op).opened disk hopens, wrote_eq hout hworks]
  exact Fstream.renew_of_good rfl ((opens_disk hopens).1 hworks).opened

theorem closes_eq : w.closes op = (w.opens op).map fun disk => (file, disk) := by
  unfold closes
  rw [wrote_eq hout hworks]
  cases w.opens op <;> rfl

theorem creates_eq : w.creates op = (w.opens op).map (w.perform op).lastFile := by
  unfold creates
  rw [wrote_eq hout hworks]
  cases hopens : w.opens op with
  | none => rfl
  | some disk => simp [((opens_disk hopens).1 hworks).opened]

theorem storesIn_eq (hstore : w.store = true) :
    w.storesIn op = (receivedBy op).map fun _ => file := by
  cases op with
  | setRcstate s disk => rfl
  | setStore value => rfl
  | receive message disk =>
    rw [storesIn, if_pos hstore, reaches, hout, hworks.written]
    rfl

end FzWriter

namespace Archive

variable {a : Archive} {first : UInt32} {closed : List (EventFile × List Serialised)}
  {file : EventFile} {items : List Serialised} {op : Op} {message : Option Serialised} {disk : Disk}

/-- Nothing has failed: the files hold what was stored in them, and they have one number after
the other. -/
structure Sound (a : Archive) (first : UInt32) (closed : List (EventFile × List Serialised))
    (file : EventFile) (items : List Serialised) : Prop where
  output : a.writer.output = { file := some file, good := true }
  store : a.writer.store = true
  shelf : a.shelf.Holds record closed file items
  numbers : (closed.map Prod.fst ++ [file]).map EventFile.fileid =
    (List.range (closed.length + 1)).map fun i => first + UInt32.ofNat i
  next : a.writer.fileid = first + UInt32.ofNat (closed.length + 1)

theorem Sound.write (h : a.Sound first closed file items) (hworks : op.Works)
    (hmessage : receivedBy op = message.map Serialised.bytes) (spill : Spill) :
    (a.write op spill).Holds record closed file (items ++ message.toList) := by
  have hstores := FzWriter.storesIn_eq h.output hworks h.store
  rw [hmessage] at hstores
  unfold Archive.write
  rw [hstores, hmessage]
  cases message with
  | none => simpa using h.shelf
  | some message => exact (h.shelf.append message).flush spill.write

/-- The numbers begin again behind 2 ^ 32 files. -/
theorem number_injective {i j : Nat} (hi : i < 2 ^ 32) (hj : j < 2 ^ 32)
    (h : first + UInt32.ofNat i = first + UInt32.ofNat j) : i = j := by
  have hsame := congrArg UInt32.toNat ((UInt32.add_right_inj first).1 h)
  rwa [UInt32.toNat_ofNat', UInt32.toNat_ofNat', Nat.mod_eq_of_lt hi, Nat.mod_eq_of_lt hj]
    at hsame

/-- No file of the process has the number that comes next. -/
theorem Sound.fresh (h : a.Sound first closed file items) (hfew : closed.length + 1 < 2 ^ 32)
    {new : EventFile} (hnew : new.fileid = a.writer.fileid) :
    new ∉ closed.map Prod.fst ++ [file] := by
  intro hmem
  have hnumber : new.fileid ∈ (closed.map Prod.fst ++ [file]).map EventFile.fileid :=
    List.mem_map_of_mem hmem
  rw [h.numbers, hnew, h.next, List.mem_map] at hnumber
  obtain ⟨i, hi, heq⟩ := hnumber
  rw [List.mem_range] at hi
  have hsame := number_injective (by omega) hfew heq
  omega

theorem Sound.nodup (h : a.Sound first closed file items) (hfew : closed.length < 2 ^ 32) :
    (closed.map Prod.fst ++ [file]).Nodup := by
  refine List.Nodup.of_map EventFile.fileid ?_
  rw [h.numbers]
  refine List.Nodup.map_on (fun i hi j hj heq => ?_) List.nodup_range
  rw [List.mem_range] at hi hj
  exact number_injective (by omega) (by omega) heq

theorem Sound.store_perform (h : a.Sound first closed file items) (hop : FzWriter.Keeps op) :
    (a.writer.perform op).store = true := by
  have hready : a.writer.Ready := ⟨by rw [h.output], by rw [h.output]; rfl⟩
  exact (hready.perform h.store hop).2.1

theorem Sound.step_kept (h : a.Sound first closed file items) (hop : FzWriter.Keeps op)
    (hmessage : receivedBy op = message.map Serialised.bytes)
    (hopens : a.writer.opens op = none) (spill : Spill) :
    (a.step (op, spill)).Sound first closed file (items ++ message.toList) := by
  have hcreates := FzWriter.creates_eq h.output hop.1
  have hcloses := FzWriter.closes_eq h.output hop.1
  rw [hopens, Option.map_none] at hcreates hcloses
  refine ⟨FzWriter.perform_kept h.output hop.1 hopens, h.store_perform hop, ?_, h.numbers, ?_⟩
  · unfold step close
    dsimp only
    rw [hcreates, hcloses]
    exact h.write hop.1 hmessage spill
  · change (a.writer.perform op).fileid = _
    rw [FzWriter.perform_fileid, hopens, h.next]
    rfl

theorem Sound.step_opened (h : a.Sound first closed file items) (hop : FzWriter.Keeps op)
    (hflushes : op.Flushes) (hmessage : receivedBy op = message.map Serialised.bytes)
    (hopens : a.writer.opens op = some disk) (hfew : closed.length + 1 < 2 ^ 32) (spill : Spill) :
    (a.step (op, spill)).Sound first (closed ++ [(file, items ++ message.toList)])
      ((a.writer.perform op).lastFile disk) [] := by
  have hcreates := FzWriter.creates_eq h.output hop.1
  have hcloses := FzWriter.closes_eq h.output hop.1
  have hnumber := FzWriter.lastFile_fileid hopens
  rw [hopens, Option.map_some] at hcreates hcloses
  have hshelf := (h.write hop.1 hmessage spill).renew (h.fresh hfew hnumber)
  refine ⟨FzWriter.perform_opened h.output hop.1 hopens, h.store_perform hop, ?_, ?_, ?_⟩
  · unfold step close
    dsimp only
    rw [hcreates, hcloses]
    dsimp only
    rw [if_pos ((FzWriter.opens_disk hopens).2 hflushes)]
    exact hshelf
  · have hfiles : (closed ++ [(file, items ++ message.toList)]).map Prod.fst =
        closed.map Prod.fst ++ [file] := List.map_append
    rw [hfiles, List.map_append, h.numbers, List.map_singleton, hnumber, h.next,
      List.length_append, List.length_singleton, List.range_succ (n := closed.length + 1),
      List.map_append, List.map_singleton]
  · change (a.writer.perform op).fileid = _
    rw [FzWriter.perform_fileid, hopens, h.next, List.length_append, List.length_singleton,
      Option.isSome_some, if_pos rfl, UInt32.add_assoc, UInt32.ofNat_add (closed.length + 1) 1]
    rfl

theorem Sound.run {ops : List (Op × Spill)} {messages : List Serialised}
    (h : a.Sound first closed file items)
    (hops : ∀ op ∈ ops, FzWriter.Keeps op.1 ∧ op.1.Flushes)
    (hmessages : (ops.map Prod.fst).filterMap receivedBy = messages.map Serialised.bytes)
    (hfew : closed.length + (a.writer.newFiles (ops.map Prod.fst)).length < 2 ^ 32) :
    ∃ closed' file' items', (ops.foldl step a).Sound first closed' file' items' ∧
      closed'.map Prod.fst ++ [file'] =
        closed.map Prod.fst ++ file :: a.writer.newFiles (ops.map Prod.fst) ∧
      closed'.flatMap Prod.snd ++ items' = closed.flatMap Prod.snd ++ items ++ messages := by
  induction ops generalizing a closed file items messages with
  | nil =>
    obtain rfl : messages = [] := List.map_eq_nil_iff.1 hmessages.symm
    exact ⟨closed, file, items, h, rfl, (List.append_nil _).symm⟩
  | cons op ops ih =>
    obtain ⟨⟨hkeeps, hflushes⟩, htail⟩ := List.forall_mem_cons.1 hops
    obtain ⟨message, rest, rfl, hmessage, hrest⟩ : ∃ (message : Option Serialised) (rest : _),
        messages = message.toList ++ rest ∧ receivedBy op.1 = message.map Serialised.bytes ∧
          (ops.map Prod.fst).filterMap receivedBy = rest.map Serialised.bytes := by
      rw [List.map_cons, List.filterMap_cons] at hmessages
      cases hreceived : receivedBy op.1 with
      | none =>
        rw [hreceived] at hmessages
        exact ⟨none, messages, rfl, rfl, hmessages⟩
      | some bytes =>
        rw [hreceived] at hmessages
        obtain ⟨message, rest, rfl, rfl, hrest⟩ := List.map_eq_cons_iff.1 hmessages.symm
        exact ⟨some message, rest, rfl, rfl, hrest.symm⟩
    rw [List.map_cons, FzWriter.newFiles] at hfew ⊢
    cases hopens : a.writer.opens op.1 with
    | none =>
      rw [hopens, Option.map_none, Option.toList_none, List.nil_append] at hfew
      rw [Option.map_none, Option.toList_none, List.nil_append]
      obtain ⟨closed', file', items', hsound, hfiles, hitems⟩ :=
        ih (h.step_kept hkeeps hmessage hopens op.2) htail hrest hfew
      refine ⟨closed', file', items', hsound, hfiles, ?_⟩
      rw [hitems]
      simp only [List.append_assoc]
    | some disk =>
      rw [hopens, Option.map_some, Option.toList_some, List.length_append,
        List.length_singleton] at hfew
      have hstep := h.step_opened hkeeps hflushes hmessage hopens (by omega) op.2
      obtain ⟨closed', file', items', hsound, hfiles, hitems⟩ := ih hstep htail hrest (by
        rw [List.length_append, List.length_singleton, Nat.add_assoc]
        exact hfew)
      refine ⟨closed', file', items', hsound, ?_, ?_⟩
      · rw [hfiles]
        simp [step]
      · rw [hitems]
        simp

theorem start_sound (bdir run : String) (id : UInt32) (unset : Unset) {disk : Disk}
    (hdisk : FzWriter.Works disk) (esize dsize : UInt64) (onDisk : EventFile → List UInt8) :
    (start bdir run id unset disk esize dsize onDisk).Sound unset.fileid []
      ((start bdir run id unset disk esize dsize onDisk).writer.lastFile disk) [] := by
  have hopen := Ledger.start_open bdir run id unset hdisk.opened esize dsize
  have hid : (start bdir run id unset disk esize dsize onDisk).writer.fileid =
      unset.fileid + 1 := by
    unfold start FzWriter.create FzWriter.setupNewdir
    dsimp only
    split <;> rfl
  refine ⟨hopen, rfl, ?_, ?_, hid⟩
  · unfold start
    dsimp only
    rw [if_pos hdisk.opened]
    exact Shelf.holds_create _ rfl
  · change [(start bdir run id unset disk esize dsize onDisk).writer.fileid - 1] = [_ + 0]
    rw [hid, UInt32.add_sub_cancel, UInt32.add_zero]

/-! ## Reading -/

section Reading

variable {α : Type} (parse : List UInt8 → α)

/-- The loop over a file hands these event sets to its body. -/
def Reads (bytes : List UInt8) (handed : List α) : Prop :=
  ∀ evset, ∃ t, (reading parse).Ends ((Reading.start bytes evset).test parse) t ∧
    t.handed = handed

/-- What the loop makes of messages of which the first `cut` bytes are on the disk. -/
def readable (messages : List Serialised) (cut : Nat) : List α :=
  (completed messages cut).map (fun m => parse m.bytes) ++ ((cutBody messages cut).map parse).toList

/-- The files, read in the order in which they were opened, give the messages: each file that
was closed all of its own, the last one those that were written out. -/
def ReadsBack (a : Archive) (opened : List EventFile) (messages : List Serialised) : Prop :=
  ∃ files file groups last cut, opened = files ++ [file] ∧ messages = groups.flatten ++ last ∧
    List.Forall₂ (fun file group =>
      Reads parse (a.shelf.onDisk file) (group.map fun m : Serialised => parse m.bytes))
        files groups ∧
    cut + a.shelf.buffer.length = (written last).length ∧
    Reads parse (a.shelf.onDisk file) (readable parse last cut)

theorem reads_cut (messages : List Serialised) (cut : Nat) :
    Reads parse ((messages.flatMap record).take cut) (readable parse messages cut) := by
  intro evset
  obtain ⟨t, hends, hhanded⟩ := @reading_ends α parse messages cut evset true []
  exact ⟨t, hends, by rw [hhanded, List.nil_append, readable]⟩

theorem readable_whole (messages : List Serialised) :
    readable parse messages (messages.flatMap record).length =
      messages.map fun m => parse m.bytes := by
  have hwhole : completed messages (messages.flatMap record).length = messages ∧
      cutBody messages (messages.flatMap record).length = none := by
    induction messages with
    | nil => exact ⟨rfl, rfl⟩
    | cons message messages ih =>
      have hlen : ((message :: messages).flatMap record).length =
          4 + message.bytes.length + (messages.flatMap record).length := by
        rw [List.flatMap_cons, List.length_append, length_record]
      have hle : 4 + message.bytes.length ≤ ((message :: messages).flatMap record).length := by
        omega
      rw [completed, cutBody, if_pos hle, if_pos hle, hlen, Nat.add_sub_cancel_left, ih.1, ih.2]
      exact ⟨rfl, rfl⟩
  rw [readable, hwhole.1, hwhole.2]
  exact List.append_nil _

theorem Sound.readsBack (h : a.Sound first closed file items) :
    ReadsBack parse a (closed.map Prod.fst ++ [file]) (closed.flatMap Prod.snd ++ items) := by
  have hlen := congrArg List.length h.shelf.opened
  rw [List.length_append] at hlen
  refine ⟨closed.map Prod.fst, file, closed.map Prod.snd, items,
    (items.flatMap record).length - a.shelf.buffer.length, rfl, ?_, ?_, ?_, ?_⟩
  · rw [List.flatMap_def]
  · rw [List.forall₂_map_left_iff, List.forall₂_map_right_iff, List.forall₂_same]
    intro entry hentry
    have hreads := reads_cut parse entry.2 (entry.2.flatMap record).length
    rw [List.take_length, readable_whole] at hreads
    rw [h.shelf.kept entry hentry]
    exact hreads
  · rw [written_eq]
    omega
  · rw [h.shelf.onDisk_eq]
    exact reads_cut parse items _

end Reading

/-- On a disk that works and with storing on, whatever files there are, whatever the limits are
and however the buffer is written out: no file is opened twice, and reading the files one after
the other gives the messages in the order in which they came, the last of them as far as they
were written out. A process opens 2 ^ 32 files before the numbers begin again. -/
theorem run_reads_back {α : Type} (parse : List UInt8 → α) (bdir run : String) (id : UInt32)
    (unset : Unset) {disk : Disk} (hdisk : FzWriter.Works disk) (esize dsize : UInt64)
    (onDisk : EventFile → List UInt8) {ops : List (Op × Spill)} {messages : List Serialised}
    (hops : ∀ op ∈ ops, FzWriter.Keeps op.1 ∧ op.1.Flushes)
    (hmessages : (ops.map Prod.fst).filterMap receivedBy = messages.map Serialised.bytes)
    (hfew : ((start bdir run id unset disk esize dsize onDisk).writer.newFiles
      (ops.map Prod.fst)).length < 2 ^ 32) :
    let a := start bdir run id unset disk esize dsize onDisk
    let opened := a.writer.lastFile disk :: a.writer.newFiles (ops.map Prod.fst)
    opened.Nodup ∧ ReadsBack parse (ops.foldl step a) opened messages := by
  intro a opened
  obtain ⟨closed, file, items, hsound, hfiles, hitems⟩ :=
    (start_sound bdir run id unset hdisk esize dsize onDisk).run hops hmessages
      (by rw [List.length_nil, Nat.zero_add]; exact hfew)
  have hlen := congrArg List.length hfiles
  simp only [List.length_append, List.length_map, List.length_cons, List.length_nil] at hlen
  have hnodup := hsound.nodup (by omega)
  have hback := hsound.readsBack parse
  rw [hfiles] at hnodup hback
  rw [hitems] at hback
  exact ⟨hnodup, hback⟩

/-- Three messages with a limit of two bytes for a file: the second one closes the first file,
and of the third one five bytes are written out. -/
def twoFiles : List (Op × Spill) :=
  [(.receive [8, 1] {}, {}), (.receive [8, 2, 3] {}, {}), (.receive [8, 4] {}, { write := 5 })]

/-- `run_reads_back` on them. -/
theorem twoFiles_reads_back :
    let a := start "data" "run" 0 {} {} 2 100 fun _ => [7]
    let opened := a.writer.lastFile {} :: a.writer.newFiles (twoFiles.map Prod.fst)
    opened.Nodup ∧ ReadsBack id (twoFiles.foldl step a) opened
      [⟨[8, 1], by decide, by decide⟩, ⟨[8, 2, 3], by decide, by decide⟩,
        ⟨[8, 4], by decide, by decide⟩] := by
  have hkeeps : ∀ message, FzWriter.Keeps (.receive message {}) :=
    fun _ => ⟨⟨rfl, rfl⟩, Op.noConfusion⟩
  refine run_reads_back id "data" "run" 0 {} ⟨rfl, rfl⟩ 2 100 (fun _ => [7]) ?_ rfl (by decide)
  intro op hop
  fin_cases hop <;> exact ⟨hkeeps _, rfl⟩

end Archive

end FzDaq.Writer
