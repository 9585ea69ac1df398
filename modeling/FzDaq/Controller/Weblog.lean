import FzDaq.Controller.Bijection
import FzDaq.Logger.FzHttpPost

/-!
# `FzController::process_weblog`

In each cycle the controller posts the figures of its nodes, a line for each reader and a
line for each writer. The second of the two loops over the map does not fetch the report
of its node: it goes on with the one that the first loop has fetched last.
-/

namespace FzDaq.Controller

open FzDaq.Logger

/-! ## Lines -/

section

/- What `rep.fsm(i)` finds for an `i` that is not below `fsm_size()`. -/
variable (past : Nat → Report.FzFSM)

/-- The sum of a figure over the parsers of a node, a `uint32_t`. -/
def total (figure : Report.FzFSM → UInt64) (rep : Report.Node) : UInt32 :=
  (List.range rep.parserNum.toNat).foldl
    (fun tot i => tot + (figure (rep.fsm[i]?.getD (past i))).toUInt32) 0

theorem foldl_toUInt32 {α : Type} (f : α → Nat) (xs : List α) (tot : UInt32) :
    xs.foldl (fun tot x => tot + (UInt64.ofNat (f x)).toUInt32) tot =
      tot + UInt32.ofNat (xs.map f).sum := by
  induction xs generalizing tot with
  | nil => simp
  | cons x xs ih =>
    rw [List.foldl_cons, ih, List.map_cons, List.sum_cons, UInt32.ofNat_add,
      UInt64.toUInt32_ofNat', UInt32.add_assoc]

def readerLine (rep : Report.Node) (reader : Report.FzReader) : Line :=
  [("hostname", rep.hostname),
    ("in_data", toString reader.inBytes.toNat),
    ("in_databw", toString reader.inBytesBw.toNat),
    ("in_event", toString reader.inEvents.toNat),
    ("in_eventbw", toString reader.inEventsBw.toNat),
    ("state_invalid", toString (total past Report.FzFSM.stateInvalid rep).toNat),
    ("events_empty", toString (total past Report.FzFSM.eventsEmpty rep).toNat),
    ("events_good", toString (total past Report.FzFSM.eventsGood rep).toNat),
    ("events_bad", toString (total past Report.FzFSM.eventsBad rep).toNat)]

def writerLine (rep : Report.Node) (writer : Report.FzWriter) : Line :=
  [("hostname", rep.hostname),
    ("out_data", toString writer.outBytes.toNat),
    ("out_databw", toString writer.outBytesBw.toNat),
    ("out_event", toString writer.outEvents.toNat),
    ("out_eventbw", toString writer.outEventsBw.toNat)]

/-! ## The cycle -/

/-- The variables of `process_weblog`. -/
structure Weblog where
  post : FZHttpPost
  rep : Report.Node
  send : Bool := false
  deriving DecidableEq, Repr

namespace Weblog

/-- `NewPost` before the first line of a loop, `SetDBCategory`, the pairs and `NewLine`. -/
def putLine (category : String) (s : Weblog) (line : Line) : Weblog :=
  let post := if s.send then s.post else s.post.newPost
  { s with send := true, post := (post.setDBCategory category).addLine line }

/-- `if(send) post.SendPost();`. -/
def flush (s : Weblog) : Weblog := if s.send then { s with post := s.post.sendPost } else s

/-- A turn of the loop over the readers. -/
def readerTurn (s : Weblog) (node : Report.Node) : Weblog :=
  let s := { s with rep := node }
  match s.rep.reader with
  | some reader => s.putLine "daq_reader" (readerLine past s.rep reader)
  | none => s

/-- A turn of the loop over the writers. -/
def writerTurn (s : Weblog) (_ : Report.Node) : Weblog :=
  match s.rep.writer with
  | some writer => s.putLine "daq_writer" (writerLine s.rep writer)
  | none => s

/-- The reports in `map`, in the order of their keys. -/
def cycle (s : Weblog) (map : List Report.Node) : Weblog :=
  let s := (map.foldl (readerTurn past) { s with send := false }).flush
  (map.foldl writerTurn { s with send := false }).flush

end Weblog

/-- The line that is put for a node, if it has a reader. -/
def readerLineOf (node : Report.Node) : Option Line := node.reader.map (readerLine past node)

end

namespace Weblog

variable {past : Nat → Report.FzFSM} {s : Weblog} {category : String}

/-! ## One loop -/

theorem foldl_putLine_send (hsend : s.send = true) (hcategory : s.post.fDBCategory = category)
    (lines : List Line) :
    lines.foldl (putLine category) s =
      { s with post := lines.foldl FZHttpPost.addLine s.post } := by
  induction lines generalizing s with
  | nil => rfl
  | cons line lines ih =>
    have hput : s.putLine category line = { s with post := s.post.addLine line } := by
      rw [putLine, if_pos hsend, FZHttpPost.setDBCategory, ← hcategory, ← hsend]
    rw [List.foldl_cons, hput]
    exact ih hsend ((FZHttpPost.addLine_members s.post line).category.trans hcategory)

/-- All lines that a loop puts are sent, in POSTs within the limit. -/
theorem flush_putLines (category : String) {lines : List Line} {w : Nat}
    (hsend : s.send = false) (hw : 0 < w)
    (hroom : w + 2 ≤ 1000) (harray : NulFree s.post.fPHPArrayName)
    (hlines : ∀ line ∈ lines, line.length = w)
    (hnames : ∀ line ∈ lines, ∀ pair ∈ line, NulFree pair.1) :
    ∃ batches : List (List Line),
      (lines.foldl (putLine category) s).flush.post.sent = s.post.sent ++
        batches.map (formOf s.post.fPHPArrayName s.post.fDBUserName category) ∧
      (lines.foldl (putLine category) s).flush.post.fPHPArrayName = s.post.fPHPArrayName ∧
      (lines.foldl (putLine category) s).flush.post.fDBUserName = s.post.fDBUserName ∧
      batches.flatten = lines.map cLine ∧ ∀ batch ∈ batches, FZHttpPost.Fits w batch := by
  cases lines with
  | nil =>
      exact ⟨[], by simp [flush, hsend], by simp [flush, hsend], by simp [flush, hsend], rfl,
        by simp⟩
  | cons line lines =>
    obtain ⟨batches, hsame, hsent, hflat, hfits⟩ := FZHttpPost.sent_lines
      (s.post.setDBCategory category) hw hroom hlines harray hnames
    have hloop : (line :: lines).foldl (putLine category) s =
        { s with
          send := true
          post := (line :: lines).foldl FZHttpPost.addLine
            (s.post.setDBCategory category).newPost } := by
      have hfirst : s.putLine category line =
          { s with
            send := true, post := (s.post.setDBCategory category).newPost.addLine line } := by
        rw [putLine, if_neg (by simp [hsend])]
        rfl
      rw [List.foldl_cons, hfirst]
      exact foldl_putLine_send rfl
        (FZHttpPost.addLine_members (s.post.setDBCategory category).newPost line).category lines
    rw [hloop]
    exact ⟨batches, hsent, hsame.array, hsame.user, hflat, hfits⟩

theorem foldl_readerTurn (map : List Report.Node) (s : Weblog) :
    map.foldl (readerTurn past) s =
      { (map.filterMap (readerLineOf past)).foldl (putLine "daq_reader") s with
        rep := map.getLast?.getD s.rep } := by
  have hrep (lines : List Line) (s : Weblog) (rep : Report.Node) :
      lines.foldl (putLine "daq_reader") { s with rep := rep } =
        { lines.foldl (putLine "daq_reader") s with rep := rep } := by
    induction lines generalizing s with
    | nil => rfl
    | cons line lines ih => exact ih (s.putLine "daq_reader" line)
  induction map generalizing s with
  | nil => rfl
  | cons node map ih =>
    rw [List.foldl_cons, ih, List.filterMap_cons, readerLineOf, List.getLast?_cons,
      Option.getD_some]
    cases hreader : node.reader with
    | none =>
      rw [readerTurn, hreader, Option.map_none]
      dsimp only
      rw [hrep]
    | some reader =>
      rw [readerTurn, hreader, Option.map_some]
      have hput : ({ s with rep := node } : Weblog).putLine "daq_reader"
          (readerLine past node reader) =
            { s.putLine "daq_reader" (readerLine past node reader) with rep := node } := rfl
      dsimp only
      rw [List.foldl_cons, hput, hrep]

theorem foldl_writerTurn (map : List Report.Node) (s : Weblog) :
    map.foldl writerTurn s = (match s.rep.writer with
      | some writer => List.replicate map.length (writerLine s.rep writer)
      | none => []).foldl (putLine "daq_writer") s := by
  induction map generalizing s with
  | nil => cases s.rep.writer <;> rfl
  | cons node map ih =>
    rw [List.foldl_cons, ih, writerTurn]
    cases hwriter : s.rep.writer with
    | none =>
      dsimp only
      rw [hwriter]
    | some writer =>
      have hrep : (s.putLine "daq_writer" (writerLine s.rep writer)).rep = s.rep := rfl
      dsimp only
      rw [hrep, hwriter]
      rfl

/-! ## The two loops -/

/-- The lines of the writers that are in fact put: one for each node, of the last of them. -/
def putWriters (map : List Report.Node) (rep : Report.Node) : List Line :=
  match rep.writer with
  | some writer => List.replicate map.length (writerLine rep writer)
  | none => []

theorem cycle_sent (past : Nat → Report.FzFSM) (hpar : s.post.fPHPArrayName = "par")
    (map : List Report.Node) :
    ∃ readers writers : List (List Line),
      (s.cycle past map).post.sent = s.post.sent ++
        (readers.map (formOf "par" s.post.fDBUserName "daq_reader") ++
          writers.map (formOf "par" s.post.fDBUserName "daq_writer")) ∧
      readers.flatten = (map.filterMap (readerLineOf past)).map cLine ∧
      writers.flatten = (putWriters map (map.getLast?.getD s.rep)).map cLine ∧
      (∀ batch ∈ readers, FZHttpPost.Fits 9 batch) ∧
      ∀ batch ∈ writers, FZHttpPost.Fits 5 batch := by
  have hreader : ∀ line ∈ map.filterMap (readerLineOf past),
      line.length = 9 ∧ ∀ pair ∈ line, NulFree pair.1 := by
    intro line hline
    obtain ⟨node, -, hnode⟩ := List.mem_filterMap.1 hline
    obtain ⟨reader, -, rfl⟩ := Option.map_eq_some_iff.1 hnode
    refine ⟨rfl, ?_⟩
    simp only [readerLine, List.forall_mem_cons]
    decide
  have hwriter (rep : Report.Node) : ∀ line ∈ putWriters map rep,
      line.length = 5 ∧ ∀ pair ∈ line, NulFree pair.1 := by
    intro line hline
    unfold putWriters at hline
    split at hline
    · rw [List.eq_of_mem_replicate hline]
      refine ⟨rfl, ?_⟩
      simp only [writerLine, List.forall_mem_cons]
      decide
    · cases hline
  obtain ⟨readers, hsent, harray, huser, hflat, hfits⟩ :=
    flush_putLines (s := { s with send := false }) "daq_reader" (w := 9) rfl (by decide)
      (by decide) (by rw [hpar]; decide) (fun line hline => (hreader line hline).1)
      fun line hline => (hreader line hline).2
  let mid := (map.foldl (readerTurn past) { s with send := false }).flush
  have hmid : mid.post = (((map.filterMap (readerLineOf past)).foldl (putLine "daq_reader")
      { s with send := false }).flush).post := by
    simp only [mid, foldl_readerTurn, flush]
    split <;> rfl
  have hrep : mid.rep = map.getLast?.getD s.rep := by
    simp only [mid, foldl_readerTurn, flush]
    split <;> rfl
  obtain ⟨writers, hsent', -, -, hflat', hfits'⟩ :=
    flush_putLines (s := { mid with send := false }) "daq_writer" (w := 5) rfl (by decide)
      (by decide) (by rw [hmid, harray, hpar]; decide)
      (fun line hline => (hwriter mid.rep line hline).1)
      fun line hline => (hwriter mid.rep line hline).2
  refine ⟨readers, writers, ?_, hflat, by rw [hflat', hrep], hfits, hfits'⟩
  have hcycle : s.cycle past map =
      ((putWriters map mid.rep).foldl (putLine "daq_writer") { mid with send := false }).flush := by
    rw [cycle, foldl_writerTurn]
    rfl
  rw [hcycle, hsent', hmid, hsent, harray, huser, hpar, List.append_assoc]

end Weblog

end FzDaq.Controller
