import FzDaq.Controller.Weblog

/-!
# What the weblog publishes

The lines that the server finds, against those that it should find: a line with the figures
of its own for each node that has a reader, and one for each node that has a writer.
-/

namespace FzDaq.Controller

open FzDaq.Logger

/-! ## What is to be published -/

/-- A figure of a node: the sum of it over the state machines of its parsers. -/
def ownTotal (figure : Report.FzFSM → UInt64) (node : Report.Node) : Nat :=
  ((node.fsm.take node.parserNum.toNat).map fun fsm => (figure fsm).toNat).sum

/-- The line of a node that has a reader. -/
def ownReaderLine (node : Report.Node) (reader : Report.FzReader) : Line :=
  [("hostname", node.hostname),
    ("in_data", toString reader.inBytes.toNat),
    ("in_databw", toString reader.inBytesBw.toNat),
    ("in_event", toString reader.inEvents.toNat),
    ("in_eventbw", toString reader.inEventsBw.toNat),
    ("state_invalid", toString (ownTotal Report.FzFSM.stateInvalid node)),
    ("events_empty", toString (ownTotal Report.FzFSM.eventsEmpty node)),
    ("events_good", toString (ownTotal Report.FzFSM.eventsGood node)),
    ("events_bad", toString (ownTotal Report.FzFSM.eventsBad node))]

/-- The line of a node that has a writer. -/
def ownWriterLine (node : Report.Node) (writer : Report.FzWriter) : Line :=
  [("hostname", node.hostname),
    ("out_data", toString writer.outBytes.toNat),
    ("out_databw", toString writer.outBytesBw.toNat),
    ("out_event", toString writer.outEvents.toNat),
    ("out_eventbw", toString writer.outEventsBw.toNat)]

def ownReaderLineOf (node : Report.Node) : Option Line := node.reader.map (ownReaderLine node)

def ownWriterLineOf (node : Report.Node) : Option Line := node.writer.map (ownWriterLine node)

/-- The lines of a category in some POSTs. -/
def linesOf (category : String) (posts : List Form) : List Line :=
  (posts.filter fun form => form.category == some category).flatMap fun form => form.lines "par"

/-- The lines of each POST are numbered without gaps, and it has no more pairs than PHP takes. -/
structure WellFormed (form : Form) : Prop where
  numbered : ∃ n, ∀ i, form.lineAt "par" i ≠ [] ↔ i < n
  limit : (form.length : Int) ≤ FZHttpPost.fMaxPHP

/-- Each node's figures are published once. -/
structure Publishes (posts : List Form) (map : List Report.Node) : Prop where
  readers : (linesOf "daq_reader" posts).Perm (map.filterMap ownReaderLineOf)
  writers : (linesOf "daq_writer" posts).Perm (map.filterMap ownWriterLineOf)
  wellFormed : ∀ form ∈ posts, WellFormed form

/-- The figures of the state machines that the weblog adds up. -/
def figures : List (Report.FzFSM → UInt64) :=
  [Report.FzFSM.stateInvalid, Report.FzFSM.eventsEmpty, Report.FzFSM.eventsGood,
    Report.FzFSM.eventsBad]

/-- There is no writer, or no other node. The names of the nodes in question are C strings; the
report of a reader has the figures of all its parsers, and their sums fit in a `uint32_t`. -/
structure Publishable (map : List Report.Node) : Prop where
  nulFree : ∀ node ∈ map, node.reader.isSome ∨ node.writer.isSome → NulFree node.hostname
  writers : (∀ node ∈ map, node.writer = none) ∨ map.length = 1
  parserNum : ∀ node ∈ map, node.reader.isSome → node.parserNum.toNat ≤ node.fsm.length
  sums : ∀ node ∈ map, node.reader.isSome → ∀ figure ∈ figures, ownTotal figure node < 2 ^ 32

variable {past : Nat → Report.FzFSM} {s : Weblog} {map : List Report.Node}

/-! ## Sums -/

theorem total_toNat (past : Nat → Report.FzFSM) (figure : Report.FzFSM → UInt64)
    (node : Report.Node) : (total past figure node).toNat =
      ((List.range node.parserNum.toNat).map fun i =>
        (figure (node.fsm[i]?.getD (past i))).toNat).sum % 2 ^ 32 := by
  have hfold := foldl_toUInt32 (fun i => (figure (node.fsm[i]?.getD (past i))).toNat)
    (List.range node.parserNum.toNat) 0
  simp only [UInt64.ofNat_toNat, UInt32.zero_add] at hfold
  rw [total, hfold, UInt32.toNat_ofNat']

/-- Where the report has them all, these are the figures of the node. -/
theorem total_eq_own (figure : Report.FzFSM → UInt64) {node : Report.Node}
    (hnum : node.parserNum.toNat ≤ node.fsm.length) :
    (total past figure node).toNat = ownTotal figure node % 2 ^ 32 := by
  have hparts : (List.range node.parserNum.toNat).map (fun i => node.fsm[i]?.getD (past i)) =
      node.fsm.take node.parserNum.toNat := by
    refine List.ext_getElem (by simp [hnum]) fun i hi hi' => ?_
    have hlt : i < node.fsm.length := by
      rw [List.length_take] at hi'
      omega
    simp [List.getElem?_eq_getElem hlt]
  rw [total_toNat, ownTotal, ← hparts, List.map_map]
  rfl

/-- What may lie behind `n` figures. -/
def zeros (_ : Nat) : Report.FzFSM := ⟨0, 0, 0, 0⟩

/-- The same, with a good event in the first place. -/
def oneGood (n i : Nat) : Report.FzFSM := if i = n then ⟨0, 0, 1, 0⟩ else zeros i

theorem sum_oneGood (fsms : List Report.FzFSM) (k : Nat) :
    ((List.range k).map fun i => (fsms[i]?.getD (oneGood fsms.length i)).eventsGood.toNat).sum =
      ((List.range k).map fun i => (fsms[i]?.getD (zeros i)).eventsGood.toNat).sum +
        if fsms.length < k then 1 else 0 := by
  induction k with
  | zero => rfl
  | succ k ih =>
    have hterm : (fsms[k]?.getD (oneGood fsms.length k)).eventsGood.toNat =
        (fsms[k]?.getD (zeros k)).eventsGood.toNat + if k = fsms.length then 1 else 0 := by
      by_cases hk : k = fsms.length
      · rw [List.getElem?_eq_none (Nat.le_of_eq hk.symm)]
        simp [oneGood, zeros, hk]
      · simp [oneGood, hk]
    simp only [List.range_succ, List.map_append, List.sum_append, List.map_singleton,
      List.sum_singleton, ih, hterm]
    split_ifs <;> omega

/-- The sums are those of the node, whatever lies behind its figures, exactly if none of that is
read and they fit in a `uint32_t`. -/
theorem total_own_iff (node : Report.Node) :
    (∀ past, ∀ figure ∈ figures, (total past figure node).toNat = ownTotal figure node) ↔
      node.parserNum.toNat ≤ node.fsm.length ∧
        ∀ figure ∈ figures, ownTotal figure node < 2 ^ 32 := by
  constructor
  · intro h
    refine ⟨?_, fun figure hfigure => h zeros figure hfigure ▸ UInt32.toNat_lt _⟩
    by_contra hnum
    have hgood : Report.FzFSM.eventsGood ∈ figures := by simp [figures]
    have hone := h (oneGood node.fsm.length) _ hgood
    rw [← h zeros _ hgood, total_toNat, total_toNat, sum_oneGood,
      if_pos (Nat.lt_of_not_le hnum)] at hone
    omega
  · rintro ⟨hnum, hsums⟩ past figure hfigure
    rw [total_eq_own figure hnum, Nat.mod_eq_of_lt (hsums figure hfigure)]

theorem readerLine_own_iff (past : Nat → Report.FzFSM) (node : Report.Node)
    (reader : Report.FzReader) : readerLine past node reader = ownReaderLine node reader ↔
      ∀ figure ∈ figures, (total past figure node).toNat = ownTotal figure node := by
  simp [readerLine, ownReaderLine, figures]

namespace Weblog

/-! ## Lines that are found again -/

theorem linesOf_append (category : String) (posts posts' : List Form) :
    linesOf category (posts ++ posts') = linesOf category posts ++ linesOf category posts' := by
  rw [linesOf, List.filter_append, List.flatMap_append, linesOf, linesOf]

theorem fits_ne_nil {batches : List (List Line)} {w : Nat} (hw : 0 < w)
    (hfits : ∀ batch ∈ batches, FZHttpPost.Fits w batch) :
    ∀ batch ∈ batches, ∀ line ∈ batch, line ≠ [] := by
  intro batch hbatch line hline
  refine List.ne_nil_of_length_pos ?_
  rw [(hfits batch hbatch).width line hline]
  exact hw

theorem linesOf_formOf (category user category' : String) {batches : List (List Line)}
    (hne : ∀ batch ∈ batches, ∀ line ∈ batch, line ≠ []) :
    linesOf category (batches.map (formOf "par" user category')) =
      if cStr category' = category then batches.flatten else [] := by
  induction batches with
  | nil => simp [linesOf]
  | cons batch batches ih =>
    obtain ⟨hfirst, hrest⟩ := List.forall_mem_cons.1 hne
    rw [List.map_cons, ← List.singleton_append, linesOf_append, ih hrest]
    have hone : linesOf category [formOf "par" user category' batch] =
        if cStr category' = category then batch else [] := by
      by_cases hcategory : cStr category' = category
      · simp [linesOf, category_formOf, hcategory, lines_formOf hfirst]
      · simp [linesOf, category_formOf, hcategory]
    rw [hone]
    split <;> simp

theorem wellFormed_formOf (user category : String) {batch : List Line} {w : Nat} (hw : 0 < w)
    (hfits : FZHttpPost.Fits w batch) : WellFormed (formOf "par" user category batch) := by
  have hne : ∀ line ∈ batch, line ≠ [] := fits_ne_nil hw (List.forall_mem_singleton.2 hfits) batch
    (List.mem_singleton_self batch)
  refine ⟨⟨batch.length, lineAt_formOf_ne_nil hne⟩, ?_⟩
  have hsum : (batch.map List.length).sum = w * batch.length := by
    rw [List.sum_eq_card_nsmul _ w, List.length_map, smul_eq_mul, Nat.mul_comm]
    intro n hn
    obtain ⟨line, hline, rfl⟩ := List.mem_map.1 hn
    exact hfits.width line hline
  have hlimit := hfits.limit
  rw [length_formOf, hsum, FZHttpPost.fMaxPHP]
  omega

theorem cStr_cStr (t : String) : cStr (cStr t) = cStr t := by
  simp [cStr, List.takeWhile_takeWhile]

theorem cLine_cLine (line : Line) : cLine (cLine line) = cLine line := by
  simp [cLine, cStr_cStr]

/-- The server finds the lines that are put if they are made of C strings. -/
theorem map_cLine_perm_iff (ls : List Line) :
    (ls.map cLine).Perm ls ↔ ∀ line ∈ ls, cLine line = line := by
  constructor
  · intro hperm line hline
    obtain ⟨line', -, rfl⟩ := List.mem_map.1 (hperm.mem_iff.2 hline)
    exact cLine_cLine line'
  · intro h
    rw [List.map_congr_left h, List.map_id']

theorem nulFree_repr (n : Nat) : NulFree n.repr := nulFree_toString n

theorem cLine_readerLine (past : Nat → Report.FzFSM) (rep : Report.Node)
    (reader : Report.FzReader) :
    cLine (readerLine past rep reader) = readerLine past rep reader ↔ NulFree rep.hostname := by
  simp [cLine, readerLine, cStr_eq_self_iff, nulFree_repr]

theorem cLine_writerLine (rep : Report.Node) (writer : Report.FzWriter) :
    cLine (writerLine rep writer) = writerLine rep writer ↔ NulFree rep.hostname := by
  simp [cLine, writerLine, cStr_eq_self_iff, nulFree_repr]

theorem mem_readerLines {line : Line} : line ∈ map.filterMap (readerLineOf past) ↔
    ∃ node ∈ map, ∃ reader, node.reader = some reader ∧ line = readerLine past node reader := by
  simp [List.mem_filterMap, readerLineOf, eq_comm]

theorem mem_ownReaderLines {line : Line} : line ∈ map.filterMap ownReaderLineOf ↔
    ∃ node ∈ map, ∃ reader, node.reader = some reader ∧ line = ownReaderLine node reader := by
  simp [List.mem_filterMap, ownReaderLineOf, eq_comm]

theorem readers_perm_iff (hhosts : (map.map fun node => node.hostname).Nodup) :
    ((map.filterMap (readerLineOf past)).map cLine).Perm (map.filterMap ownReaderLineOf) ↔
      ∀ node ∈ map, ∀ reader, node.reader = some reader →
        NulFree node.hostname ∧ readerLine past node reader = ownReaderLine node reader := by
  constructor
  · intro hperm
    -- The line of a node has come from some node, whose name is the same as a C string.
    have hfrom : ∀ node ∈ map, ∀ reader, node.reader = some reader → ∃ node' ∈ map, ∃ reader',
        node'.reader = some reader' ∧
          ownReaderLine node reader = cLine (readerLine past node' reader') := by
      intro node hnode reader hreader
      have hmem := hperm.mem_iff.2 (mem_ownReaderLines.2 ⟨node, hnode, reader, hreader, rfl⟩)
      obtain ⟨line, hline, hown⟩ := List.mem_map.1 hmem
      obtain ⟨node', hnode', reader', hreader', rfl⟩ := mem_readerLines.1 hline
      exact ⟨node', hnode', reader', hreader', hown.symm⟩
    have hname {node node' : Report.Node} {reader reader' : Report.FzReader}
        (h : ownReaderLine node reader = cLine (readerLine past node' reader')) :
        node.hostname = cStr node'.hostname := congrArg Prod.snd (List.cons.inj h).1
    have hnul : ∀ node ∈ map, ∀ reader, node.reader = some reader → NulFree node.hostname := by
      intro node hnode reader hreader
      obtain ⟨node', -, reader', -, hline⟩ := hfrom node hnode reader hreader
      rw [hname hline, ← cStr_eq_self_iff, cStr_cStr]
    intro node hnode reader hreader
    refine ⟨hnul node hnode reader hreader, ?_⟩
    obtain ⟨node', hnode', reader', hreader', hline⟩ := hfrom node hnode reader hreader
    have hcstr : cStr node'.hostname = node'.hostname :=
      (cStr_eq_self_iff _).2 (hnul node' hnode' reader' hreader')
    obtain rfl : node = node' :=
      List.inj_on_of_nodup_map hhosts hnode hnode' ((hname hline).trans hcstr)
    obtain rfl : reader = reader' := Option.some.inj (hreader.symm.trans hreader')
    rw [hline, (cLine_readerLine past node reader).2 (hnul node hnode reader hreader)]
  · intro h
    have hline : ∀ node ∈ map, (readerLineOf past node).map cLine = ownReaderLineOf node := by
      intro node hnode
      cases hreader : node.reader with
      | none => rw [readerLineOf, ownReaderLineOf, hreader]; rfl
      | some reader =>
        obtain ⟨hnul, hown⟩ := h node hnode reader hreader
        rw [readerLineOf, ownReaderLineOf, hreader, Option.map_some, Option.map_some,
          (cLine_readerLine past node reader).2 hnul, Option.map_some, hown]
    rw [List.map_filterMap, List.filterMap_congr hline]

/-- Nodes of one name in a map in which the names differ. -/
theorem length_le_one_of_hostname {map : List Report.Node} {name : String}
    (hhosts : (map.map fun node => node.hostname).Nodup)
    (hname : ∀ node ∈ map, node.hostname = name) : map.length ≤ 1 := by
  have hrep : (map.map fun node => node.hostname) = List.replicate map.length name := by
    rw [← List.map_const]
    exact List.map_congr_left hname
  rw [hrep, List.nodup_replicate] at hhosts
  exact hhosts

/-- If all that the elements of a list make is one thing, each of them makes it. -/
theorem eq_some_of_perm_replicate {α β : Type} {f : α → Option β} {xs : List α} {y : β}
    (hperm : (List.replicate xs.length y).Perm (xs.filterMap f)) : ∀ x ∈ xs, f x = some y := by
  have hlen : (xs.filterMap f).length = xs.length := by
    rw [← hperm.length_eq, List.length_replicate]
  intro x hx
  cases hfx : f x with
  | none => exact absurd hlen (Nat.ne_of_lt
      (List.length_filterMap_lt_length_iff_exists.2 ⟨x, hx, hfx⟩))
  | some z =>
    have hmem := hperm.mem_iff.2 (List.mem_filterMap.2 ⟨x, hx, hfx⟩)
    rw [List.eq_of_mem_replicate hmem]

/-- The lines of the writers are right if there are none, or if the last node is the only one. -/
theorem writers_perm_iff {map : List Report.Node} {last : Report.Node}
    (hlast : map.getLast? = some last) (hhosts : (map.map fun node => node.hostname).Nodup) :
    ((putWriters map last).map cLine).Perm (map.filterMap ownWriterLineOf) ↔
      (∀ node ∈ map, node.writer.isSome → NulFree node.hostname) ∧
        ((∀ node ∈ map, node.writer = none) ∨ map.length = 1) := by
  have hmem : last ∈ map := List.mem_of_getLast? hlast
  cases hwriter : last.writer with
  | none =>
    rw [putWriters, hwriter, List.map_nil, List.nil_perm, List.filterMap_eq_nil_iff]
    constructor
    · intro hnone
      have hnone : ∀ node ∈ map, node.writer = none := fun node hnode =>
        Option.map_eq_none_iff.1 (hnone node hnode)
      refine ⟨fun node hnode hsome => ?_, .inl hnone⟩
      rw [hnone node hnode] at hsome
      cases hsome
    · rintro ⟨-, hnone | hone⟩ node hnode
      · rw [ownWriterLineOf, hnone node hnode, Option.map_none]
      · obtain ⟨only, rfl⟩ := List.length_eq_one_iff.1 hone
        rw [List.mem_singleton.1 hnode, ← List.mem_singleton.1 hmem, ownWriterLineOf, hwriter,
          Option.map_none]
  | some writer =>
    rw [putWriters, hwriter, List.map_replicate]
    constructor
    · intro hperm
      have hsame := eq_some_of_perm_replicate hperm
      have hname : ∀ node ∈ map, node.hostname = cStr last.hostname := by
        intro node hnode
        obtain ⟨writer', -, hline⟩ := Option.map_eq_some_iff.1 (hsame node hnode)
        exact congrArg Prod.snd (List.cons.inj hline).1
      have hone := length_le_one_of_hostname hhosts hname
      refine ⟨fun node hnode _ => ?_, .inr (Nat.le_antisymm hone (List.length_pos_of_mem hmem))⟩
      rw [hname node hnode, ← cStr_eq_self_iff, cStr_cStr]
    · rintro ⟨hnul, hnone | hone⟩
      · rw [hnone last hmem] at hwriter
        cases hwriter
      · obtain ⟨only, rfl⟩ := List.length_eq_one_iff.1 hone
        obtain rfl := List.mem_singleton.1 hmem
        have hline := (cLine_writerLine last writer).2 (hnul last hmem (by rw [hwriter]; rfl))
        simp [ownWriterLineOf, hwriter, hline]
        rfl

end Weblog

theorem cycle_lines (past : Nat → Report.FzFSM) (s : Weblog) (hpar : s.post.fPHPArrayName = "par")
    (hne : map ≠ []) :
    ∃ posts, (s.cycle past map).post.sent = s.post.sent ++ posts ∧
      linesOf "daq_reader" posts = (map.filterMap (readerLineOf past)).map cLine ∧
      linesOf "daq_writer" posts = (Weblog.putWriters map (map.getLast hne)).map cLine ∧
      ∀ form ∈ posts, WellFormed form := by
  obtain ⟨readers, writers, hsent, hflat, hflat', hfits, hfits'⟩ :=
    Weblog.cycle_sent past hpar map
  have hreader : cStr "daq_reader" = "daq_reader" := (cStr_eq_self_iff _).2 (by decide)
  have hwriter : cStr "daq_writer" = "daq_writer" := (cStr_eq_self_iff _).2 (by decide)
  have hlines := Weblog.fits_ne_nil (by decide) hfits
  have hlines' := Weblog.fits_ne_nil (by decide) hfits'
  refine ⟨_, hsent, ?_, ?_, ?_⟩
  · rw [Weblog.linesOf_append, Weblog.linesOf_formOf _ _ _ hlines,
      Weblog.linesOf_formOf _ _ _ hlines', if_pos hreader, hwriter, if_neg (by decide), hflat,
      List.append_nil]
  · rw [Weblog.linesOf_append, Weblog.linesOf_formOf _ _ _ hlines,
      Weblog.linesOf_formOf _ _ _ hlines', if_pos hwriter, hreader, if_neg (by decide), hflat',
      List.getLast?_eq_some_getLast hne, Option.getD_some, List.nil_append]
  · intro form hform
    rcases List.mem_append.1 hform with hform | hform
    · obtain ⟨batch, hbatch, rfl⟩ := List.mem_map.1 hform
      exact Weblog.wellFormed_formOf _ _ (by decide) (hfits batch hbatch)
    · obtain ⟨batch, hbatch, rfl⟩ := List.mem_map.1 hform
      exact Weblog.wellFormed_formOf _ _ (by decide) (hfits' batch hbatch)

/-- Whatever lies behind the figures, a cycle publishes each node's own exactly if the last node
speaks for all writers, and the sums of the readers are those of their nodes. -/
theorem cycle_publishes_iff (s : Weblog) (map : List Report.Node)
    (hpar : s.post.fPHPArrayName = "par") (hne : map ≠ [])
    (hhosts : (map.map fun node => node.hostname).Nodup) :
    ((∀ past, ∃ posts, (s.cycle past map).post.sent = s.post.sent ++ posts ∧
        Publishes posts map) ↔ Publishable map) ∧
      ∀ past, ∃ posts, (s.cycle past map).post.sent = s.post.sent ++ posts ∧
        ∀ form ∈ posts, WellFormed form := by
  have hwriters := Weblog.writers_perm_iff (List.getLast?_eq_some_getLast hne) hhosts
  refine ⟨⟨fun h => ?_, fun h past => ?_⟩, fun past => ?_⟩
  · have hright : ∀ past, (∀ node ∈ map, ∀ reader, node.reader = some reader →
        NulFree node.hostname ∧ readerLine past node reader = ownReaderLine node reader) ∧
        (∀ node ∈ map, node.writer.isSome → NulFree node.hostname) ∧
          ((∀ node ∈ map, node.writer = none) ∨ map.length = 1) := by
      intro past
      obtain ⟨posts, hsent, hr, hw, -⟩ := h past
      obtain ⟨posts', hsent', hfound, hfound', -⟩ := cycle_lines past s hpar hne
      obtain rfl := List.append_cancel_left (hsent'.symm.trans hsent)
      rw [hfound, Weblog.readers_perm_iff hhosts] at hr
      rw [hfound', hwriters] at hw
      exact ⟨hr, hw⟩
    have hown : ∀ node ∈ map, node.reader.isSome → node.parserNum.toNat ≤ node.fsm.length ∧
        ∀ figure ∈ figures, ownTotal figure node < 2 ^ 32 := by
      intro node hnode hsome
      obtain ⟨reader, hreader⟩ := Option.isSome_iff_exists.1 hsome
      refine (total_own_iff node).1 fun past => ?_
      exact (readerLine_own_iff past node reader).1 ((hright past).1 node hnode reader hreader).2
    obtain ⟨hreaders, hnul, hone⟩ := hright zeros
    refine ⟨fun node hnode hsome => hsome.elim (fun hr => ?_) (hnul node hnode), hone,
      fun node hnode hsome => (hown node hnode hsome).1,
      fun node hnode hsome => (hown node hnode hsome).2⟩
    obtain ⟨reader, hreader⟩ := Option.isSome_iff_exists.1 hr
    exact (hreaders node hnode reader hreader).1
  · obtain ⟨posts, hsent, hfound, hfound', hwell⟩ := cycle_lines past s hpar hne
    refine ⟨posts, hsent, ?_, ?_, hwell⟩
    · rw [hfound, Weblog.readers_perm_iff hhosts]
      intro node hnode reader hreader
      have hsome : node.reader.isSome := Option.isSome_iff_exists.2 ⟨reader, hreader⟩
      have hown := (total_own_iff node).2 ⟨h.parserNum node hnode hsome, h.sums node hnode hsome⟩
      exact ⟨h.nulFree node hnode (.inl hsome), (readerLine_own_iff past node reader).2 (hown past)⟩
    · rw [hfound', hwriters]
      exact ⟨fun node hnode hsome => h.nulFree node hnode (.inr hsome), h.writers⟩
  · obtain ⟨posts, hsent, -, -, hwell⟩ := cycle_lines past s hpar hne
    exact ⟨posts, hsent, hwell⟩

/-- A node that has a reader and two parsers, and a writer. -/
def twoParserNode : Report.Node :=
  { idleNode "a" with
    parserNum := 2
    reader := some { inBytes := 40, inEvents := 4 }
    fsm := [⟨0, 1, 1, 0⟩, ⟨1, 0, 1, 1⟩]
    writer := some { outBytes := 0, outEvents := 0 } }

/-- `cycle_publishes_iff` on it. -/
theorem cycle_publishes_one : ∃ posts,
    (Weblog.cycle zeros { post := { fPHPArrayName := "par" }, rep := idleNode "" }
      [twoParserNode]).post.sent = posts ∧ Publishes posts [twoParserNode] := by
  have hpublishable : Publishable [twoParserNode] := by
    refine ⟨?_, .inr rfl, ?_, ?_⟩ <;> simp only [List.forall_mem_singleton] <;> intro _
    · decide
    · decide
    · simp only [figures, List.forall_mem_cons]
      decide
  exact (cycle_publishes_iff { post := { fPHPArrayName := "par" }, rep := idleNode "" }
    [twoParserNode] rfl (by decide) (by decide)).1.2 hpublishable zeros

/-- A node without parsers that has a writer. -/
def writerNode (hostname : String) : Report.Node :=
  { idleNode hostname with writer := some { outBytes := 0, outEvents := 0 } }

/-- Of two nodes with writers the last one is published twice. -/
theorem not_publishes_writers : ∃ posts,
    (Weblog.cycle zeros { post := { fPHPArrayName := "par" }, rep := idleNode "" }
      [writerNode "a", writerNode "b"]).post.sent = posts ∧
      ¬Publishes posts [writerNode "a", writerNode "b"] := by
  refine ⟨_, rfl, fun h => ?_⟩
  have hw := h.writers
  revert hw
  decide

/-- The reports that the collector files are under different names. -/
theorem collector_nodup {turns : List (Option (Report.Node × Int) × (Nat → Int))}
    (hcalls : Completes {} (turns.flatMap fun turn => collectorTurn turn.1 turn.2) r) :
    ((r.map.map MapElem.second).map fun node => node.hostname).Nodup := by
  have hdated : Dated {} (lastReport []) := fun _ helem => absurd helem List.not_mem_nil
  obtain ⟨h, -⟩ := linked_empty.completes hdated hcalls
  rw [List.map_map, show r.map.map ((fun node => node.hostname) ∘ MapElem.second) =
    r.map.map MapElem.first from List.map_congr_left (collector_hostname hcalls)]
  exact h.hosts

end FzDaq.Controller
