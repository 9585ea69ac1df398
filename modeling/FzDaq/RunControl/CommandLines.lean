import FzDaq.RunControl.Cli
import FzDaq.RunControl.Exclusion

/-!
# The two command lines

The controller and the console of a node take the same commands. Which of them they answer
alike, and from where on they go apart.
-/

namespace FzDaq.RunControl

open FzDaq.Writer

namespace FzCli

variable {c c' : FzCli} {cmd : RCcommand} {value : String} {fate fate' : Fate}
  {accepted : FzCli → FzCli}

/-! ## The two command lines -/

/-- The state behind a line of the controller. -/
def nextState (s : RCstate) (line : String) : RCstate :=
  match FzController.commandOf line with
  | some .start =>
    match RCFSM.next .configure s with
    | some s' => (RCFSM.next .start s').getD s'
    | none => s
  | some cmd => (RCFSM.next cmd s).getD s
  | none => s

/-- The state behind a line of a node in local mode. -/
def nextLocal (s : RCstate) (line : String) : RCstate :=
  match FzController.commandOf line with
  | some .start => stateAfter s [.configure, .start]
  | some cmd => (RCFSM.next cmd s).getD s
  | none => s

theorem nextState_eq_iff (s : RCstate) (line : String) :
    nextState s line = nextLocal s line ↔ ¬(line = "start" ∧ s = .ready) := by
  unfold nextState nextLocal FzController.commandOf
  split_ifs with hreset hconfigure hstart hstop
  · simp [hreset]
  · simp [hconfigure]
  · subst hstart
    cases s <;> decide
  · simp [hstop]
  · simp [hstart]

/-- A line that means the same to both, and does not end them. -/
def Shared (line : String) : Prop := line ∉ ["store", "nostore", "rec", "quit"]

/-- The lines that both take. -/
def sharedCommands : List String :=
  ["help", "status", "stats", "configure", "start", "stop", "reset"]

theorem sendEvent_keeps {value : String} {cmd : RCcommand} {p : Printed}
    (hmap : c.ctrl.map ≠ []) (hcmd : FzController.commandOf value = some cmd) :
    Keeps c (c.sendEvent value .answered fun c => c.say p) ∧
      (c.sendEvent value .answered fun c => c.say p).ctrl.rc.curstate =
        (RCFSM.next cmd c.ctrl.rc.curstate).getD c.ctrl.rc.curstate := by
  rw [sendEvent_answered hmap hcmd]
  cases RCFSM.next cmd c.ctrl.rc.curstate <;> exact ⟨⟨rfl, rfl, rfl, rfl⟩, rfl⟩

/-- The event "start" is sent only if the controller has taken the "configure". -/
theorem start_keeps {p : Printed} (hmap : c.ctrl.map ≠ []) :
    Keeps c (c.sendEvent "configure" .answered fun c =>
        c.sendEvent "start" .answered fun c => c.say p) ∧
      (c.sendEvent "configure" .answered fun c =>
        c.sendEvent "start" .answered fun c => c.say p).ctrl.rc.curstate =
          nextState c.ctrl.rc.curstate "start" := by
  have hconfigure : FzController.commandOf "configure" = some .configure := rfl
  rw [sendEvent_answered hmap hconfigure]
  have hstate : nextState c.ctrl.rc.curstate "start" =
      match RCFSM.next .configure c.ctrl.rc.curstate with
      | some s' => (RCFSM.next .start s').getD s'
      | none => c.ctrl.rc.curstate := rfl
  rw [hstate]
  cases hnext : RCFSM.next .configure c.ctrl.rc.curstate with
  | none => exact ⟨⟨rfl, rfl, rfl, rfl⟩, rfl⟩
  | some s =>
    let d : FzCli :=
      { c with
        ctrl := { c.ctrl with rc := { curstate := s, lasterr := .rcok } }
        pushes := c.pushes ++
          c.ctrl.pushBroadcast (FzController.statusRequest (c.eventRequest "configure") s) }
    have hstart : FzController.commandOf "start" = some .start := rfl
    obtain ⟨hkeeps, hcur⟩ := sendEvent_keeps (c := d) (p := p) hmap hstart
    exact ⟨⟨hkeeps.map, hkeeps.hostname, hkeeps.lastcmd, hkeeps.exit⟩, hcur⟩

theorem command_shared {line : String} (hmap : c.ctrl.map ≠ []) (hline : Shared line) :
    (line ∉ sharedCommands ∧ c.command .answered .answered line = none) ∨
      line ∈ sharedCommands ∧ ∃ d, c.command .answered .answered line = some d ∧ Keeps c d ∧
        d.ctrl.rc.curstate = nextState c.ctrl.rc.curstate line := by
  simp only [Shared, List.mem_cons, List.not_mem_nil, or_false, not_or] at hline
  obtain ⟨hstore, hnostore, -, hquit⟩ := hline
  have hquiet : ∀ {d : FzCli}, Stays c d → FzController.commandOf line = none →
      Keeps c d ∧ d.ctrl.rc.curstate = nextState c.ctrl.rc.curstate line := by
    intro d hstays hnone
    refine ⟨hstays.toKeeps, ?_⟩
    rw [hstays.curstate, nextState, hnone]
  unfold command
  split_ifs with h h h h h h h h
  · exact .inr
      ⟨by simp [sharedCommands, h], c, rfl, hquiet (stays_self c) (by rw [h]; decide +kernel)⟩
  · subst h
    have hcmd : FzController.commandOf "configure" = some .configure := rfl
    exact .inr ⟨by decide, _, rfl, sendEvent_keeps hmap hcmd⟩
  · subst h
    exact .inr ⟨by decide, _, rfl, start_keeps hmap⟩
  · subst h
    have hcmd : FzController.commandOf "stop" = some .stop := rfl
    exact .inr ⟨by decide, _, rfl, sendEvent_keeps hmap hcmd⟩
  · subst h
    have hcmd : FzController.commandOf "reset" = some .reset := rfl
    exact .inr ⟨by decide, _, rfl, sendEvent_keeps hmap hcmd⟩
  · refine .inr ⟨by simp [sharedCommands, h], _, rfl, hquiet ?_ (by rw [h]; decide +kernel)⟩
    exact (sendRead_stays ..).trans (sendRead_stays ..)
  · exact .inr ⟨by simp [sharedCommands, h], _, rfl,
      hquiet (sendRead_stays ..) (by rw [h]; decide +kernel)⟩
  · exact absurd h (by simp [hstore, hnostore])
  · exact .inl ⟨by simp [sharedCommands, *], rfl⟩

/-- A command line of the controller and one of a node in local mode that have been typed the
same. -/
structure Alike (c : FzCli) (d : Console) : Prop where
  lastcmd : c.lastcmd = d.lastcmd
  shared : Shared c.lastcmd
  map : c.ctrl.map ≠ []
  rcmode : d.nm.rcmode = .rcModeLocal
  exit : c.exit = false
  closed : d.closed = false

theorem console_shared {d : Console} (disk : Disk) {line : String}
    (hmode : d.nm.rcmode = .rcModeLocal) (hline : Shared line) :
    ∃ nm, d.command disk line = some (decide (line ∉ sharedCommands), { d with nm := nm }) ∧
      nm.rcmode = .rcModeLocal ∧ nm.rc.curstate = nextLocal d.nm.rc.curstate line := by
  simp only [Shared, List.mem_cons, List.not_mem_nil, or_false, not_or] at hline
  obtain ⟨hstore, hnostore, hrec, hquit⟩ := hline
  have hprocess : ∀ cmd, (d.nm.rcProcess cmd disk).2.rcmode = .rcModeLocal :=
    fun cmd => rcProcess_rcmode.trans hmode
  unfold Console.command
  rw [hmode]
  by_cases hread : line = "help" ∨ line = "status" ∨ line = "stats"
  · rw [if_pos hread]
    refine ⟨d.nm, ?_, hmode, ?_⟩
    · rcases hread with rfl | rfl | rfl <;> rfl
    · rcases hread with rfl | rfl | rfl <;> rfl
  rw [if_neg hread, if_neg hrec, if_neg hquit]
  by_cases hconfigure : line = "configure"
  · subst hconfigure
    exact ⟨_, rfl, hprocess .configure, rcProcess_curstate hmode ..⟩
  by_cases hstart : line = "start"
  · subst hstart
    refine ⟨_, rfl, rcProcess_rcmode.trans (hprocess .configure), ?_⟩
    rw [rcProcess_curstate (hprocess .configure), rcProcess_curstate hmode]
    rfl
  by_cases hstop : line = "stop"
  · subst hstop
    exact ⟨_, rfl, hprocess .stop, rcProcess_curstate hmode ..⟩
  by_cases hreset : line = "reset"
  · subst hreset
    exact ⟨_, rfl, hprocess .reset, rcProcess_curstate hmode ..⟩
  have hnone : Console.localCommand d.nm disk line = none := by
    simp [Console.localCommand, hconfigure, hstart, hstop, hreset, hstore, hnostore]
  refine ⟨d.nm, ?_, hmode, ?_⟩
  · rw [hnone]
    simp only [not_or] at hread
    simp [sharedCommands, hread, hconfigure, hstart, hstop, hreset]
  · simp [nextLocal, FzController.commandOf, hconfigure, hstart, hstop, hreset]

/-- What is typed, with the line that `r` repeats. -/
def resolve (lastcmd typed : String) : String := if typed = "r" then lastcmd else typed

variable {d : Console} {disk : Disk} {typed : String} {lines : List (String × Disk)}

theorem commandOf_none {line : String} (h : line ∉ sharedCommands) :
    FzController.commandOf line = none := by
  simp only [sharedCommands, List.mem_cons, List.not_mem_nil, or_false, not_or] at h
  obtain ⟨-, -, -, hconfigure, hstart, hstop, hreset⟩ := h
  simp [FzController.commandOf, hconfigure, hstart, hstop, hreset]

theorem line_eq (hopen : ¬(c.exit = true ∨ typed = "")) :
    c.line typed fate fate' =
      match c.command fate fate' (resolve c.lastcmd typed) with
      | some c' => { c' with lastcmd := resolve c.lastcmd typed }
      | none => c :=
  if_neg hopen

theorem getline_eq (hempty : typed ≠ "") :
    d.getline disk (some typed) =
      (d.command disk (resolve d.lastcmd typed)).map fun r =>
        if r.1 = true ∧ typed ≠ "r" then r.2
        else { r.2 with lastcmd := resolve d.lastcmd typed } :=
  if_neg hempty

theorem Alike.line (h : Alike c d) (disk : Disk) (htyped : Shared typed) :
    ∃ d', d.step (.line disk (some typed)) = some d' ∧
      Alike (c.line typed .answered .answered) d' ∧
      (c.line typed .answered .answered).ctrl.rc.curstate =
        nextState c.ctrl.rc.curstate (resolve c.lastcmd typed) ∧
      d'.nm.rc.curstate = nextLocal d.nm.rc.curstate (resolve c.lastcmd typed) := by
  have hstep : d.step (.line disk (some typed)) = d.getline disk (some typed) :=
    if_neg (by rw [h.closed]; exact Bool.false_ne_true)
  rw [hstep]
  by_cases hempty : typed = ""
  · rw [Console.getline, FzCli.line, if_pos hempty, if_pos (.inr hempty), hempty]
    exact ⟨d, rfl, h, rfl, rfl⟩
  have hopen : ¬(c.exit = true ∨ typed = "") := by
    rw [h.exit]
    simpa using hempty
  have hshared : Shared (resolve c.lastcmd typed) := by
    unfold resolve
    split
    · exact h.shared
    · exact htyped
  rw [line_eq hopen, getline_eq hempty, ← h.lastcmd]
  obtain ⟨nm, hconsole, hmode, hlocal⟩ := console_shared disk h.rcmode hshared
  rw [hconsole, Option.map_some]
  rcases command_shared h.map hshared with
    ⟨hunknown, hcommand⟩ | ⟨hknown, c₁, hcommand, hkeeps, hcur⟩
  · have hnone := commandOf_none hunknown
    have hsame : nextState c.ctrl.rc.curstate (resolve c.lastcmd typed) =
        c.ctrl.rc.curstate := by
      rw [nextState, hnone]
    rw [hcommand, decide_eq_true hunknown, hsame]
    by_cases hrepeat : typed = "r"
    · rw [if_neg fun hand => hand.2 hrepeat]
      have hlast : resolve c.lastcmd typed = c.lastcmd := if_pos hrepeat
      exact ⟨_, rfl, ⟨hlast.symm, h.shared, h.map, hmode, h.exit, h.closed⟩, rfl, hlocal⟩
    · rw [if_pos ⟨rfl, hrepeat⟩]
      exact ⟨_, rfl, ⟨h.lastcmd, h.shared, h.map, hmode, h.exit, h.closed⟩, rfl, hlocal⟩
  · rw [hcommand, if_neg (by simp [hknown])]
    refine ⟨_, rfl, ⟨rfl, hshared, ?_, hmode, ?_, h.closed⟩, hcur, hlocal⟩
    · dsimp only
      rw [hkeeps.map]
      exact h.map
    · exact hkeeps.exit.trans h.exit

/-- No line is a `start` in READY. -/
def NeverStartsReady (c : FzCli) : List (String × Disk) → Prop
  | [] => True
  | (typed, _) :: lines =>
    ¬(resolve c.lastcmd typed = "start" ∧ c.ctrl.rc.curstate = .ready) ∧
      (c.line typed .answered .answered).NeverStartsReady lines

/-- The two show the same state behind each of the lines, and the node takes them all. -/
def Agree (c : FzCli) (d : Console) : List (String × Disk) → Prop
  | [] => c.ctrl.rc.curstate = d.nm.rc.curstate
  | (typed, disk) :: lines => c.ctrl.rc.curstate = d.nm.rc.curstate ∧
    ∃ d', d.step (.line disk (some typed)) = some d' ∧
      (c.line typed .answered .answered).Agree d' lines

theorem Agree.curstate (h : c.Agree d lines) : c.ctrl.rc.curstate = d.nm.rc.curstate := by
  cases lines with
  | nil => exact h
  | cons l lines => exact h.1

theorem Alike.agrees_iff (h : Alike c d) (hcur : c.ctrl.rc.curstate = d.nm.rc.curstate)
    (hlines : ∀ l ∈ lines, Shared l.1) : c.Agree d lines ↔ c.NeverStartsReady lines := by
  induction lines generalizing c d with
  | nil => exact iff_of_true hcur trivial
  | cons l lines ih =>
    obtain ⟨typed, disk⟩ := l
    obtain ⟨hhead, htail⟩ := List.forall_mem_cons.1 hlines
    obtain ⟨d', hstep, halike, hctrl, hnode⟩ := h.line disk hhead
    have hnext := nextState_eq_iff c.ctrl.rc.curstate (resolve c.lastcmd typed)
    rw [← hctrl, hcur, ← hnode] at hnext
    rw [Agree, NeverStartsReady, hcur]
    constructor
    · rintro ⟨-, d₁, hstep', hagree⟩
      obtain rfl := Option.some.inj (hstep.symm.trans hstep')
      have hsame := hagree.curstate
      exact ⟨hnext.1 hsame, (ih halike hsame htail).1 hagree⟩
    · rintro ⟨hready, hnever⟩
      have hsame := hnext.2 hready
      exact ⟨rfl, d', hstep, (ih halike hsame htail).2 hnever⟩

/-- As long as both are typed the same, the controller is in the state of a node in local mode
exactly if no `start` is typed in READY, where the node starts and the controller does not. -/
theorem agree_iff (hostname : String) (map : List (String × Node)) (hmap : map ≠ [])
    (n : FzNodeManager) (hmode : n.rcmode = .rcModeLocal) (hidle : n.rc.curstate = .idle)
    (hlines : ∀ l ∈ lines, Shared l.1) :
    Agree { ctrl := { map := map }, hostname := hostname } { nm := n } lines ↔
      NeverStartsReady { ctrl := { map := map }, hostname := hostname } lines := by
  have hlast : Shared "" := by
    unfold Shared
    decide
  exact Alike.agrees_iff ⟨rfl, hlast, hmap, hmode, rfl, rfl⟩ hidle.symm hlines

/-- `agree_iff` for a `start` in IDLE. -/
theorem start_agrees : Agree { ctrl := FzController.oneNode, hostname := "fazia-ctrl" }
    { nm := localNode } [("start", {}), ("stop", {})] := by
  have hshared : ∀ l ∈ [("start", ({} : Disk)), ("stop", {})], Shared l.1 := by
    intro l hl
    unfold Shared
    simp only [List.mem_cons, List.not_mem_nil, or_false] at hl
    rcases hl with rfl | rfl <;> decide
  have hnever : NeverStartsReady { ctrl := FzController.oneNode, hostname := "fazia-ctrl" }
      [("start", {}), ("stop", {})] := by
    refine ⟨?_, ?_, trivial⟩ <;>
      · rintro ⟨-, hready⟩
        exact absurd hready (by decide +kernel)
  exact (agree_iff "fazia-ctrl" FzController.oneNode.map (by decide) localNode rfl rfl hshared).2
    hnever

end FzCli

end FzDaq.RunControl
