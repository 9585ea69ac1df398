import FzDaq.Controller.Perfdata
import FzDaq.Controller.Weblog

/-!
# From the nodes to the weblog

The reports of the nodes come to the collector in any order, or not at all; the weblog adds up
the figures of as many state machines as a report says that there are. All that a node sends
has that many, so a cycle of the weblog stays inside of what was sent, as long as the collector
does not write to the map: `mapmutex` is not taken by `process_weblog`.
-/

namespace FzDaq.Controller

open FzDaq.RunControl FzDaq.Logger

/-- A report of a reader has the figures of all its parsers. -/
def Report.Node.Sized (rep : Report.Node) : Prop :=
  rep.reader.isSome → rep.fsm.length = rep.parserNum.toNat

theorem Perfdata.NodeReport.Sized.toReport {rep : Perfdata.NodeReport} (h : rep.Sized) :
    rep.toReport.Sized := by
  intro hsome
  have hreader : rep.reader.isSome := by simpa [Perfdata.NodeReport.toReport] using hsome
  simpa [Perfdata.NodeReport.toReport] using h.fsm hreader

/-- The nodes, the reports on their way, and the collector. -/
structure Monitoring where
  nodes : List Perfdata.Thread
  flight : List Report.Node := []
  registry : Registry := {}

namespace Monitoring

/-- One step of a node, of the network or of the collector. -/
inductive Moves (σ : Monitoring) : Monitoring → Prop
  | perfdata (i : Nat) {p : Perfdata.Thread} (hp : σ.nodes[i]? = some p) (rcState : RCstate)
      (store : Bool) (t0 t1 : Perfdata.Snapshot) :
      Moves σ { σ with
        nodes := σ.nodes.set i (p.turn rcState store t0 t1)
        flight := σ.flight ++ [(p.turn rcState store t0 t1).nodereport.toReport] }
  | lose (i : Nat) : Moves σ { σ with flight := σ.flight.eraseIdx i }
  | collect (i : Nat) {rep : Report.Node} (hrep : σ.flight[i]? = some rep) (now : Int)
      (clock : Nat → Int) {registry : Registry}
      (hcalls : Completes σ.registry (collectorTurn (some (rep, now)) clock) registry) :
      Moves σ { σ with flight := σ.flight.eraseIdx i, registry }
  | timeout (clock : Nat → Int) {registry : Registry}
      (hcalls : Completes σ.registry (collectorTurn none clock) registry) :
      Moves σ { σ with registry }

inductive Runs (σ : Monitoring) : Monitoring → Prop
  | start : Runs σ σ
  | move {τ τ' : Monitoring} (h : Runs σ τ) (hmove : Moves τ τ') : Runs σ τ'

/-- Nodes that have not reported yet, and a controller that has been started. -/
def idle (nodes : List (String × Perfdata.Kind × UInt32)) : Monitoring where
  nodes := nodes.map fun n => { hostname := n.1, kind := n.2.1, nparsers := n.2.2 }

/-! ## The reports that the controller has -/

/-- Whatever a report of the registry is filed under, it has come from a node. -/
structure Sound (σ : Monitoring) : Prop where
  nodes : ∀ p ∈ σ.nodes, p.Sound
  flight : ∀ rep ∈ σ.flight, rep.Sized
  registry : ∃ turns : List (Option (Report.Node × Int) × (Nat → Int)),
    Completes {} (turns.flatMap fun turn => collectorTurn turn.1 turn.2) σ.registry ∧
      ∀ turn ∈ turns, ∀ rep ∈ turn.1, rep.1.Sized

theorem completes_append {r r' r'' : Registry} {calls more : List Call}
    (h : Completes r calls r') (hmore : Completes r' more r'') :
    Completes r (calls ++ more) r'' := by
  induction calls generalizing r with
  | nil =>
    obtain rfl : r' = r := h
    exact hmore
  | cons call calls ih =>
    obtain ⟨fuel, q, hcall, hcalls⟩ := h
    exact ⟨fuel, q, hcall, ih hcalls⟩

variable {past past' : Nat → Report.FzFSM} {σ τ : Monitoring}

theorem Sound.turn (h : σ.Sound) (turn : Option (Report.Node × Int) × (Nat → Int))
    {registry : Registry} (hcalls : Completes σ.registry (collectorTurn turn.1 turn.2) registry)
    (hturn : ∀ rep ∈ turn.1, rep.1.Sized) :
    ∃ turns : List (Option (Report.Node × Int) × (Nat → Int)),
      Completes {} (turns.flatMap fun turn => collectorTurn turn.1 turn.2) registry ∧
        ∀ turn ∈ turns, ∀ rep ∈ turn.1, rep.1.Sized := by
  obtain ⟨turns, hbefore, hsized⟩ := h.registry
  refine ⟨turns ++ [turn], ?_, ?_⟩
  · rw [List.flatMap_append, List.flatMap_singleton]
    exact completes_append hbefore hcalls
  · intro turn' hmem
    rcases List.mem_append.1 hmem with hmem | hmem
    · exact hsized turn' hmem
    · rw [List.mem_singleton.1 hmem]
      exact hturn

theorem Sound.move (h : σ.Sound) (hmove : Moves σ τ) : τ.Sound := by
  cases hmove with
  | @perfdata i p hp rcState store t0 t1 =>
    have hturn : (p.turn rcState store t0 t1).Sound := (h.nodes p (List.mem_of_getElem? hp)).turn
    refine ⟨fun q hq => ?_, fun rep hrep => ?_, h.registry⟩
    · rcases List.mem_or_eq_of_mem_set hq with hq | rfl
      · exact h.nodes q hq
      · exact hturn
    · rcases List.mem_append.1 hrep with hrep | hrep
      · exact h.flight rep hrep
      · rw [List.mem_singleton.1 hrep]
        exact hturn.sized.toReport
  | lose i =>
      exact ⟨h.nodes, fun rep hrep => h.flight rep (List.mem_of_mem_eraseIdx hrep), h.registry⟩
  | collect i hrep now clock hcalls =>
    refine ⟨h.nodes, fun rep hrep => h.flight rep (List.mem_of_mem_eraseIdx hrep),
      h.turn (some (_, now), clock) hcalls fun rep hsome => ?_⟩
    obtain rfl := Option.some.inj hsome
    exact h.flight _ (List.mem_of_getElem? hrep)
  | timeout clock hcalls =>
    exact ⟨h.nodes, h.flight,
      h.turn (none, clock) hcalls fun rep hsome => absurd hsome (Option.not_mem_none rep)⟩

/-- Every report in the map is one that a turn of the collector has got. -/
theorem Sound.sized (h : σ.Sound) : ∀ elem ∈ σ.registry.map, elem.second.Sized := by
  intro elem helem
  obtain ⟨turns, hcalls, hsized⟩ := h.registry
  have hdated : Dated {} (lastReport []) := fun _ helem => absurd helem List.not_mem_nil
  obtain ⟨hlinked, hd⟩ := linked_empty.completes hdated hcalls
  obtain ⟨entry, -, -, -, hlast⟩ := (hlinked.inBijection hd).once elem helem
  obtain ⟨turn, hturn, hmem⟩ := List.mem_flatMap.1 (lastReport_mem hlast)
  rcases List.mem_append.1 hmem with hmem | hmem
  · obtain ⟨rep, hrep, hcall⟩ := Option.map_eq_some_iff.1 (Option.mem_toList.1 hmem)
    obtain ⟨-, hv, -⟩ := Call.mapInsert.inj hcall
    rw [← hv]
    exact hsized turn hturn rep hrep
  · cases List.mem_singleton.1 hmem

/-! ## What the weblog reads -/

/-- Of a report with all figures, nothing else is added up. -/
theorem total_eq {rep : Report.Node} (hfsm : rep.fsm.length = rep.parserNum.toNat)
    (figure : Report.FzFSM → UInt64) :
    total past figure rep = rep.fsm.foldl (fun tot fsm => tot + (figure fsm).toUInt32) 0 := by
  have hparts : (List.range rep.parserNum.toNat).map (fun i => rep.fsm[i]?.getD (past i)) =
      rep.fsm := by
    refine List.ext_getElem (by rw [List.length_map, List.length_range, hfsm]) fun i _ hi => ?_
    rw [List.getElem_map, List.getElem_range, List.getElem?_eq_getElem hi, Option.getD_some]
  calc total past figure rep
      = ((List.range rep.parserNum.toNat).map fun i => rep.fsm[i]?.getD (past i)).foldl
          (fun tot fsm => tot + (figure fsm).toUInt32) 0 := by
            rw [List.foldl_map]
            rfl
    _ = rep.fsm.foldl (fun tot fsm => tot + (figure fsm).toUInt32) 0 := by rw [hparts]

theorem readerLineOf_eq {rep : Report.Node} (h : rep.Sized) :
    readerLineOf past rep = readerLineOf past' rep := by
  unfold readerLineOf
  cases hreader : rep.reader with
  | none => rfl
  | some reader =>
    have hfsm := h (by rw [hreader]; rfl)
    simp only [Option.map_some, readerLine, total_eq hfsm]

theorem cycle_eq {map : List Report.Node} (h : ∀ rep ∈ map, rep.Sized) (s : Weblog) :
    s.cycle past map = s.cycle past' map := by
  have hlines : map.filterMap (readerLineOf past) = map.filterMap (readerLineOf past') :=
    List.filterMap_congr fun rep hrep => readerLineOf_eq (h rep hrep)
  unfold Weblog.cycle
  rw [Weblog.foldl_readerTurn, Weblog.foldl_readerTurn, hlines]

theorem Sound.run (h : σ.Sound) (hruns : Runs σ τ) : τ.Sound := by
  induction hruns with
  | start => exact h
  | move _ hmove ih => exact ih.move hmove

theorem sound_idle (nodes : List (String × Perfdata.Kind × UInt32)) : (idle nodes).Sound := by
  refine ⟨fun p hp => ?_, by simp [idle], [], rfl, by simp⟩
  obtain ⟨n, -, rfl⟩ := List.mem_map.1 hp
  exact Perfdata.Thread.sound_start n.1 n.2.1 n.2.2

/-- Whatever nodes there are and in whatever order their reports come: each report in the map has
the figures of as many state machines as it says, and a cycle of the weblog over the map as it is
sends the same whatever lies in memory behind the figures. -/
theorem run_inside (nodes : List (String × Perfdata.Kind × UInt32)) (hruns : Runs (idle nodes) σ) :
    (∀ elem ∈ σ.registry.map, elem.second.reader.isSome →
        elem.second.fsm.length = elem.second.parserNum.toNat) ∧
      ∀ (s : Weblog) (past past' : Nat → Report.FzFSM),
        s.cycle past (σ.registry.map.map MapElem.second) =
          s.cycle past' (σ.registry.map.map MapElem.second) := by
  have hsound : σ.Sound := (sound_idle nodes).run hruns
  refine ⟨hsound.sized, fun s past past' => cycle_eq (fun rep hrep => ?_) s⟩
  obtain ⟨elem, helem, rfl⟩ := List.mem_map.1 hrep
  exact hsound.sized elem helem

/-- A node with two parsers. -/
def twoParsers : List (String × Perfdata.Kind × UInt32) := [("fazia0", .compute, 2)]

/-- The variables of the weblog in front of its first cycle. -/
def freshWeblog : Weblog :=
  { post := { fPHPArrayName := "par" }
    rep := { hostname := "", profile := "", status := "" } }

/-- `run_inside` behind a report. -/
theorem twoParsers_inside : ∃ σ, Runs (idle twoParsers) σ ∧ σ.registry.map.length = 1 ∧
    freshWeblog.cycle (fun _ => ⟨0, 0, 0, 0⟩) (σ.registry.map.map MapElem.second) =
      freshWeblog.cycle (fun i => ⟨i.toUInt64, 7, 7, 7⟩) (σ.registry.map.map MapElem.second) := by
  let p : Perfdata.Thread := { hostname := "fazia0", kind := .compute, nparsers := 2 }
  have hreport := Runs.start.move
    (.perfdata 0 (show (idle twoParsers).nodes[0]? = some p from rfl) .running false {} {} :
      Moves (idle twoParsers) _)
  obtain ⟨registry, hcalls, hone⟩ : ∃ registry, Completes {}
      (collectorTurn (some ((p.turn .running false {} {}).nodereport.toReport, 0)) fun _ => 1)
        registry ∧ registry.map.length = 1 :=
    ⟨_, ⟨0, _, rfl, 2, _, rfl, rfl⟩, rfl⟩
  have hruns := hreport.move (.collect 0 rfl 0 (fun _ => 1) hcalls)
  exact ⟨_, hruns, hone, (run_inside twoParsers hruns).2 freshWeblog _ _⟩

end Monitoring

end FzDaq.Controller
