import FzDaq.DataPath.EndToEnd
import FzDaq.Writer.Archive

/-!
# From the cards to the analysis

What is read from the files that a node leaves behind is what the cards have sent.
-/

namespace FzDaq.DataPath

open FzDaq.Machine FzDaq.Parser FzDaq.Parser.Wire FzDaq.Reader FzDaq.Utils FzDaq.Writer

namespace Node

variable {α : Type} {serialize : FzEvent → Serialised} {fmt : Format} {members : List Fsm}
  {ds : List Datagram} {m : Node}

theorem exists_serialised {L : Layout} {es : List (Event L)} {received : List (List UInt8)}
    (h : List.Forall₂ (IsMessage fun ev => (serialize ev).bytes) es received) :
    ∃ evs, List.Forall₂ (fun e (ev : FzEvent) => ev.Holds e) es evs ∧
      received = (evs.map serialize).map Serialised.bytes := by
  induction h with
  | nil => exact ⟨[], .nil, rfl⟩
  | cons hhead _ ih =>
    obtain ⟨ev, hholds, rfl⟩ := hhead
    obtain ⟨evs, hevs, rfl⟩ := ih
    exact ⟨ev :: evs, .cons hholds hevs, rfl⟩

/-- In a run of a node that has been drained, with storing on and on disks that work: whatever
the limits are and however the buffers are written out, the files read one after the other give
the events that were sent and are not empty, each one once, with one parser in their order, and
no others; of the file that was still open, those that were written out. -/
theorem run_archived (parse : List UInt8 → α) (es : List (Event (layoutOf fmt)))
    (hexact : ∀ e ∈ es, e.EverySection (layoutOf fmt).Exact)
    {part : List Word} (hpart : ∀ w ∈ part, closesEvent w = false)
    (hstream : FzReader.stream ds = es.flatMap Event.words ++ part)
    (hfits : FzReader.Fits {} ds) (bdir run : String) (id : UInt32) (unset : Unset) {disk : Disk}
    (hdisk : FzWriter.Works disk) (esize dsize : UInt64) (onDisk : EventFile → List UInt8)
    (hruns : Runs (fun ev => (serialize ev).bytes) (allocate fmt members
      (Archive.start bdir run id unset disk esize dsize onDisk).writer) ds m)
    (hdrained : m.Drained) {ops : List (Op × Spill)} (hops : ops.map Prod.fst = m.performed)
    (hkeeps : ∀ op ∈ m.performed, FzWriter.Keeps op ∧ op.Flushes)
    (hfew : ((Archive.start bdir run id unset disk esize dsize onDisk).writer.newFiles
      m.performed).length < 2 ^ 32) :
    let a := Archive.start bdir run id unset disk esize dsize onDisk
    let opened := a.writer.lastFile disk :: a.writer.newFiles m.performed
    ∃ es' evs, es'.Perm (es.filter fun e => !e.isEmpty) ∧
      (members.length = 1 → es' = es.filter fun e => !e.isEmpty) ∧
      List.Forall₂ (fun e (ev : FzEvent) => ev.Holds e) es' evs ∧
      (ops.foldl Archive.step a).ReadsBack parse opened (evs.map serialize) := by
  intro a opened
  obtain ⟨es', hperm, horder, hmessages⟩ :=
    Runs.messages es hexact hpart hstream hfits hruns hdrained
  obtain ⟨evs, hevs, hreceived⟩ := exists_serialised hmessages
  refine ⟨es', evs, hperm, horder, hevs, ?_⟩
  obtain ⟨closed, file, items, hsound, hfiles, hitems⟩ :=
    (Archive.start_sound bdir run id unset hdisk esize dsize onDisk).run
      (fun op hop => hkeeps op.1 (hops ▸ List.mem_map_of_mem hop)) (by rw [hops]; exact hreceived)
      (by rw [hops, List.length_nil, Nat.zero_add]; exact hfew)
  have hback := hsound.readsBack parse
  rw [hfiles, hitems, hops] at hback
  exact hback

/-- A writer that closes a directory behind each message. -/
def smallFiles : Archive := .start "data" "run" 0 {} {} 0 0 fun _ => []

/-- `run_archived` on one event. -/
theorem tagDatagram_archived : ∃ (es' : List (Event (layoutOf .tag))) (evs : List FzEvent),
    es'.Perm ([sampleTagEvent].filter fun e => !e.isEmpty) ∧
      ([({} : Fsm)].length = 1 → es' = [sampleTagEvent].filter fun e => !e.isEmpty) ∧
      List.Forall₂ (fun e (ev : FzEvent) => ev.Holds e) es' evs ∧
      ([(Op.setRcstate .running {}, {}), (.receive [0] {}, {})].foldl Archive.step
        smallFiles).ReadsBack id
        (smallFiles.writer.lastFile {} ::
          smallFiles.writer.newFiles [.setRcstate .running {}, .receive [0] {}])
        (evs.map fun _ => ⟨[0], by decide, by decide⟩) := by
  obtain ⟨m, hruns, hdrained, hops⟩ := tagDatagram_runs
  have hkeeps : ∀ op ∈ m.performed, FzWriter.Keeps op ∧ op.Flushes := by
    intro op hop
    rw [hops, List.mem_pair] at hop
    rcases hop with rfl | rfl
    · exact ⟨⟨⟨rfl, rfl⟩, Op.noConfusion⟩, rfl⟩
    · exact ⟨⟨⟨rfl, rfl⟩, Op.noConfusion⟩, rfl⟩
  have hfew : (smallFiles.writer.newFiles m.performed).length < 2 ^ 32 := by
    rw [hops]
    decide
  have harchived := @run_archived _ (fun _ => ⟨[0], by decide, by decide⟩) .tag [{}] [tagDatagram] m
    id [sampleTagEvent] tagDatagram_exact [0xE001] tagDatagram_open tagDatagram_stream
    tagDatagram_fits "data" "run" 0 {} {} ⟨rfl, rfl⟩ 0 0 (fun _ => []) hruns hdrained
    [(.setRcstate .running {}, {}), (.receive [0] {}, {})] hops.symm hkeeps hfew
  rw [hops] at harchived
  exact harchived

end Node

end FzDaq.DataPath
