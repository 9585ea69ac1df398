import FzDaq.DataPath.Conservation
import FzDaq.Reader.Wire

/-!
# From the cards to the disk

The reader cuts the datagrams where one event ends and the next begins, a parser reads each
event as it was meant, and the writer stores what has come of it. Once nothing is on its
way any more, the messages are those of the events that were sent, without the empty ones.
-/

namespace FzDaq.DataPath

open FzDaq.Machine FzDaq.Parser FzDaq.Parser.Wire FzDaq.Reader FzDaq.Writer

variable {serialize : FzEvent → List UInt8} {fmt : Format} {L : Layout}

/-- The message holds the event as it was sent, with what the parser has noted of it. -/
def IsMessage (serialize : FzEvent → List UInt8) (e : Event L) (m : List UInt8) : Prop :=
  ∃ ev : FzEvent, ev.Holds e ∧ m = serialize ev

/-- A parser makes of the words of an event its message, or none if the event is empty. -/
theorem Parsed.of_words {e : Event L} {o : Option (List UInt8)} (hL : L.Decodes fmt)
    (hdata : L.OfData) (hexact : e.EverySection L.Exact) (h : Parsed serialize fmt e.words o) :
    if e.isEmpty then o = none else ∃ m, o = some m ∧ IsMessage serialize e m := by
  obtain ⟨E, fuel, s, r, hE, hf, hrun, rfl⟩ := h
  obtain ⟨fuel', r', hrun', hret, hholds⟩ := Fsm.parse_words_holds hL e hexact hf hE s
  obtain rfl := Fsm.parse_unique hrun hrun'
  obtain ⟨ch, hch⟩ := FzReader.exists_chunk (e.words_closed hdata)
  have hcarries : E.Carries ch := ⟨hch ▸ hE.size, hch ▸ hE.word⟩
  have hempty : r'.eventIsEmpty = e.isEmpty := by
    obtain ⟨N, -, hcontent⟩ := hholds
    rw [Fsm.parse_eventIsEmpty hcarries hrun hret, ← Fsm.noData_content, hcontent,
      Fsm.noData_toEvent]
  unfold message
  rw [hempty]
  cases e.isEmpty with
  | true => simp
  | false => exact ⟨_, if_pos ⟨hret, rfl⟩, _, hholds, rfl⟩

theorem messages_of_worked {worked : List (List Word × Option (List UInt8))}
    (hL : L.Decodes fmt) (hdata : L.OfData) {es : List (Event L)}
    (hexact : ∀ e ∈ es, e.EverySection L.Exact)
    (hsound : ∀ w ∈ worked, Parsed serialize fmt w.1 w.2)
    (hwords : worked.map Prod.fst = es.map Event.words) :
    List.Forall₂ (IsMessage serialize) (es.filter fun e => !e.isEmpty)
      (worked.filterMap Prod.snd) := by
  induction es generalizing worked with
  | nil =>
      rw [List.map_nil, List.map_eq_nil_iff] at hwords
      subst hwords
      exact .nil
  | cons e es ih =>
      obtain ⟨⟨c, o⟩, worked, rfl, rfl, hrest⟩ := List.map_eq_cons_iff.1 hwords
      have htail := ih (fun e he => hexact e (List.mem_cons_of_mem _ he))
        (fun w hw => hsound w (List.mem_cons_of_mem _ hw)) hrest
      have hhead := Parsed.of_words hL hdata (hexact e List.mem_cons_self)
        (hsound _ List.mem_cons_self)
      cases hempty : e.isEmpty with
      | true =>
          rw [hempty, if_pos rfl] at hhead
          obtain rfl : o = none := hhead
          simpa [hempty] using htail
      | false =>
          rw [hempty, if_neg Bool.false_ne_true] at hhead
          obtain ⟨m, hm, hmessage⟩ := hhead
          obtain rfl : o = some m := hm
          simpa [hempty] using List.Forall₂.cons hmessage htail

theorem exists_perm_of_map {α β : Type} {f : α → β} {ys : List β} {xs : List α}
    (h : ys.Perm (xs.map f)) : ∃ zs : List α, zs.Perm xs ∧ ys = zs.map f := by
  have hcomp := congrFun₂ (List.eq_map_comp_perm f) ys xs
  obtain ⟨zs, hmap, hperm⟩ := hcomp.symm.mp h
  exact ⟨zs, hperm, hmap⟩

namespace Node

variable {n m : Node} {ds : List Datagram} {members : List Fsm}

/-- Nothing is on its way any more. -/
structure Drained (m : Node) : Prop where
  unhanded : m.unhanded = []
  inboxes : m.inboxes = []
  outboxes : m.outboxes = []

theorem Drained.pool (h : m.Drained) : m.pool.Empty :=
  ⟨h.unhanded, m.pool_inboxes.trans h.inboxes, m.pool_outboxes.trans h.outboxes⟩

/-- On a node on which nothing is on its way, the messages that come are those of the events
that the reader completes. -/
theorem Drained.messages (hn : n.Tidy fmt) (hempty : n.Drained) {xs : List Word}
    (hcuts : n.rd.Cuts xs) (es : List (Event (layoutOf fmt)))
    (hexact : ∀ e ∈ es, e.EverySection (layoutOf fmt).Exact) {part : List Word}
    (hpart : ∀ w ∈ part, closesEvent w = false)
    (hstream : n.rd.chunk ++ FzReader.stream ds = es.flatMap Event.words ++ part)
    (hfits : n.rd.Fits ds) (hruns : Runs serialize n ds m) (hdrained : m.Drained) :
    ∃ new es', m.received = n.received ++ new ∧ es'.Perm (es.filter fun e => !e.isEmpty) ∧
      (n.psrArray.length = 1 → es' = es.filter fun e => !e.isEmpty) ∧
      List.Forall₂ (IsMessage serialize) es' new := by
  have hL := layoutOf_decodes fmt
  have hdata := layoutOf_ofData fmt
  obtain ⟨sent, hsent, hpool, hrd⟩ := hn.pool_runs hruns
  rw [hrd, (hcuts.sent_eq_words hdata es hpart hstream hfits).1, List.append_cancel_left_eq]
    at hsent
  obtain ⟨new, hreceived, hanew⟩ := hpool.anew hempty.pool
  obtain ⟨worked, hsound, hitems, hresults, hone⟩ := hanew.conserves
  have hlanes : n.pool.lanes.length = n.psrArray.length := List.length_map _
  change (_ ++ (m.pool.inboxes ++ m.pool.source)).Perm _ at hitems
  change (new ++ m.pool.outboxes).Perm _ at hresults
  change _ → _ ++ (m.pool.inboxes ++ m.pool.source) = _ ∧ new ++ m.pool.outboxes = _ at hone
  rw [hdrained.pool.inboxes, hdrained.pool.source, List.append_nil, List.append_nil, ← hsent]
    at hitems hone
  rw [hdrained.pool.outboxes, List.append_nil] at hresults hone
  rw [hlanes] at hone
  by_cases horder : n.psrArray.length = 1
  · obtain ⟨hitems, hresults⟩ := hone horder
    refine ⟨new, _, hreceived, .refl _, fun _ => rfl, ?_⟩
    rw [hresults]
    exact messages_of_worked hL hdata hexact hsound hitems
  · obtain ⟨es₁, hes₁, hwords⟩ := exists_perm_of_map hitems
    have hmessages := messages_of_worked hL hdata
      (fun e he => hexact e (hes₁.mem_iff.1 he)) hsound hwords
    obtain ⟨es₂, hforall, hperm⟩ := List.perm_comp_forall₂ hresults hmessages.flip
    exact ⟨new, es₂, hreceived, hperm.trans (hes₁.filter _), fun h => absurd h horder,
      hforall.flip⟩

theorem drained_allocate (fmt : Format) (members : List Fsm) (wr : FzWriter) :
    (allocate fmt members wr).Drained := by
  refine ⟨rfl, ?_, ?_⟩ <;>
    simp [allocate, inboxes, outboxes, ParserThread.outbox, FzParser.new]

theorem Runs.messages (es : List (Event (layoutOf fmt)))
    (hexact : ∀ e ∈ es, e.EverySection (layoutOf fmt).Exact) {part : List Word}
    (hpart : ∀ w ∈ part, closesEvent w = false)
    (hstream : FzReader.stream ds = es.flatMap Event.words ++ part)
    (hfits : FzReader.Fits {} ds) {wr : FzWriter}
    (hruns : Runs serialize (allocate fmt members wr) ds m) (hdrained : m.Drained) :
    ∃ es', es'.Perm (es.filter fun e => !e.isEmpty) ∧
      (members.length = 1 → es' = es.filter fun e => !e.isEmpty) ∧
      List.Forall₂ (IsMessage serialize) es' m.received := by
  obtain ⟨new, es', hreceived, hperm, hone, hmessages⟩ :=
    (drained_allocate fmt members wr).messages (tidy_allocate fmt members wr)
      FzReader.cuts_start es hexact hpart hstream hfits hruns hdrained
  obtain rfl : m.received = new := hreceived
  refine ⟨es', hperm, fun h => hone ?_, hmessages⟩
  rw [← h]
  exact List.length_map _

/-- An event of the tag format in one datagram, with the head of another one behind it. -/
def tagDatagram : Datagram := ⟨[0, 1] ++ (sampleTagEvent.words ++ [0xE001]), by decide⟩

/-- It comes through one parser, once this and the writer are running. -/
theorem tagDatagram_runs : ∃ m,
    Runs (fun _ => [0]) (allocate .tag [{}] (.create "data" "run" 0 {} {})) [tagDatagram] m ∧
      m.Drained ∧ m.performed = [.setRcstate .running {}, .receive [0] {}] := by
  obtain ⟨m₀, m₁, m₂, m₃, t, hset, hhand, ht, hinbox, hfmt, hparse, hcollect, hunhanded, hin,
      hout, hops⟩ :
      ∃ m₀ m₁ m₂ m₃ t, (allocate .tag [{}] (.create "data" "run" 0 {} {})).setRcstate 0
          .running = some m₀ ∧
        ((m₀.perform (.setRcstate .running {})).datagram tagDatagram).hand 0 = some m₁ ∧
        m₁.psrArray[0]? = some t ∧ t.inbox = [sampleTagEvent.words] ∧ t.psr.evformat = .tag ∧
        m₁.parse (fun _ => [0]) 0 (.ofWords .tag sampleTagEvent.words) 40 = some m₂ ∧
        m₂.collect 0 {} = some m₃ ∧ m₃.unhanded = [] ∧ m₃.inboxes = [] ∧ m₃.outboxes = [] ∧
        m₃.performed = [.setRcstate .running {}, .receive [0] {}] :=
    ⟨_, _, _, _, _, rfl, rfl, rfl, rfl, rfl, rfl, rfl, rfl, rfl, rfl, rfl⟩
  have hcame : Runs (fun _ => [0]) (allocate .tag [{}] (.create "data" "run" 0 {} {}))
      [tagDatagram] _ := ((Runs.start.setRcstate 0 .running hset).control
    (.setRcstate .running {}) rfl).datagram tagDatagram
  have hruns := ((hcame.move (.hand 0 hhand)).move
    (.parse 0 _ 40 _ ⟨⟨t, [], ht, hinbox, hfmt.symm⟩, Env.ofWords_delivers _ _⟩ hparse)).move
      (.collect 0 {} hcollect)
  exact ⟨m₃, hruns, ⟨hunhanded, hin, hout⟩, hops⟩

theorem tagDatagram_stream : FzReader.stream [tagDatagram] =
    ([sampleTagEvent] : List (Event (layoutOf .tag))).flatMap Event.words ++ [0xE001] := by
  have hpayload : tagDatagram.payload = sampleTagEvent.words ++ [0xE001] := by
    rw [Datagram.payload, show tagDatagram.offset = 2 by decide]
    rfl
  rw [FzReader.stream_singleton, hpayload, List.flatMap_singleton]

theorem tagDatagram_open : ∀ w ∈ [(0xE001 : Word)], closesEvent w = false := by
  intro w hw
  obtain rfl := List.mem_singleton.1 hw
  rfl

theorem tagDatagram_fits : FzReader.Fits {} [tagDatagram] := ⟨by decide, trivial⟩

theorem tagDatagram_exact : ∀ e ∈ ([sampleTagEvent] : List (Event (layoutOf .tag))),
    e.EverySection (layoutOf .tag).Exact :=
  fun _ _ _ _ _ _ _ _ _ _ => trivial

end Node

end FzDaq.DataPath
