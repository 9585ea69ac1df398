import FzDaq.DataPath.Node

/-!
# No event is lost or doubled

A node is a pool of workers: the chunks that the reader has sent are its items, the
messages that the writer receives its results. Every step of a thread is a step of the
pool, so what holds of any pool holds of a node in any order of its steps.
-/

namespace FzDaq.DataPath

open FzDaq.Machine FzDaq.Parser FzDaq.Reader FzDaq.RunControl FzDaq.Writer

variable {serialize : FzEvent → List UInt8} {fmt : Format}

/-- The message that a parser pushes behind a call. -/
def message (serialize : FzEvent → List UInt8) (r : Fsm) : Option (List UInt8) :=
  if r.retval = .PARSE_OK ∧ r.eventIsEmpty = false then some (serialize r.ev) else none

/-- What a parser may make of a chunk, whatever its state machine and the memory around the
chunk hold. -/
def Parsed (serialize : FzEvent → List UInt8) (fmt : Format) (c : List Word)
    (o : Option (List UInt8)) : Prop :=
  ∃ (E : Env) (fuel : Nat) (s r : Fsm), E.Delivers c ∧ E.evformat = fmt ∧
    s.parse E fuel = .ended r ∧ o = message serialize r

/-! ## Inversion -/

theorem process_cases {p q : FzParser} {E : Env} {fuel : Nat}
    (h : p.process serialize E fuel = some q) :
    ∃ r, p.sm.parse E fuel = .ended r ∧ q = p.deliver serialize E r ∧
      q.writer = (message serialize r).toList ++ p.writer ∧ q.evformat = p.evformat := by
  unfold FzParser.process at h
  cases hrun : p.sm.parse E fuel with
  | ended r =>
      rw [hrun, Option.some.injEq] at h
      refine ⟨r, rfl, h.symm, ?_, ?_⟩
      · rw [← h, FzParser.deliver, message]
        dsimp only
        split <;> rfl
      · rw [← h, FzParser.deliver]
        dsimp only
        split <;> rfl
  | fault r => simp [hrun] at h
  | running r => simp [hrun] at h

namespace Node

variable {n m : Node} {i : Nat} {E : Env} {fuel : Nat} {disk : Disk} {c : List Word}
  {ds : List Datagram}

theorem hand_cases (h : n.hand i = some m) :
    ∃ t chunk, n.psrArray[i]? = some t ∧ n.rd.sent[n.handed]? = some chunk ∧
      m = { n.setThread i { t with inbox := t.inbox ++ [chunk] } with handed := n.handed + 1 } := by
  simp only [hand, Option.bind_eq_bind, Option.bind_eq_some_iff, Option.pure_def,
    Option.some.injEq] at h
  obtain ⟨t, ht, chunk, hchunk, rfl⟩ := h
  exact ⟨t, chunk, ht, hchunk, rfl⟩

theorem parse_cases (h : n.parse serialize i E fuel = some m) :
    ∃ t psr, n.psrArray[i]? = some t ∧ t.psr.process serialize E fuel = some psr ∧
      m = n.setThread i { t with
        psr := psr, late := false, inbox := t.inbox.tail, rets := psr.sm.retval :: t.rets } := by
  simp only [parse, Option.bind_eq_bind, Option.bind_eq_some_iff, Option.pure_def,
    Option.some.injEq] at h
  obtain ⟨t, ht, -, -, psr, hpsr, rfl⟩ := h
  exact ⟨t, psr, ht, hpsr, rfl⟩

theorem collect_cases (h : n.collect i disk = some m) :
    ∃ t message, n.psrArray[i]? = some t ∧ t.outbox.head? = some message ∧
      m = (n.setThread i { t with taken := t.taken + 1 }).perform (.receive message disk) := by
  simp only [collect, Option.bind_eq_bind, Option.bind_eq_some_iff, Option.pure_def,
    Option.some.injEq] at h
  obtain ⟨-, -, t, ht, message, hmessage, rfl⟩ := h
  exact ⟨t, message, ht, hmessage, rfl⟩

theorem setRcstate_cases {s : RCstate} (h : n.setRcstate i s = some m) :
    ∃ t, n.psrArray[i]? = some t ∧ m = n.setThread i (t.setRcstate s) := by
  simp only [setRcstate, Option.bind_eq_bind, Option.bind_eq_some_iff, Option.pure_def,
    Option.some.injEq] at h
  obtain ⟨t, ht, rfl⟩ := h
  exact ⟨t, ht, rfl⟩

/-! ## The pool -/

def unhanded (n : Node) : List (List Word) := n.rd.sent.drop n.handed

def inboxes (n : Node) : List (List Word) := n.psrArray.flatMap ParserThread.inbox

def outboxes (n : Node) : List (List UInt8) := n.psrArray.flatMap ParserThread.outbox

def lane (t : ParserThread) : Lane (List Word) (List UInt8) where
  inbox := t.inbox
  outbox := t.outbox

/-- The pool that the node is. -/
def pool (n : Node) : Pool (List Word) (List UInt8) where
  source := n.unhanded
  lanes := n.psrArray.map lane
  sink := n.received

theorem pool_inboxes (n : Node) : n.pool.inboxes = n.inboxes := by
  simp [Pool.inboxes, pool, inboxes, lane, List.flatMap_map]

theorem pool_outboxes (n : Node) : n.pool.outboxes = n.outboxes := by
  simp [Pool.outboxes, pool, outboxes, lane, List.flatMap_map]

/-- The positions in the two histories, and the format of the parsers. -/
structure Tidy (fmt : Format) (n : Node) : Prop where
  handed : n.handed ≤ n.rd.sent.length
  taken : ∀ t ∈ n.psrArray, t.taken ≤ t.psr.writer.length
  evformat : ∀ t ∈ n.psrArray, t.psr.evformat = fmt

theorem tidy_allocate (fmt : Format) (members : List Fsm) (wr : FzWriter) :
    (allocate fmt members wr).Tidy fmt := by
  refine ⟨Nat.le_refl _, fun t ht => ?_, fun t ht => ?_⟩ <;>
    · obtain ⟨sm, -, rfl⟩ := List.mem_map.1 ht
      rfl

theorem mem_set {ls : List ParserThread} {t t' : ParserThread} (h : t ∈ ls.set i t') :
    t ∈ ls ∨ t = t' := List.mem_or_eq_of_mem_set h

theorem Tidy.setThread (h : n.Tidy fmt) {t : ParserThread} (htaken : t.taken ≤ t.psr.writer.length)
    (hfmt : t.psr.evformat = fmt) : (n.setThread i t).Tidy fmt := by
  refine ⟨h.handed, fun u hu => ?_, fun u hu => ?_⟩
  · rcases mem_set hu with hu | rfl
    · exact h.taken u hu
    · exact htaken
  · rcases mem_set hu with hu | rfl
    · exact h.evformat u hu
    · exact hfmt

theorem Tidy.setRcstate (h : n.Tidy fmt) {s : RCstate} (hset : n.setRcstate i s = some m) :
    m.Tidy fmt := by
  obtain ⟨t, ht, rfl⟩ := setRcstate_cases hset
  have hmem := List.mem_of_getElem? ht
  exact h.setThread (t := t.setRcstate s) (h.taken t hmem) (h.evformat t hmem)

theorem Tidy.datagram (h : n.Tidy fmt) (d : Datagram) : (n.datagram d).Tidy fmt := by
  obtain ⟨new, hnew⟩ := FzReader.exists_udpHandler_sent n.rd d
  refine ⟨?_, h.taken, h.evformat⟩
  change n.handed ≤ (n.rd.udpHandler d).sent.length
  rw [hnew, List.length_append]
  exact Nat.le_add_right_of_le h.handed

theorem outbox_ne_nil {t : ParserThread} {x : List UInt8} (h : t.outbox.head? = some x) :
    t.taken < t.psr.writer.length ∧
      t.outbox = x :: ({ t with taken := t.taken + 1 } : ParserThread).outbox := by
  have hne : t.outbox ≠ [] := by
    intro hnil
    rw [hnil] at h
    cases h
  have hlt : t.taken < t.psr.writer.reverse.length :=
    Nat.lt_of_not_le fun hle => hne (List.drop_eq_nil_of_le hle)
  have hdrop : t.outbox = t.psr.writer.reverse[t.taken] ::
      ({ t with taken := t.taken + 1 } : ParserThread).outbox := List.drop_eq_getElem_cons hlt
  rw [hdrop, List.head?_cons, Option.some.injEq] at h
  exact ⟨by simpa using hlt, by rw [hdrop, h]⟩

theorem Tidy.moves (h : n.Tidy fmt) (hmove : n.Moves serialize m) : m.Tidy fmt := by
  cases hmove with
  | hand i hhand =>
      obtain ⟨t, chunk, ht, hchunk, rfl⟩ := hand_cases hhand
      have hmem := List.mem_of_getElem? ht
      have hset := h.setThread (i := i) (t := { t with inbox := t.inbox ++ [chunk] })
        (h.taken t hmem) (h.evformat t hmem)
      exact ⟨(List.getElem?_eq_some_iff.1 hchunk).1, hset.taken, hset.evformat⟩
  | parse i E fuel c hE hparse =>
      obtain ⟨t, psr, ht, hpsr, rfl⟩ := parse_cases hparse
      obtain ⟨r, -, -, hwriter, hfmt⟩ := process_cases hpsr
      have hmem := List.mem_of_getElem? ht
      refine h.setThread ?_ (hfmt.trans (h.evformat t hmem))
      change t.taken ≤ psr.writer.length
      rw [hwriter, List.length_append]
      exact Nat.le_add_left_of_le (h.taken t hmem)
  | collect i disk hcollect =>
      obtain ⟨t, message, ht, hhead, rfl⟩ := collect_cases hcollect
      have hset := h.setThread (i := i) (t := { t with taken := t.taken + 1 })
        (outbox_ne_nil hhead).1 (h.evformat t (List.mem_of_getElem? ht))
      exact ⟨hset.handed, hset.taken, hset.evformat⟩

theorem Tidy.runs (hn : n.Tidy fmt) (hruns : Runs serialize n ds m) : m.Tidy fmt := by
  induction hruns with
  | start => exact hn
  | datagram _ d ih => exact ih.datagram d
  | move _ hmove ih => exact ih.moves hmove
  | control _ op _ ih => exact ⟨ih.handed, ih.taken, ih.evformat⟩
  | setRcstate _ i s hset ih => exact ih.setRcstate hset

theorem pool_lanes {t : ParserThread} (ht : n.psrArray[i]? = some t) :
    n.pool.lanes[i]? = some (lane t) := by
  simp [pool, ht]

theorem pool_setThread (n : Node) (i : Nat) (t : ParserThread) :
    (n.setThread i t).pool = n.pool.setLane i (lane t) := by
  simp [setThread, pool, Pool.setLane, List.map_set, unhanded, received]

theorem pool_setRcstate {s : RCstate} (hset : n.setRcstate i s = some m) : m.pool = n.pool := by
  obtain ⟨t, ht, rfl⟩ := setRcstate_cases hset
  obtain ⟨front, back, hlanes, hput⟩ := exists_set_eq (pool_lanes ht)
  have hlane : lane (t.setRcstate s) = lane t := rfl
  rw [pool_setThread, hlane, Pool.setLane, hput, ← hlanes]

theorem received_perform (n : Node) (op : Op) :
    (n.perform op).received = n.received ++ (receivedBy op).toList := by
  unfold received perform
  rw [List.filterMap_append]
  cases hop : receivedBy op <;> simp [hop]

theorem pool_perform (n : Node) (op : Op) :
    (n.perform op).pool = { n.pool with sink := n.pool.sink ++ (receivedBy op).toList } := by
  simp only [pool, received_perform]
  rfl

/-- Every step of the data is a step of the pool. -/
theorem Moves.pool (hn : n.Tidy fmt) (hmove : n.Moves serialize m) :
    Pool.Step (Parsed serialize fmt) n.pool m.pool := by
  cases hmove with
  | hand i hhand =>
      obtain ⟨t, chunk, ht, hchunk, rfl⟩ := hand_cases hhand
      obtain ⟨hlt, rfl⟩ := List.getElem?_eq_some_iff.1 hchunk
      have hsource : n.pool.source = n.rd.sent[n.handed] :: n.rd.sent.drop (n.handed + 1) :=
        List.drop_eq_getElem_cons hlt
      have hset := pool_setThread n i { t with inbox := t.inbox ++ [n.rd.sent[n.handed]] }
      have hstep := Pool.Step.hand (R := Parsed serialize fmt) (pool_lanes ht) hsource
      have hlane : lane { t with inbox := t.inbox ++ [n.rd.sent[n.handed]] } =
          { lane t with inbox := (lane t).inbox ++ [n.rd.sent[n.handed]] } := rfl
      rw [← hlane, ← hset] at hstep
      exact hstep
  | parse i E fuel c hE hparse =>
      obtain ⟨t, psr, ht, hpsr, rfl⟩ := parse_cases hparse
      obtain ⟨r, hrun, -, hwriter, -⟩ := process_cases hpsr
      obtain ⟨⟨t', rest, ht', hinbox, hfmt⟩, hevent⟩ := hE
      obtain rfl : t = t' := Option.some.inj (ht.symm.trans ht')
      have hmem := List.mem_of_getElem? ht
      have hparsed : Parsed serialize fmt c (message serialize r) :=
        ⟨E, fuel, t.psr.sm, r, hevent, hfmt.trans (hn.evformat t hmem), hrun, rfl⟩
      have hlane : lane { t with
            psr := psr, late := false, inbox := t.inbox.tail, rets := psr.sm.retval :: t.rets } =
          { inbox := rest, outbox := (lane t).outbox ++ (message serialize r).toList } := by
        have htaken : t.taken ≤ t.psr.writer.reverse.length := by
          rw [List.length_reverse]
          exact hn.taken t hmem
        have hone : (message serialize r).toList.reverse = (message serialize r).toList := by
          cases message serialize r <;> rfl
        simp only [lane, ParserThread.outbox, hinbox, List.tail_cons, hwriter, List.reverse_append,
          hone, List.drop_append_of_le_length htaken]
      rw [pool_setThread, hlane]
      exact .work (pool_lanes ht) hinbox hparsed
  | collect i disk hcollect =>
      obtain ⟨t, x, ht, hhead, rfl⟩ := collect_cases hcollect
      have hstep := Pool.Step.collect (R := Parsed serialize fmt) (pool_lanes ht)
        (outbox_ne_nil hhead).2
      have hlane : lane { t with taken := t.taken + 1 } =
          { lane t with outbox := ({ t with taken := t.taken + 1 } : ParserThread).outbox } := rfl
      rw [← hlane, ← pool_setThread] at hstep
      rw [pool_perform]
      exact hstep

theorem Tidy.pool_datagram (hn : n.Tidy fmt) (d : Datagram) :
    ∃ new, (n.datagram d).rd.sent = n.rd.sent ++ new ∧ (n.datagram d).pool = n.pool.feed new := by
  obtain ⟨new, hnew⟩ := FzReader.exists_udpHandler_sent n.rd d
  have hnew : (n.datagram d).rd.sent = n.rd.sent ++ new := hnew
  refine ⟨new, hnew, ?_⟩
  have hunhanded : (n.datagram d).unhanded = n.unhanded ++ new := by
    rw [unhanded, hnew]
    exact List.drop_append_of_le_length hn.handed
  change ({ source := (n.datagram d).unhanded, lanes := n.pool.lanes, sink := n.received } :
    Pool (List Word) (List UInt8)) = _
  rw [hunhanded]
  rfl

theorem Moves.rd (hmove : n.Moves serialize m) : m.rd = n.rd := by
  cases hmove with
  | hand i h =>
      obtain ⟨_, _, _, _, rfl⟩ := hand_cases h
      rfl
  | parse i E fuel c hE h =>
      obtain ⟨_, _, _, _, rfl⟩ := parse_cases h
      rfl
  | collect i disk h =>
      obtain ⟨_, _, _, _, rfl⟩ := collect_cases h
      rfl

/-- The simulation of whole runs. -/
theorem Tidy.pool_runs (hn : n.Tidy fmt) (hruns : Runs serialize n ds m) :
    ∃ new, m.rd.sent = n.rd.sent ++ new ∧ Pool.Run (Parsed serialize fmt) n.pool new m.pool ∧
      m.rd = n.rd.run ds := by
  induction hruns with
  | start => exact ⟨[], (List.append_nil _).symm, .start, rfl⟩
  | datagram h d ih =>
      obtain ⟨new, hsent, hpool, hrd⟩ := ih
      obtain ⟨more, hmore, hfeed⟩ := (hn.runs h).pool_datagram d
      refine ⟨new ++ more, ?_, ?_, ?_⟩
      · rw [hmore, hsent, List.append_assoc]
      · rw [hfeed]
        exact hpool.feed more
      · rw [FzReader.run_concat, ← hrd]
        rfl
  | move h hmove ih =>
      rw [hmove.rd]
      obtain ⟨new, hsent, hpool, hrd⟩ := ih
      exact ⟨new, hsent, hpool.step (hmove.pool (hn.runs h)), hrd⟩
  | control h op hop ih =>
      rw [pool_perform, hop, Option.toList_none, List.append_nil]
      exact ih
  | setRcstate h i s hset ih =>
      obtain ⟨t, -, hm⟩ := setRcstate_cases hset
      rw [pool_setRcstate hset, show _ = _ from congrArg Node.rd hm]
      exact ih

theorem Runs.pool {members : List Fsm} {wr : FzWriter}
    (hruns : Runs serialize (allocate fmt members wr) ds m) :
    Pool.Run (Parsed serialize fmt) (Pool.idle members.length) m.rd.sent m.pool ∧
      m.rd = FzReader.run {} ds := by
  have hidle : (allocate fmt members wr).pool = Pool.idle members.length := by
    simp [Node.pool, allocate, Pool.idle, unhanded, received, lane, ParserThread.outbox,
      FzParser.new, Function.comp_def, List.map_const']
  obtain ⟨new, hsent, hpool, hrd⟩ := (tidy_allocate fmt members wr).pool_runs hruns
  rw [hidle] at hpool
  rw [hsent]
  exact ⟨hpool, hrd⟩

/-- The chunks `sent` have been worked on, each one once, or are still on their way; the
messages received are those that have come of this work, each one once, but for those still on
their way. With one parser the order is kept as well. -/
def Conserves (serialize : FzEvent → List UInt8) (fmt : Format) (parsers : Nat)
    (sent : List (List Word)) (m : Node) : Prop :=
  ∃ worked : List (List Word × Option (List UInt8)),
    (∀ w ∈ worked, Parsed serialize fmt w.1 w.2) ∧
    (worked.map Prod.fst ++ (m.inboxes ++ m.unhanded)).Perm sent ∧
    (m.received ++ m.outboxes).Perm (worked.filterMap Prod.snd) ∧
    (parsers = 1 → worked.map Prod.fst ++ (m.inboxes ++ m.unhanded) = sent ∧
      m.received ++ m.outboxes = worked.filterMap Prod.snd)

theorem conserves_of_pool {parsers : Nat} {sent : List (List Word)}
    (h : Pool.Run (Parsed serialize fmt) (Pool.idle parsers) sent m.pool) :
    m.Conserves serialize fmt parsers sent := by
  unfold Conserves
  rw [← pool_inboxes, ← pool_outboxes]
  exact h.conserves

/-- In every run each chunk that the reader has sent is worked on once or still on its way,
and each message comes of the work on one chunk and is received once or still on its way.
With one parser the order is kept. -/
theorem run_conserves {members : List Fsm} {wr : FzWriter}
    (hruns : Runs serialize (allocate fmt members wr) ds m) :
    m.Conserves serialize fmt members.length (FzReader.run {} ds).sent := by
  obtain ⟨hpool, hrd⟩ := Runs.pool hruns
  rw [← hrd]
  exact conserves_of_pool hpool

/-- The event `sampled` in one datagram. -/
def sampledDatagram : Datagram := ⟨[0, 1] ++ Fsm.sampled.words, by decide⟩

/-- Two parsers, of which the second one and the writer are running. The second one gets the
event. -/
theorem sampled_runs : ∃ m,
    Runs (fun _ => [0]) (allocate .tag [{}, {}] (.create "data" "run" 0 {} {}))
      [sampledDatagram] m ∧
      m.received = [[0]] := by
  obtain ⟨m₀, m₁, m₂, m₃, t, hset, hhand, ht, hinbox, hfmt, hparse, hcollect, hreceived⟩ :
      ∃ m₀ m₁ m₂ m₃ t, (allocate .tag [{}, {}] (.create "data" "run" 0 {} {})).setRcstate 1
          .running = some m₀ ∧
        ((m₀.perform (.setRcstate .running {})).datagram sampledDatagram).hand 1 = some m₁ ∧
        m₁.psrArray[1]? = some t ∧ t.inbox = [Fsm.sampled.words] ∧ t.psr.evformat = .tag ∧
        m₁.parse (fun _ => [0]) 1 (Fsm.sampled.env .tag .zero) 20 = some m₂ ∧
        m₂.collect 1 {} = some m₃ ∧ m₃.received = [[0]] :=
    ⟨_, _, _, _, _, rfl, rfl, rfl, rfl, rfl, rfl, rfl, rfl⟩
  have hcame : Runs (fun _ => [0]) (allocate .tag [{}, {}] (.create "data" "run" 0 {} {}))
      [sampledDatagram] _ := ((Runs.start.setRcstate 1 .running hset).control
    (.setRcstate .running {}) rfl).datagram sampledDatagram
  have hE := Fsm.sampled.env_carries .tag .zero
  have hruns := ((hcame.move (.hand 1 hhand)).move
    (.parse 1 _ 20 _ ⟨⟨t, [], ht, hinbox, hfmt.symm⟩, hE.size, hE.word⟩ hparse)).move
      (.collect 1 {} hcollect)
  exact ⟨m₃, hruns, hreceived⟩

/-- `run_conserves` on this run. -/
theorem sampled_conserves : ∃ m,
    Runs (fun _ => [0]) (allocate .tag [{}, {}] (.create "data" "run" 0 {} {}))
      [sampledDatagram] m ∧
      m.received = [[0]] ∧
      m.Conserves (fun _ => [0]) .tag 2 (FzReader.run {} [sampledDatagram]).sent := by
  obtain ⟨m, hruns, hreceived⟩ := sampled_runs
  exact ⟨m, hruns, hreceived, run_conserves hruns⟩

end Node

end FzDaq.DataPath
