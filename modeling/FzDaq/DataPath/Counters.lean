import FzDaq.DataPath.Conservation

/-!
# The counters of a node

Reader, parsers and writer count events and bytes on their own. Taken together the counters
account for everything that has come in: what is missing on one side of a pipe lies in it.
-/

namespace FzDaq.DataPath

open FzDaq.Machine FzDaq.Parser FzDaq.Reader FzDaq.RunControl FzDaq.Writer

variable {serialize : FzEvent → List UInt8} {fmt : Format}

/-! ## One parser -/

/-- The counters of a parser, with the calls that it has made. -/
structure ParserThread.Booked (t : ParserThread) : Prop where
  balanced : t.psr.Balanced t.rets
  outBytes : t.psr.psrReport.outBytes = t.psr.writer.flatten.length
  taken : t.taken ≤ t.psr.writer.length
  closed : ∀ c ∈ t.inbox, Closed closesEvent c

/-- The bytes of the messages that the writer has received. -/
def ParserThread.takenBytes (t : ParserThread) : Nat :=
  (t.psr.writer.reverse.take t.taken).flatten.length

variable {t : ParserThread} {psr : FzParser} {E : Env} {fuel : Nat} {c : List Word}
  {rest : List (List Word)}

theorem ParserThread.booked_allocate (fmt : Format) (sm : Fsm) :
    ParserThread.Booked { psr := .new fmt sm } :=
  ⟨⟨rfl, rfl, rfl, rfl, rfl⟩, rfl, Nat.le_refl _, by simp⟩

theorem process_counts (hE : E.Delivers c) (hpsr : t.psr.process serialize E fuel = some psr) :
    psr.psrReport.inEvents = t.psr.psrReport.inEvents + 1 ∧
      psr.psrReport.inBytes = t.psr.psrReport.inBytes + 2 * c.length ∧
      ∃ new : Option (List UInt8), psr.writer = new.toList ++ t.psr.writer ∧
        psr.psrReport.outBytes = t.psr.psrReport.outBytes + new.toList.flatten.length := by
  obtain ⟨r, hrun, rfl, hwriter, -⟩ := process_cases hpsr
  have hbytes : E.eventSize * 2 = 2 * c.length := by rw [hE.size, Nat.mul_comm]
  refine ⟨?_, ?_, message serialize r, hwriter, ?_⟩
  · unfold FzParser.deliver
    dsimp only
    split <;> rfl
  · rw [← hbytes]
    unfold FzParser.deliver
    dsimp only
    split <;> rfl
  · unfold FzParser.deliver message
    dsimp only
    split
    · simp
    · simp

theorem ParserThread.Booked.parse (h : t.Booked) (hinbox : t.inbox = c :: rest)
    (hE : E.Delivers c) (hpsr : t.psr.process serialize E fuel = some psr) :
    ParserThread.Booked
      { t with psr := psr, late := false, inbox := rest, rets := psr.sm.retval :: t.rets } := by
  obtain ⟨-, -, new, hwriter, hbytes⟩ := process_counts hE hpsr
  obtain ⟨r, hrun, hpsr', -, -⟩ := process_cases hpsr
  obtain ⟨ch, rfl⟩ := FzReader.exists_chunk (h.closed c (by simp [hinbox]))
  have hcarries : E.Carries ch := ⟨hE.size, hE.word⟩
  have hretval : psr.sm.retval = r.retval := by
    rw [hpsr', FzParser.deliver]
    dsimp only
    split <;> rfl
  refine ⟨?_, ?_, ?_, fun c' hc' => h.closed c' (by simp [hinbox, hc'])⟩
  · change psr.Balanced (psr.sm.retval :: t.rets)
    rw [hretval, hpsr']
    exact h.balanced.deliver hcarries hrun
  · change psr.psrReport.outBytes = psr.writer.flatten.length
    rw [hbytes, hwriter, h.outBytes, List.flatten_append, List.length_append, Nat.add_comm]
  · change t.taken ≤ psr.writer.length
    rw [hwriter, List.length_append]
    exact Nat.le_add_left_of_le h.taken

/-- Of the messages pushed, the writer has received the first ones. -/
theorem ParserThread.Booked.outbox (h : t.Booked) :
    t.psr.psrReport.outEvents = t.taken + t.outbox.length ∧
      t.psr.psrReport.outBytes = t.takenBytes + t.outbox.flatten.length := by
  have hlen : t.outbox.length = t.psr.writer.length - t.taken := by
    simp [ParserThread.outbox]
  have htaken := h.taken
  refine ⟨?_, ?_⟩
  · rw [h.balanced.messages, hlen]
    omega
  · have hsplit := congrArg (fun l => (List.flatten l).length)
      (List.take_append_drop t.taken t.psr.writer.reverse)
    simp only [List.flatten_append, List.length_append] at hsplit
    have hrev : t.psr.writer.reverse.flatten.length = t.psr.writer.flatten.length := by
      rw [List.length_flatten, List.length_flatten, List.map_reverse, List.sum_reverse]
    rw [h.outBytes, ← hrev, ← hsplit]
    rfl

namespace Node

variable {n m : Node} {i : Nat} {ds : List Datagram} {members : List Fsm}

/-! ## Sums over the parsers -/

def total (f : ParserThread → Nat) (n : Node) : Nat := (n.psrArray.map f).sum

theorem total_setThread (f : ParserThread → Nat) (t' : ParserThread)
    (ht : n.psrArray[i]? = some t) :
    (n.setThread i t').total f + f t = n.total f + f t' := by
  obtain ⟨front, back, heq, hset⟩ := exists_set_eq ht
  unfold total setThread
  rw [hset, heq]
  simp only [List.map_append, List.map_cons, List.sum_append, List.sum_cons]
  omega

theorem total_congr {f g : ParserThread → Nat} (h : ∀ t ∈ n.psrArray, f t = g t) :
    n.total f = n.total g := by
  unfold total
  rw [List.map_congr_left h]

theorem total_add (f g : ParserThread → Nat) :
    n.total (fun t => f t + g t) = n.total f + n.total g := by
  unfold total
  rw [← List.sum_map_add]

/-! ## The invariant -/

/-- The counters of the threads, and the places in the two histories. -/
structure Books (n : Node) : Prop where
  rd : n.rd.Orderly
  threads : ∀ t ∈ n.psrArray, t.Booked
  handed : n.handed ≤ n.rd.sent.length
  events : n.total (fun t => t.psr.psrReport.inEvents + t.inbox.length) = n.handed
  bytes : n.total (fun t => t.psr.psrReport.inBytes + 2 * t.inbox.flatten.length) =
    2 * (n.rd.sent.take n.handed).flatten.length
  taken : n.total ParserThread.taken = n.received.length
  takenBytes : n.total ParserThread.takenBytes = n.received.flatten.length
  wrEvents : n.wr.report.inEvents = n.received.length
  wrBytes : n.wr.report.inBytes = n.received.flatten.length

theorem total_zero {f : ParserThread → Nat} (h : ∀ t ∈ n.psrArray, f t = 0) : n.total f = 0 := by
  rw [total, List.sum_eq_zero_iff]
  simpa using h

theorem books_allocate (fmt : Format) (members : List Fsm) {wr : FzWriter}
    (hwr : wr.report = {}) : (allocate fmt members wr).Books := by
  have hthread : ∀ t ∈ (allocate fmt members wr).psrArray, ∃ sm, t = { psr := .new fmt sm } := by
    intro t ht
    obtain ⟨sm, -, rfl⟩ := List.mem_map.1 ht
    exact ⟨sm, rfl⟩
  refine ⟨FzReader.orderly_start, fun t ht => ?_, Nat.le_refl _, ?_, ?_, ?_, ?_, ?_, ?_⟩
  · obtain ⟨sm, rfl⟩ := hthread t ht
    exact ParserThread.booked_allocate fmt sm
  · exact total_zero fun t ht => by obtain ⟨sm, rfl⟩ := hthread t ht; rfl
  · exact total_zero fun t ht => by obtain ⟨sm, rfl⟩ := hthread t ht; rfl
  · exact total_zero fun t ht => by obtain ⟨sm, rfl⟩ := hthread t ht; rfl
  · exact total_zero fun t ht => by obtain ⟨sm, rfl⟩ := hthread t ht; rfl
  · change wr.report.inEvents = 0
    rw [hwr]
  · change wr.report.inBytes = 0
    rw [hwr]

theorem Books.datagram (h : n.Books) (d : Datagram) : (n.datagram d).Books := by
  obtain ⟨new, hnew⟩ := FzReader.exists_udpHandler_sent n.rd d
  have hnew : (n.datagram d).rd.sent = n.rd.sent ++ new := hnew
  refine ⟨h.rd.udpHandler d, h.threads, ?_, h.events, ?_, h.taken, h.takenBytes, h.wrEvents,
    h.wrBytes⟩
  · rw [hnew, List.length_append]
    exact Nat.le_add_right_of_le h.handed
  · rw [hnew]
    change _ = 2 * ((n.rd.sent ++ new).take n.handed).flatten.length
    rw [List.take_append_of_le_length h.handed]
    exact h.bytes

theorem booked_setThread {t' : ParserThread} (h : ∀ t ∈ n.psrArray, t.Booked) (ht' : t'.Booked) :
    ∀ t ∈ (n.setThread i t').psrArray, t.Booked := by
  intro t ht
  rcases mem_set ht with ht | rfl
  · exact h t ht
  · exact ht'

theorem Books.hand (h : n.Books) (hhand : n.hand i = some m) : m.Books := by
  obtain ⟨t, chunk, ht, hchunk, rfl⟩ := hand_cases hhand
  obtain ⟨hlt, rfl⟩ := List.getElem?_eq_some_iff.1 hchunk
  have hbooked := h.threads t (List.mem_of_getElem? ht)
  have hclosed := h.rd.closed _ (List.getElem_mem hlt)
  refine ⟨h.rd, ?_, hlt, ?_, ?_, ?_, ?_, h.wrEvents, h.wrBytes⟩
  · refine booked_setThread h.threads ⟨hbooked.balanced, hbooked.outBytes, hbooked.taken, ?_⟩
    intro c hc
    rcases List.mem_append.1 hc with hc | hc
    · exact hbooked.closed c hc
    · rw [List.mem_singleton.1 hc]
      exact hclosed
  · have hsum := total_setThread (fun t => t.psr.psrReport.inEvents + t.inbox.length)
      { t with inbox := t.inbox ++ [n.rd.sent[n.handed]] } ht
    have hevents := h.events
    simp only [List.length_append, List.length_singleton] at hsum
    change (n.setThread i _).total _ = n.handed + 1
    omega
  · have hsum := total_setThread (fun t => t.psr.psrReport.inBytes + 2 * t.inbox.flatten.length)
      { t with inbox := t.inbox ++ [n.rd.sent[n.handed]] } ht
    have hbytes := h.bytes
    have htake : (n.rd.sent.take (n.handed + 1)).flatten.length =
        (n.rd.sent.take n.handed).flatten.length + n.rd.sent[n.handed].length := by
      rw [List.take_succ_eq_append_getElem hlt, List.flatten_append, List.length_append]
      simp
    simp only [List.flatten_append, List.length_append, List.flatten_singleton] at hsum
    change (n.setThread i _).total _ = 2 * (n.rd.sent.take (n.handed + 1)).flatten.length
    omega
  · have hsum := total_setThread ParserThread.taken
      { t with inbox := t.inbox ++ [n.rd.sent[n.handed]] } ht
    have htaken := h.taken
    change (n.setThread i _).total _ = n.received.length
    dsimp only at hsum
    omega
  · have hsum := total_setThread ParserThread.takenBytes
      { t with inbox := t.inbox ++ [n.rd.sent[n.handed]] } ht
    have htaken := h.takenBytes
    change (n.setThread i _).total _ = n.received.flatten.length
    simp only [ParserThread.takenBytes] at hsum ⊢ htaken
    omega

theorem Books.parse (h : n.Books) {E : Env} {fuel : Nat} {c : List Word} (hE : n.Calls i E c)
    (hparse : n.parse serialize i E fuel = some m) : m.Books := by
  obtain ⟨t, psr, ht, hpsr, rfl⟩ := parse_cases hparse
  obtain ⟨⟨t', rest, ht', hinbox, -⟩, hevent⟩ := hE
  obtain rfl : t = t' := Option.some.inj (ht.symm.trans ht')
  have hbooked := h.threads t (List.mem_of_getElem? ht)
  obtain ⟨hevents, hbytes, new, hwriter, -⟩ := process_counts hevent hpsr
  rw [hinbox, List.tail_cons]
  refine ⟨h.rd, booked_setThread h.threads (hbooked.parse hinbox hevent hpsr), h.handed, ?_, ?_,
    ?_, ?_, h.wrEvents, h.wrBytes⟩
  · have hsum := total_setThread (fun t => t.psr.psrReport.inEvents + t.inbox.length)
      { t with psr := psr, late := false, inbox := rest, rets := psr.sm.retval :: t.rets } ht
    have htotal := h.events
    simp only [hevents, hinbox, List.length_cons] at hsum
    change (n.setThread i _).total _ = n.handed
    omega
  · have hsum := total_setThread (fun t => t.psr.psrReport.inBytes + 2 * t.inbox.flatten.length)
      { t with psr := psr, late := false, inbox := rest, rets := psr.sm.retval :: t.rets } ht
    have htotal := h.bytes
    simp only [hbytes, hinbox, List.flatten_cons, List.length_append] at hsum
    change (n.setThread i _).total _ = 2 * (n.rd.sent.take n.handed).flatten.length
    omega
  · have hsum := total_setThread ParserThread.taken
      { t with psr := psr, late := false, inbox := rest, rets := psr.sm.retval :: t.rets } ht
    have htotal := h.taken
    change (n.setThread i _).total _ = n.received.length
    dsimp only at hsum
    omega
  · have hsum := total_setThread ParserThread.takenBytes
      { t with psr := psr, late := false, inbox := rest, rets := psr.sm.retval :: t.rets } ht
    have htotal := h.takenBytes
    -- A new message is not among those received.
    have hsame : psr.writer.reverse.take t.taken = t.psr.writer.reverse.take t.taken := by
      rw [hwriter, List.reverse_append,
        List.take_append_of_le_length (by rw [List.length_reverse]; exact hbooked.taken)]
    change (n.setThread i _).total _ = n.received.flatten.length
    simp only [ParserThread.takenBytes, hsame] at hsum htotal ⊢
    omega

theorem wr_perform (hevents : n.wr.report.inEvents = n.received.length)
    (hbytes : n.wr.report.inBytes = n.received.flatten.length) (op : Op) :
    (n.perform op).wr.report.inEvents = (n.perform op).received.length ∧
      (n.perform op).wr.report.inBytes = (n.perform op).received.flatten.length := by
  obtain ⟨hin, hinBytes⟩ := FzWriter.perform_in n.wr op
  rw [received_perform, List.length_append, List.flatten_append, List.length_append, ← hevents,
    ← hbytes]
  exact ⟨hin, hinBytes⟩

theorem Books.collect {disk : Disk} (h : n.Books) (hcollect : n.collect i disk = some m) :
    m.Books := by
  obtain ⟨t, x, ht, hhead, rfl⟩ := collect_cases hcollect
  obtain ⟨hlt, -⟩ := outbox_ne_nil hhead
  have hbooked := h.threads t (List.mem_of_getElem? ht)
  obtain ⟨hevents, hbytes⟩ := wr_perform (n := n.setThread i { t with taken := t.taken + 1 })
    h.wrEvents h.wrBytes (.receive x disk)
  refine ⟨h.rd,
    booked_setThread h.threads ⟨hbooked.balanced, hbooked.outBytes, hlt, hbooked.closed⟩,
    h.handed, ?_, ?_, ?_, ?_, hevents, hbytes⟩
  · have hsum := total_setThread (fun t => t.psr.psrReport.inEvents + t.inbox.length)
      { t with taken := t.taken + 1 } ht
    have htotal := h.events
    change (n.setThread i _).total _ = n.handed
    dsimp only at hsum
    omega
  · have hsum := total_setThread (fun t => t.psr.psrReport.inBytes + 2 * t.inbox.flatten.length)
      { t with taken := t.taken + 1 } ht
    have htotal := h.bytes
    change (n.setThread i _).total _ = 2 * (n.rd.sent.take n.handed).flatten.length
    dsimp only at hsum
    omega
  · have hsum := total_setThread ParserThread.taken { t with taken := t.taken + 1 } ht
    have htotal := h.taken
    rw [received_perform, List.length_append]
    change (n.setThread i _).total _ = n.received.length + 1
    dsimp only at hsum
    omega
  · have hsum := total_setThread ParserThread.takenBytes
      { t with taken := t.taken + 1 } ht
    have htotal := h.takenBytes
    have hrev : t.taken < t.psr.writer.reverse.length := by simpa using hlt
    have hx : t.psr.writer.reverse[t.taken] = x := by
      have hdrop : t.outbox = _ := List.drop_eq_getElem_cons hrev
      rw [hdrop, List.head?_cons, Option.some.injEq] at hhead
      exact hhead
    have htake : (t.psr.writer.reverse.take (t.taken + 1)).flatten.length =
        (t.psr.writer.reverse.take t.taken).flatten.length + x.length := by
      rw [List.take_succ_eq_append_getElem hrev, List.flatten_append, List.length_append, hx]
      simp
    rw [received_perform, List.flatten_append, List.length_append]
    change (n.setThread i _).total _ = n.received.flatten.length + [x].flatten.length
    rw [List.flatten_singleton]
    simp only [ParserThread.takenBytes, htake] at hsum htotal ⊢
    omega

theorem Books.setRcstate (h : n.Books) {s : RCstate} (hset : n.setRcstate i s = some m) :
    m.Books := by
  obtain ⟨t, ht, rfl⟩ := setRcstate_cases hset
  have hbooked := h.threads t (List.mem_of_getElem? ht)
  have hsame (f : ParserThread → Nat) (hf : f (t.setRcstate s) = f t) :
      (n.setThread i (t.setRcstate s)).total f = n.total f := by
    have hsum := total_setThread f (t.setRcstate s) ht
    omega
  exact ⟨h.rd, booked_setThread h.threads
      ⟨hbooked.balanced, hbooked.outBytes, hbooked.taken, hbooked.closed⟩, h.handed,
    (hsame _ rfl).trans h.events, (hsame _ rfl).trans h.bytes, (hsame _ rfl).trans h.taken,
    (hsame _ rfl).trans h.takenBytes, h.wrEvents, h.wrBytes⟩

theorem Books.moves (h : n.Books) (hmove : n.Moves serialize m) : m.Books := by
  cases hmove with
  | hand i hhand => exact h.hand hhand
  | parse i E fuel c hE hparse => exact h.parse hE hparse
  | collect i disk hcollect => exact h.collect hcollect

theorem Books.control (h : n.Books) {op : Op} (hop : receivedBy op = none) :
    (n.perform op).Books := by
  have hreceived : (n.perform op).received = n.received := by
    rw [received_perform, hop, Option.toList_none, List.append_nil]
  obtain ⟨hevents, hbytes⟩ := wr_perform h.wrEvents h.wrBytes op
  exact ⟨h.rd, h.threads, h.handed, h.events, h.bytes, h.taken.trans (by rw [hreceived]),
    h.takenBytes.trans (by rw [hreceived]), hevents, hbytes⟩

theorem Runs.books {wr : FzWriter} (hwr : wr.report = {})
    (hruns : Runs serialize (allocate fmt members wr) ds m) : m.Books := by
  induction hruns with
  | start => exact books_allocate fmt members hwr
  | datagram _ d ih => exact ih.datagram d
  | move _ hmove ih => exact ih.moves hmove
  | control _ op hop ih => exact ih.control hop
  | setRcstate _ i s hset ih => exact ih.setRcstate hset

/-! ## The figures -/

/-- The counters of the three kinds of threads against each other, with what lies in the
pipes between them. -/
structure Balances (n : Node) : Prop where
  chunks : n.rd.report.outEvents =
    n.total (·.psr.psrReport.inEvents) + (n.inboxes.length + n.unhanded.length)
  chunkBytes : n.rd.report.outBytes = n.total (·.psr.psrReport.inBytes) +
    2 * (n.inboxes.flatten.length + n.unhanded.flatten.length)
  verdicts : n.total (·.psr.psrReport.inEvents) =
    n.total (fun t => t.psr.sm.report.eventsGood + t.psr.sm.report.eventsBad) +
      n.total (fun t => t.psr.sm.report.eventsEmpty + t.rets.count .PARSE_FAIL)
  pushed : n.total (·.psr.psrReport.outEvents) =
    n.total (fun t => t.psr.sm.report.eventsGood + t.psr.sm.report.eventsBad)
  messages : n.total (fun t => t.psr.sm.report.eventsGood + t.psr.sm.report.eventsBad) =
    n.wr.report.inEvents + n.outboxes.length
  messageBytes : n.total (·.psr.psrReport.outBytes) =
    n.wr.report.inBytes + n.outboxes.flatten.length

theorem length_flatMap_eq_total {α : Type} (f : ParserThread → List α) :
    (n.psrArray.flatMap f).length = n.total fun t => (f t).length := by
  rw [List.length_flatMap, total]

theorem flatten_flatMap_eq_total {α : Type} (f : ParserThread → List (List α)) :
    (n.psrArray.flatMap f).flatten.length = n.total fun t => (f t).flatten.length := by
  unfold total
  induction n.psrArray with
  | nil => rfl
  | cons t ts ih => simp [ih]

theorem Books.balances (h : n.Books) : n.Balances := by
  have hsplit := congrArg List.length (List.take_append_drop n.handed n.rd.sent)
  have hsplitBytes := congrArg (fun l => (List.flatten l).length)
    (List.take_append_drop n.handed n.rd.sent)
  simp only [List.flatten_append, List.length_append, List.length_take,
    Nat.min_eq_left h.handed] at hsplit hsplitBytes
  have hevents := h.events
  have hbytes := h.bytes
  have htaken := h.taken
  have htakenBytes := h.takenBytes
  rw [total_add] at hevents hbytes
  have hdouble : n.total (fun t => 2 * t.inbox.flatten.length) =
      2 * n.total fun t => t.inbox.flatten.length := by
    unfold total
    rw [List.sum_map_mul_left]
  have hpushed : n.total (·.psr.psrReport.outEvents) =
      n.total fun t => t.psr.sm.report.eventsGood + t.psr.sm.report.eventsBad :=
    total_congr fun t ht => (h.threads t ht).balanced.sent
  refine ⟨?_, ?_, ?_, hpushed, ?_, ?_⟩
  · rw [h.rd.outEvents, inboxes, length_flatMap_eq_total, unhanded, ← hsplit]
    omega
  · rw [h.rd.outBytes, inboxes, flatten_flatMap_eq_total, unhanded, ← hsplitBytes]
    omega
  · rw [← total_add]
    refine total_congr fun t ht => ?_
    have hbal := (h.threads t ht).balanced
    have hin := hbal.inEvents
    have hfailed := hbal.failed
    omega
  · have hsent : n.total (·.psr.psrReport.outEvents) =
        n.total fun t => t.taken + t.outbox.length :=
      total_congr fun t ht => (h.threads t ht).outbox.1
    rw [← hpushed, hsent, total_add, h.wrEvents, outboxes, length_flatMap_eq_total, htaken]
  · have hsent : n.total (·.psr.psrReport.outBytes) =
        n.total fun t => t.takenBytes + t.outbox.flatten.length :=
      total_congr fun t ht => (h.threads t ht).outbox.2
    rw [hsent, total_add, h.wrBytes, outboxes, flatten_flatMap_eq_total, htakenBytes]

/-- In every state of a run the counters of reader, parsers and writer balance: what one side
has counted and the other has not is in the pipe between them. -/
theorem run_balances {bdir run : String} {id : UInt32} {unset : Unset} {disk : Disk}
    (hruns : Runs serialize (allocate fmt members (.create bdir run id unset disk)) ds m) :
    m.Balances :=
  (Runs.books rfl hruns).balances

/-- `run_balances` on an event that has come through. -/
theorem sampled_balances : ∃ m,
    Runs (fun _ => [0]) (allocate .tag [{}, {}] (.create "data" "run" 0 {} {}))
      [sampledDatagram] m ∧
      m.received = [[0]] ∧ m.Balances := by
  obtain ⟨m, hruns, hreceived⟩ := sampled_runs
  exact ⟨m, hruns, hreceived, run_balances hruns⟩

end Node

end FzDaq.DataPath
