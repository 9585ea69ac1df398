import FzDaq.Reader.Oversized

/-!
# Datagrams that do not arrive

UDP loses, repeats and reorders datagrams, and the handler does not look at the sequence
numbers. What it sends before is not touched by that, nor what it sends behind the next
REGID word.
-/

namespace FzDaq.Reader

open FzDaq.Machine FzDaq.Parser

namespace FzReader

variable {r r' : FzReader}

/-! ## Without a condition on sizes -/

theorem push_sent (r : FzReader) (w : Word) : ∃ new, (r.push w).sent = r.sent ++ new := by
  unfold push
  dsimp only
  split
  · exact ⟨_, rfl⟩
  · exact ⟨[], (List.append_nil _).symm⟩

theorem pushAll_sent (r : FzReader) (ws : List Word) :
    ∃ new, (ws.foldl push r).sent = r.sent ++ new := by
  induction ws generalizing r with
  | nil => exact ⟨[], (List.append_nil _).symm⟩
  | cons w ws ih =>
      obtain ⟨new, hnew⟩ := push_sent r w
      obtain ⟨more, hmore⟩ := ih (r.push w)
      exact ⟨new ++ more, by rw [List.foldl_cons, hmore, hnew, List.append_assoc]⟩

theorem exists_udpHandler_sent (r : FzReader) (d : Datagram) :
    ∃ new, (r.udpHandler d).sent = r.sent ++ new := by
  rw [udpHandler_sent]
  exact pushAll_sent r d.payload

/-- The counters are right, and what is sent ends where an event ends, whether or not
pending chunks are discarded. -/
structure Orderly (r : FzReader) : Prop extends Counted r where
  closed : ∀ c ∈ r.sent, Closed closesEvent c
  pending : ∀ w ∈ r.chunk, closesEvent w = false

theorem Orderly.push (h : r.Orderly) (w : Word) : (r.push w).Orderly := by
  -- A reader that has received nothing else cuts the chunks that are there.
  have hcuts : r.Cuts (r.sent.flatten ++ r.chunk) := ⟨h.toCounted, rfl, h.closed, h.pending⟩
  have hpush := hcuts.push w
  exact ⟨hpush.toCounted, hpush.segments.closed, hpush.segments.pending⟩

theorem Orderly.pushAll (h : r.Orderly) (ws : List Word) : (ws.foldl FzReader.push r).Orderly := by
  induction ws generalizing r with
  | nil => exact h
  | cons w ws ih => exact ih (h.push w)

theorem Orderly.udpHandler (h : r.Orderly) (d : Datagram) : (r.udpHandler d).Orderly := by
  have hfill : (r.fill d).Orderly := h.pushAll d.payload
  unfold FzReader.udpHandler
  dsimp only
  split
  · exact ⟨⟨hfill.inEvents, hfill.outEvents, hfill.outBytes⟩, hfill.closed, by simp⟩
  · exact ⟨⟨hfill.inEvents, hfill.outEvents, hfill.outBytes⟩, hfill.closed, hfill.pending⟩

theorem Orderly.run (h : r.Orderly) (ds : List Datagram) : (r.run ds).Orderly := by
  induction ds generalizing r with
  | nil => exact h
  | cons d ds ih => exact ih (h.udpHandler d)

theorem orderly_start : ({} : FzReader).Orderly := ⟨⟨rfl, rfl, rfl⟩, by simp, by simp⟩

/-! ## Replaced datagrams -/

theorem push_count (r : FzReader) (w : Word) :
    (r.push w).sent.length = r.sent.length + [w].countP closesEvent := by
  unfold push
  dsimp only
  split
  · rename_i hclose
    simp [hclose]
  · rename_i hopen
    simp [hopen]

theorem pushAll_count (r : FzReader) (ws : List Word) :
    (ws.foldl push r).sent.length = r.sent.length + ws.countP closesEvent := by
  induction ws generalizing r with
  | nil => rfl
  | cons w ws ih =>
      rw [List.foldl_cons, ih, push_count, Nat.add_assoc, ← List.countP_append,
        List.singleton_append]

/-- Each REGID word sends one chunk, whatever has been discarded of it. -/
theorem run_sends (r : FzReader) (ds : List Datagram) :
    ∃ new, (r.run ds).sent = r.sent ++ new ∧ new.length = (stream ds).countP closesEvent := by
  induction ds using List.reverseRecOn with
  | nil => exact ⟨[], (List.append_nil _).symm, rfl⟩
  | append_singleton ds d ih =>
      obtain ⟨new, hnew, hlen⟩ := ih
      obtain ⟨more, hmore⟩ := exists_udpHandler_sent (r.run ds) d
      have hcount : ((r.run ds).udpHandler d).sent.length =
          (r.run ds).sent.length + d.payload.countP closesEvent := by
        rw [udpHandler_sent]
        exact pushAll_count _ d.payload
      rw [hmore, List.length_append, Nat.add_left_cancel_iff] at hcount
      refine ⟨new ++ more, by rw [run_concat, hmore, hnew, List.append_assoc], ?_⟩
      rw [List.length_append, hlen, hcount, stream_append, stream_singleton, List.countP_append]

/-- Two readers that had sent `sent` and `sent'` get the same words: no REGID word has come
yet, or the first one has closed a chunk on each side, and they have gone on alike. -/
inductive Rejoins (sent sent' : List (List Word)) (r r' : FzReader) : Prop
  | apart (h : r.sent = sent) (h' : r'.sent = sent')
  | together (c c' : List Word) (behind : List (List Word)) (h : r.sent = sent ++ [c] ++ behind)
      (h' : r'.sent = sent' ++ [c'] ++ behind) (hchunk : r.chunk = r'.chunk)

theorem Rejoins.push {sent sent' : List (List Word)} (h : Rejoins sent sent' r r') (w : Word) :
    Rejoins sent sent' (r.push w) (r'.push w) := by
  unfold FzReader.push
  dsimp only
  cases h with
  | apart h h' =>
      split
      · exact .together (r.chunk ++ [w]) (r'.chunk ++ [w]) [] (by simp [h]) (by simp [h']) rfl
      · exact .apart h h'
  | together c c' behind h h' hchunk =>
      rw [hchunk]
      split
      · exact .together c c' (behind ++ [r'.chunk ++ [w]]) (by simp [h]) (by simp [h']) rfl
      · exact .together c c' behind h h' rfl

theorem Rejoins.pushAll {sent sent' : List (List Word)} (h : Rejoins sent sent' r r')
    (ws : List Word) :
    Rejoins sent sent' (ws.foldl FzReader.push r) (ws.foldl FzReader.push r') := by
  induction ws generalizing r r' with
  | nil => exact h
  | cons w ws ih => exact ih (h.push w)

/-- The step lemma: of pending chunks that are the same, both are discarded or none. -/
theorem Rejoins.udpHandler {sent sent' : List (List Word)} (h : Rejoins sent sent' r r')
    (d : Datagram) : Rejoins sent sent' (r.udpHandler d) (r'.udpHandler d) := by
  have hfill : Rejoins sent sent' (r.fill d) (r'.fill d) := h.pushAll d.payload
  cases hfill with
  | apart h h' => exact .apart ((udpHandler_sent r d).trans h) ((udpHandler_sent r' d).trans h')
  | together c c' behind h h' hchunk =>
      refine .together c c' behind ((udpHandler_sent r d).trans h)
        ((udpHandler_sent r' d).trans h') ?_
      by_cases hd : r.Discards d
      · have hd' : r'.Discards d := by rwa [Discards, ← hchunk]
        rw [(udpHandler_discards hd).2, (udpHandler_discards hd').2]
      · have hd' : ¬r'.Discards d := by rwa [Discards, ← hchunk]
        rw [(udpHandler_keeps hd).2, (udpHandler_keeps hd').2, hchunk]

theorem Rejoins.run {sent sent' : List (List Word)} (h : Rejoins sent sent' r r')
    (ds : List Datagram) : Rejoins sent sent' (r.run ds) (r'.run ds) := by
  induction ds generalizing r r' with
  | nil => exact h
  | cons d ds ih => exact ih (h.udpHandler d)

theorem run_append (r : FzReader) (ds ds' : List Datagram) :
    r.run (ds ++ ds') = (r.run ds).run ds' := List.foldl_append ..

/-- Of two streams that differ in the datagrams between `front` and `back`, the same chunks
are sent up to there and behind the next REGID word. What comes between are the events with
words in these datagrams: one chunk for each that ends in them, and the one that goes on. -/
theorem run_replaced (front lost found back : List Datagram) :
    ∃ damaged damaged' behind,
      (run {} (front ++ lost ++ back)).sent = (run {} front).sent ++ damaged ++ behind ∧
      (run {} (front ++ found ++ back)).sent = (run {} front).sent ++ damaged' ++ behind ∧
      damaged.length ≤ (stream lost).countP closesEvent + 1 ∧
      damaged'.length ≤ (stream found).countP closesEvent + 1 := by
  obtain ⟨ended, hended, hlen⟩ := run_sends (run {} front) lost
  obtain ⟨ended', hended', hlen'⟩ := run_sends (run {} front) found
  have hback : Rejoins ((run {} front).sent ++ ended) ((run {} front).sent ++ ended')
      (run {} (front ++ lost ++ back)) (run {} (front ++ found ++ back)) := by
    simp only [run_append]
    exact (Rejoins.apart hended hended').run back
  cases hback with
  | apart h h' =>
      exact ⟨ended, ended', [], by rw [h, List.append_nil], by rw [h', List.append_nil], by omega,
        by omega⟩
  | together c c' behind h h' _ =>
      refine ⟨ended ++ [c], ended' ++ [c'], behind, by rw [h, List.append_assoc _ ended],
        by rw [h', List.append_assoc _ ended'], ?_, ?_⟩
      · rw [List.length_append, List.length_singleton, hlen]
      · rw [List.length_append, List.length_singleton, hlen']

end FzReader

end FzDaq.Reader
