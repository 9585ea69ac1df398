import FzDaq.Reader.SequenceNumber

/-!
# Oversized events

A pending chunk that has reached `MAX_EVENT_SIZE` words at the end of a datagram is
discarded. The handler does not remember that it is inside of an event then, and
sends what is left of it.
-/

namespace FzDaq.Reader

open FzDaq.Machine FzDaq.Parser

namespace FzReader

variable {r : FzReader} {d : Datagram} {ds front back : List Datagram} {xs c vs : List Word}
  {w : Word}

/-- The words of the datagrams behind their heads. -/
def stream (ds : List Datagram) : List Word := (ds.map Datagram.payload).flatten

@[simp] theorem stream_append (ds ds' : List Datagram) :
    stream (ds ++ ds') = stream ds ++ stream ds' := by
  simp [stream]

@[simp] theorem stream_singleton (d : Datagram) : stream [d] = d.payload := by simp [stream]

/-! ## What is sent -/

/-- From these datagrams the chunk `c` is sent at the last word of `xs`, which the stream
starts with. -/
inductive Sends : List Datagram → List Word → List Word → Prop
  | intro (front : List Datagram) (d : Datagram) (back : List Datagram) (vs : List Word) (w : Word)
      (ws : List Word) (hpayload : d.payload = vs ++ w :: ws) (hclose : closesEvent w = true) :
      Sends (front ++ d :: back) (stream front ++ vs ++ [w])
        ((vs.foldl push (run {} front)).chunk ++ [w])

theorem run_concat (r : FzReader) (ds : List Datagram) (d : Datagram) :
    r.run (ds ++ [d]) = (r.run ds).udpHandler d := by
  simp [run]

theorem udpHandler_sent (r : FzReader) (d : Datagram) :
    (r.udpHandler d).sent = (r.fill d).sent := by
  by_cases h : r.Discards d
  · exact (udpHandler_discards h).1
  · exact (udpHandler_keeps h).1

theorem mem_sent_push (r : FzReader) (w : Word) :
    c ∈ (r.push w).sent ↔ c ∈ r.sent ∨ closesEvent w = true ∧ c = r.chunk ++ [w] := by
  unfold push
  dsimp only
  split <;> simp_all

theorem mem_sent_pushAll (r : FzReader) (us : List Word) :
    c ∈ (us.foldl push r).sent ↔ c ∈ r.sent ∨ ∃ vs w ws, us = vs ++ w :: ws ∧
      closesEvent w = true ∧ c = (vs.foldl push r).chunk ++ [w] := by
  induction us generalizing r with
  | nil => simp
  | cons u us ih =>
      rw [List.foldl_cons, ih, mem_sent_push]
      constructor
      · rintro ((hc | ⟨hu, rfl⟩) | ⟨vs, w, ws, rfl, hw, rfl⟩)
        · exact .inl hc
        · exact .inr ⟨[], u, us, rfl, hu, rfl⟩
        · exact .inr ⟨u :: vs, w, ws, rfl, hw, rfl⟩
      · rintro (hc | ⟨vs, w, ws, heq, hw, rfl⟩)
        · exact .inl (.inl hc)
        · cases vs with
          | nil =>
              obtain ⟨rfl, rfl⟩ := List.cons.inj heq
              exact .inl (.inr ⟨hw, rfl⟩)
          | cons v vs =>
              obtain ⟨rfl, rfl⟩ := List.cons.inj heq
              exact .inr ⟨vs, w, ws, rfl, hw, rfl⟩

/-- The chunks that `Sends` speaks of are the messages of the reader. -/
theorem mem_sent_iff (ds : List Datagram) : c ∈ (run {} ds).sent ↔ ∃ xs, Sends ds xs c := by
  induction ds using List.reverseRecOn with
  | nil =>
      constructor
      · intro h
        cases h
      · rintro ⟨xs, h⟩
        generalize hnil : ([] : List Datagram) = ds at h
        cases h
        simp at hnil
  | append_singleton ds d ih =>
      rw [run_concat, udpHandler_sent, fill, mem_sent_pushAll, ih]
      constructor
      · rintro (⟨xs, ⟨front, d', back, vs, w, ws, hpayload, hclose⟩⟩ |
          ⟨vs, w, ws, hpayload, hclose, rfl⟩)
        · rw [List.append_assoc, List.cons_append]
          exact ⟨_, .intro front d' (back ++ [d]) vs w ws hpayload hclose⟩
        · exact ⟨_, .intro ds d [] vs w ws hpayload hclose⟩
      · rintro ⟨xs, h⟩
        generalize hall : ds ++ [d] = all at h
        obtain ⟨front, d', back, vs, w, ws, hpayload, hclose⟩ := h
        rcases List.eq_nil_or_concat back with rfl | ⟨back, e, rfl⟩
        · obtain ⟨rfl, hd⟩ := List.append_inj' hall rfl
          obtain rfl := List.singleton_injective hd
          exact .inr ⟨vs, w, ws, hpayload, hclose, rfl⟩
        · rw [List.concat_eq_append, ← List.cons_append, ← List.append_assoc] at hall
          obtain ⟨rfl, -⟩ := List.append_inj' hall rfl
          exact .inl ⟨_, .intro front d' back vs w ws hpayload hclose⟩

/-! ## Inside of an event -/

/-- The pending chunk is at most what has come of the event. -/
def Within (r : FzReader) (xs : List Word) : Prop :=
  r.chunk.length ≤ (openTail closesEvent xs).length

/-- Words of the event that has begun are missing in the pending chunk. -/
def Maimed (r : FzReader) (xs : List Word) : Prop :=
  r.chunk.length < (openTail closesEvent xs).length

theorem Within.push (h : r.Within xs) (w : Word) : (r.push w).Within (xs ++ [w]) := by
  unfold FzReader.push Within
  dsimp only
  split
  · exact Nat.zero_le _
  · rename_i hopen
    rw [openTail_push xs (by simpa using hopen), List.length_append, List.length_append]
    exact Nat.add_le_add_right h 1

theorem Within.pushAll (h : r.Within xs) (ws : List Word) :
    (ws.foldl FzReader.push r).Within (xs ++ ws) := by
  induction ws generalizing r xs with
  | nil => simpa using h
  | cons w ws ih => simpa using ih (h.push w)

theorem Within.udpHandler (h : r.Within xs) (d : Datagram) :
    (r.udpHandler d).Within (xs ++ d.payload) := by
  have hfill : (r.fill d).Within (xs ++ d.payload) := h.pushAll d.payload
  unfold Within at hfill ⊢
  by_cases hd : r.Discards d
  · rw [(udpHandler_discards hd).2]
    exact Nat.zero_le _
  · rwa [(udpHandler_keeps hd).2]

theorem run_within (ds : List Datagram) : (run {} ds).Within (stream ds) := by
  induction ds using List.reverseRecOn with
  | nil => exact Nat.zero_le _
  | append_singleton ds d ih =>
      rw [run_concat, stream_append, stream_singleton]
      exact ih.udpHandler d

theorem Within.maimed (h : r.Within xs) (hd : r.Discards d) :
    (r.udpHandler d).Maimed (xs ++ d.payload) := by
  have hfill : (r.fill d).Within (xs ++ d.payload) := h.pushAll d.payload
  have hlong : MAX_EVENT_SIZE ≤ (openTail closesEvent (xs ++ d.payload)).length := hd.trans hfill
  rw [Maimed, (udpHandler_discards hd).2]
  exact Nat.lt_of_lt_of_le (by decide) hlong

theorem Maimed.pushAll (h : r.Maimed xs) {ws : List Word}
    (hopen : ∀ w ∈ ws, closesEvent w = false) :
    (ws.foldl FzReader.push r).Maimed (xs ++ ws) := by
  induction ws generalizing r xs with
  | nil => simpa using h
  | cons w ws ih =>
      have hw := hopen w (by simp)
      have hpush : (r.push w).Maimed (xs ++ [w]) := by
        rw [FzReader.push, if_neg (by simp [hw]), Maimed, openTail_push xs hw, List.length_append,
          List.length_append]
        exact Nat.add_lt_add_right h 1
      simpa using ih hpush fun v hv => hopen v (by simp [hv])

theorem Maimed.udpHandler (h : r.Maimed xs) (hopen : ∀ w ∈ d.payload, closesEvent w = false) :
    (r.udpHandler d).Maimed (xs ++ d.payload) := by
  have hfill : (r.fill d).Maimed (xs ++ d.payload) := h.pushAll hopen
  unfold Maimed at hfill ⊢
  by_cases hd : r.Discards d
  · rw [(udpHandler_discards hd).2]
    exact Nat.zero_lt_of_lt hfill
  · rwa [(udpHandler_keeps hd).2]

/-! ## Segments -/

/-- Every chunk that is sent is a segment of the stream. -/
def SendsSegments (ds : List Datagram) : Prop :=
  ∀ xs c, Sends ds xs c → LastSegment closesEvent xs c

theorem first_closing {ws : List Word} (h : ∃ w ∈ ws, closesEvent w = true) :
    ∃ vs w us, ws = vs ++ w :: us ∧ closesEvent w = true ∧ ∀ v ∈ vs, closesEvent v = false := by
  induction ws with
  | nil => simp at h
  | cons w ws ih =>
      cases hw : closesEvent w with
      | true => exact ⟨[], w, ws, rfl, hw, by simp⟩
      | false =>
          obtain ⟨vs, x, us, rfl, hx, hvs⟩ := ih (by simpa [hw] using h)
          exact ⟨w :: vs, x, us, rfl, hx, by simpa [hw] using hvs⟩

/-- From inside of an event on no word may close an event: the first one would send a chunk
that starts where the last discard was. -/
theorem Maimed.quiet (hm : (run {} front).Maimed (stream front))
    (h : SendsSegments (front ++ back)) : ∀ w ∈ stream back, closesEvent w = false := by
  induction back generalizing front with
  | nil => simp [stream]
  | cons d back ih =>
      have hopen : ∀ w ∈ d.payload, closesEvent w = false := by
        intro w hw
        by_contra hclose
        obtain ⟨vs, x, us, hpayload, hx, hvs⟩ := first_closing ⟨w, hw, by simpa using hclose⟩
        have hseg := h _ _ (.intro front d back vs x us hpayload hx)
        have hsame := (lastSegment_concat_iff hx).1 hseg
        have hlost := hm.pushAll hvs
        rw [Maimed, hsame] at hlost
        exact Nat.lt_irrefl _ hlost
      have hnext : (run {} (front ++ [d])).Maimed (stream (front ++ [d])) := by
        rw [run_concat, stream_append, stream_singleton]
        exact hm.udpHandler hopen
      have hrest := ih hnext (by rwa [List.append_assoc])
      intro w hw
      rw [stream, List.map_cons, List.flatten_cons, List.mem_append] at hw
      exact hw.elim (hopen w) (hrest w)

theorem fits_of_not_discards (h : ∀ front d back, ds = front ++ d :: back →
    ¬(r.run front).Discards d) : r.Fits ds := by
  induction ds generalizing r with
  | nil => trivial
  | cons d ds ih =>
      refine ⟨Nat.lt_of_not_le (h [] d ds rfl), ih fun front d' back heq => ?_⟩
      exact h (d :: front) d' back (by rw [heq, List.cons_append])

/-- As long as nothing has been discarded the pending chunk is all that has come of the
event. -/
theorem chunk_eq_openTail (hfits : Fits {} front) (vs : List Word) :
    (vs.foldl push (run {} front)).chunk = openTail closesEvent (stream front ++ vs) := by
  have hcuts := (cuts_start.run hfits).pushAll vs
  exact hcuts.segments.openTail_eq.symm

/-- The chunks that are sent are segments of the stream exactly if no event ends behind a
discard. -/
theorem sendsSegments_iff (ds : List Datagram) :
    SendsSegments ds ↔ ∀ front d back, ds = front ++ d :: back → (run {} front).Discards d →
      ∀ w ∈ stream back, closesEvent w = false := by
  constructor
  · rintro h front d back rfl hd
    have hm : (run {} (front ++ [d])).Maimed (stream (front ++ [d])) := by
      rw [run_concat, stream_append, stream_singleton]
      exact (run_within front).maimed hd
    exact hm.quiet (by rwa [List.append_assoc])
  · rintro h xs c ⟨front, d, back, vs, w, ws, hpayload, hclose⟩
    have hkeeps : ∀ front' d' back', front = front' ++ d' :: back' →
        ¬(run {} front').Discards d' := by
      rintro front' d' back' rfl hd
      have hquiet := h front' d' (back' ++ d :: back) (by simp) hd w
        (by simp [stream, hpayload])
      rw [hclose] at hquiet
      cases hquiet
    rw [lastSegment_concat_iff hclose]
    exact chunk_eq_openTail (fits_of_not_discards hkeeps) vs

/-! ## An event of `MAX_EVENT_SIZE` words -/

/-- A datagram in the middle of the event, 800 of which come to the limit. -/
def longDatagram : Datagram where
  bufusint := List.replicate 12502 0
  long := by
    rw [List.length_replicate]
    decide

/-- The datagram that ends the event. -/
def lastDatagram : Datagram := ⟨[0, 1, 0xC801], by decide⟩

theorem longDatagram_payload : longDatagram.payload = List.replicate 12500 0 := by
  have hget (k : Nat) (hk : k < 12502) : longDatagram.bufusint[k]? = some 0 :=
    List.getElem?_replicate.trans (if_pos hk)
  have hoffset : longDatagram.offset = 2 := by
    rw [Datagram.offset, hget 0 (by decide), hget 1 (by decide), hget 2 (by decide)]
    rfl
  rw [Datagram.payload, hoffset, longDatagram, List.drop_replicate]

theorem push_zeros (r : FzReader) (n : Nat) :
    ((List.replicate n 0).foldl push r).chunk = r.chunk ++ List.replicate n 0 := by
  induction n with
  | zero => simp
  | succ n ih =>
      have hopen : ¬closesEvent 0 = true := by decide
      rw [List.replicate_succ', List.foldl_concat, push, if_neg hopen, ← List.append_assoc, ← ih]

theorem fill_long (r : FzReader) :
    (r.fill longDatagram).chunk.length = r.chunk.length + 12500 := by
  rw [fill, longDatagram_payload, push_zeros, List.length_append, List.length_replicate]

theorem run_long {k : Nat} (hk : k < 800) :
    (run {} (List.replicate k longDatagram)).chunk.length = 12500 * k := by
  induction k with
  | zero => rfl
  | succ k ih =>
      have hlen := ih (Nat.lt_of_succ_lt hk)
      have hfill := fill_long (run {} (List.replicate k longDatagram))
      have hkeeps : ¬(run {} (List.replicate k longDatagram)).Discards longDatagram := by
        rw [Discards, hfill, hlen, MAX_EVENT_SIZE]
        omega
      rw [List.replicate_succ', run_concat, (udpHandler_keeps hkeeps).2, hfill, hlen]
      omega

/-- The word that ends the event is sent as an event of its own. -/
theorem long_not_sendsSegments :
    ¬SendsSegments (List.replicate 799 longDatagram ++ [longDatagram] ++ [lastDatagram]) := by
  intro h
  have hd : (run {} (List.replicate 799 longDatagram)).Discards longDatagram := by
    rw [Discards, fill_long, run_long (by decide), MAX_EVENT_SIZE]
  have hm : (run {} (List.replicate 799 longDatagram ++ [longDatagram])).Maimed
      (stream (List.replicate 799 longDatagram ++ [longDatagram])) := by
    rw [run_concat, stream_append, stream_singleton]
    exact (run_within _).maimed hd
  have hquiet := hm.quiet h 0xC801 (by decide)
  exact absurd hquiet (by decide)

end FzReader

end FzDaq.Reader
