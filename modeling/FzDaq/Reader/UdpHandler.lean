import FzDaq.Machine.Bits
import FzDaq.Machine.Segments
import FzDaq.Parser.Chunk

/-!
# `FzReader::udp_handler`

The reader appends the words of each datagram to the pending chunk and sends the
chunk when a REGID word closes it. The chunk is a static variable of the handler:
it lives from one datagram to the next.
-/

namespace FzDaq.Reader

open FzDaq.Machine FzDaq.Parser

def MAX_EVENT_SIZE : Nat := 10000000

def REGHDR_FMT : Word := 0xF800
def REGHDR_TAG : Word := 0xC800

/-- `(value & REGHDR_FMT) == REGHDR_TAG`. -/
def closesEvent (value : Word) : Bool := value &&& REGHDR_FMT == REGHDR_TAG

theorem closesEvent_eq_true (w : Word) : closesEvent w = true ↔ w.toNat / 2048 = 25 := by
  have hmask : w.toNat &&& 0xF800 = w.toNat / 2048 * 2048 := and_high_bits w.toNat 5 11 w.toNat_lt
  rw [closesEvent, beq_iff_eq, ← UInt16.toNat_inj, UInt16.toNat_and]
  change w.toNat &&& 0xF800 = 0xC800 ↔ _
  rw [hmask]
  omega

/-- The words that close an event are those that the parser takes for REGID words. -/
theorem closesEvent_iff (w : Word) : closesEvent w = true ↔ getwordId w = .regid := by
  have hnibble := nibble_three_toNat w
  have hbit := bit_eleven_toNat w
  have hlt := w.toNat_lt
  rw [closesEvent_eq_true]
  unfold getwordId
  dsimp only
  simp only [← UInt16.toNat_inj, UInt16.lt_iff_toNat_lt, hnibble, hbit]
  split_ifs <;> simp_all <;> omega

/-- A datagram of a whole number of words, long enough for the words that the handler
inspects. Words 0 and 1 are the sequence number. -/
structure Datagram where
  bufusint : List Word
  long : 3 ≤ bufusint.length

namespace Datagram

/-- Where the payload starts: behind the sequence number, and behind one word more if
one of the first three is `0x8080`. -/
def offset (d : Datagram) : Nat :=
  if d.bufusint[0]? = some 0x8080 ∨ d.bufusint[1]? = some 0x8080 ∨
    d.bufusint[2]? = some 0x8080 then 3 else 2

def payload (d : Datagram) : List Word := d.bufusint.drop d.offset

end Datagram

/-- The message `Report::FzReader`. -/
structure ReaderReport where
  inBytes : Nat := 0
  inEvents : Nat := 0
  outBytes : Nat := 0
  outEvents : Nat := 0
  deriving DecidableEq, Repr

/-- The reader, with the messages that it has pushed to the parsers. -/
structure FzReader where
  chunk : List Word := []
  report : ReaderReport := {}
  sent : List (List Word) := []
  deriving DecidableEq, Repr

namespace FzReader

/-- One turn of the loop over the words of a datagram. -/
def push (r : FzReader) (value : Word) : FzReader :=
  let chunk := r.chunk ++ [value]
  if closesEvent value then
    { chunk := []
      sent := r.sent ++ [chunk]
      report := { r.report with
        inEvents := r.report.inEvents + 1
        outEvents := r.report.outEvents + 1
        outBytes := r.report.outBytes + chunk.length * 2 } }
  else { r with chunk := chunk }

def fill (r : FzReader) (d : Datagram) : FzReader := d.payload.foldl push r

/-- The case `NS_RECV`. -/
def udpHandler (r : FzReader) (d : Datagram) : FzReader :=
  let r := r.fill d
  let r := { r with report := { r.report with
    inBytes := r.report.inBytes + d.bufusint.length * 2 } }
  if r.chunk.length ≥ MAX_EVENT_SIZE then { r with chunk := [] } else r

def run (r : FzReader) (ds : List Datagram) : FzReader := ds.foldl udpHandler r

/-- At the end of each datagram the pending chunk is smaller than `MAX_EVENT_SIZE`. -/
def Fits (r : FzReader) : List Datagram → Prop
  | [] => True
  | d :: ds => (r.fill d).chunk.length < MAX_EVENT_SIZE ∧ (r.udpHandler d).Fits ds

variable {r : FzReader} {xs : List Word} {ds ds' : List Datagram}

/-- The chunks sent are counted, with their bytes. -/
structure Counted (r : FzReader) : Prop where
  inEvents : r.report.inEvents = r.sent.length
  outEvents : r.report.outEvents = r.sent.length
  outBytes : r.report.outBytes = 2 * r.sent.flatten.length

/-- The words received so far have been cut into the chunks sent and the pending one. -/
structure Cuts (r : FzReader) (xs : List Word) : Prop extends Counted r where
  segments : Segments closesEvent xs r.sent r.chunk

theorem Cuts.push (h : r.Cuts xs) (value : Word) : (r.push value).Cuts (xs ++ [value]) := by
  unfold FzReader.push
  dsimp only
  split
  · rename_i hclose
    refine ⟨⟨?_, ?_, ?_⟩, h.segments.close hclose⟩
    · simp [h.inEvents]
    · simp [h.outEvents]
    · simp only [h.outBytes, List.flatten_append, List.length_append, List.flatten_singleton]
      omega
  · rename_i hopen
    exact ⟨⟨h.inEvents, h.outEvents, h.outBytes⟩, h.segments.push (by simpa using hopen)⟩

theorem Cuts.pushAll (h : r.Cuts xs) (values : List Word) :
    (values.foldl FzReader.push r).Cuts (xs ++ values) := by
  induction values generalizing r xs with
  | nil => simpa using h
  | cons value values ih => simpa using ih (h.push value)

/-- The step lemma: a datagram at whose end the chunk is not discarded. -/
theorem Cuts.udpHandler (h : r.Cuts xs) (d : Datagram)
    (hfits : (r.fill d).chunk.length < MAX_EVENT_SIZE) :
    (r.udpHandler d).Cuts (xs ++ d.payload) := by
  have hfill := h.pushAll d.payload
  unfold FzReader.udpHandler
  dsimp only
  rw [if_neg (Nat.not_le_of_lt hfits)]
  exact ⟨⟨hfill.inEvents, hfill.outEvents, hfill.outBytes⟩, hfill.segments⟩

theorem Cuts.run (h : r.Cuts xs) (hfits : r.Fits ds) :
    (r.run ds).Cuts (xs ++ (ds.map Datagram.payload).flatten) := by
  induction ds generalizing r xs with
  | nil => simpa [FzReader.run] using h
  | cons d ds ih => simpa [FzReader.run] using ih (h.udpHandler d hfits.1) hfits.2

theorem cuts_start : ({} : FzReader).Cuts [] := ⟨⟨rfl, rfl, rfl⟩, .nil⟩

/-- The reader cuts the stream of payloads behind each REGID word and loses nothing of
it, however the stream is spread over datagrams. -/
theorem run_segments (ds : List Datagram) (hfits : Fits {} ds) :
    let r := run {} ds
    r.sent.flatten ++ r.chunk = (ds.map Datagram.payload).flatten ∧
      (∀ c ∈ r.sent, Closed closesEvent c) ∧ (∀ w ∈ r.chunk, closesEvent w = false) ∧
      (∀ ds' : List Datagram, Fits {} ds' →
        (ds'.map Datagram.payload).flatten = (ds.map Datagram.payload).flatten →
        (run {} ds').sent = r.sent) ∧
      r.report.inEvents = r.sent.length ∧ r.report.outEvents = r.sent.length ∧
      r.report.outBytes = 2 * r.sent.flatten.length := by
  intro r
  have hr : r.Cuts ([] ++ (ds.map Datagram.payload).flatten) := cuts_start.run hfits
  refine ⟨hr.segments.stream, hr.segments.closed, hr.segments.pending, fun ds' hfits' hsame => ?_,
    hr.inEvents, hr.outEvents, hr.outBytes⟩
  have hr' := cuts_start.run hfits'
  rw [hsame] at hr'
  exact (hr'.segments.unique hr.segments).1

/-- What the reader sends is what the parser takes for granted of a received chunk. -/
theorem exists_chunk {c : List Word} (hc : Closed closesEvent c) : ∃ ch : Chunk, c = ch.words := by
  obtain ⟨body, w, rfl, hw, hbody⟩ := hc
  refine ⟨⟨body, w, (closesEvent_iff w).1 hw, fun v hv hid => ?_⟩, rfl⟩
  rw [← closesEvent_iff, hbody v hv] at hid
  cases hid

/-- Two events over three datagrams, the last one with padding behind its sequence number. -/
def threeDatagrams : List Datagram :=
  [⟨[0, 1, 0xE001, 0xC001], by decide⟩, ⟨[0, 2, 0xA000, 0xD000, 0xC801, 0xE002], by decide⟩,
    ⟨[0, 3, 0x8080, 0xC802, 0xE003], by decide⟩]

/-- `run_segments` on them. -/
theorem threeDatagrams_segments :
    let r := run {} threeDatagrams
    r.sent.flatten ++ r.chunk = (threeDatagrams.map Datagram.payload).flatten ∧
      (∀ c ∈ r.sent, Closed closesEvent c) ∧ (∀ w ∈ r.chunk, closesEvent w = false) ∧
      (∀ ds' : List Datagram, Fits {} ds' →
        (ds'.map Datagram.payload).flatten = (threeDatagrams.map Datagram.payload).flatten →
        (run {} ds').sent = r.sent) ∧
      r.report.inEvents = r.sent.length ∧ r.report.outEvents = r.sent.length ∧
      r.report.outBytes = 2 * r.sent.flatten.length :=
  run_segments threeDatagrams ⟨by decide, by decide, by decide, trivial⟩

end FzReader

end FzDaq.Reader
