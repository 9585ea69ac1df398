import FzDaq.Machine.Bytes
import FzDaq.Machine.Loop

/-!
# `FzProtobuf`

Event sets are written to a file one after the other, each behind its length in four
bytes. The loop that reads them back compares what the parser returns with the state of
the stream; both change between a whole record, a cut length and a cut body.
-/

namespace FzDaq.Utils

open FzDaq.Machine

/-- An event set as protobuf serialises it: not empty, and of a size that is an `int`. -/
structure Serialised where
  bytes : List UInt8
  nonempty : 0 < bytes.length
  small : bytes.length < 2 ^ 31

/-- `WriteDataset`, on the bytes of the file. -/
def writeDataset (output : List UInt8) (message : Serialised) : List UInt8 :=
  output ++ littleEndian 4 message.bytes.length ++ message.bytes

def written (messages : List Serialised) : List UInt8 := messages.foldl writeDataset []

/-- `std::istream` over the bytes that are left in it. -/
structure Istream where
  rest : List UInt8
  eof : Bool := false
  fail : Bool := false
  deriving DecidableEq, Repr

namespace Istream

def good (stream : Istream) : Bool := !stream.eof && !stream.fail

/-- A read of more bytes than are left takes those and sets both flags. -/
def read (stream : Istream) (size : Nat) : List UInt8 × Istream :=
  if !stream.good then ([], { stream with fail := true })
  else if size ≤ stream.rest.length then
    (stream.rest.take size, { stream with rest := stream.rest.drop size })
  else (stream.rest, { rest := [], eof := true, fail := true })

/-- `ReadLittleEndian32` through a buffer of four bytes, which is filled again if it is too
short. -/
def readLittleEndian32 (stream : Istream) : Option Nat × Istream :=
  let block := stream.read 4
  if block.1.length = 4 then (some (ofLittleEndian block.1), block.2)
  else (none, (block.2.read 4).2)

end Istream

section Reading

variable {α : Type} (parse : List UInt8 → α)

/-- `parse_delimited`. `parse` is what `ParseFromCodedStream` makes of the bytes it gets;
its result is not looked at. -/
def parseDelimited (stream : Istream) (message : α) : Bool × Istream × α :=
  let size := stream.readLittleEndian32
  let messageSize := size.1.getD 0
  if messageSize = 0 then (size.2.eof, size.2, message)
  else
    let block := size.2.read messageSize
    (block.2.good, block.2, parse block.1)

/-- The reading loop: `more` is the value of its condition, `handed` what the body has got. -/
structure Reading (α : Type) where
  input : Istream
  evset : α
  more : Bool := true
  handed : List α := []

/-- `parse_delimited(input, &EVSET) == input.good()`. -/
def Reading.test (r : Reading α) : Reading α :=
  let p := parseDelimited parse r.input r.evset
  { r with input := p.2.1, evset := p.2.2, more := p.1 == p.2.1.good }

def reading : Loop (Reading α) where
  halted r := !r.more
  body r := some (({ r with handed := r.handed ++ [r.evset] } : Reading α).test parse)

/-- The records that lie in the first bytes of the file. -/
def completed : List Serialised → Nat → List Serialised
  | [], _ => []
  | message :: messages, cut =>
    if 4 + message.bytes.length ≤ cut then
      message :: completed messages (cut - (4 + message.bytes.length))
    else []

/-- The bytes of the body that the file is cut in, behind a whole length word. -/
def cutBody : List Serialised → Nat → Option (List UInt8)
  | [], _ => none
  | message :: messages, cut =>
    if 4 + message.bytes.length ≤ cut then cutBody messages (cut - (4 + message.bytes.length))
    else if 4 ≤ cut then some (message.bytes.take (cut - 4))
    else none

/-! ## One evaluation of the condition -/

/-- A record of the file. -/
def record (message : Serialised) : List UInt8 :=
  littleEndian 4 message.bytes.length ++ message.bytes

theorem length_record (message : Serialised) :
    (record message).length = 4 + message.bytes.length := by
  rw [record, List.length_append, length_littleEndian]

theorem written_eq (messages : List Serialised) : written messages = messages.flatMap record := by
  have hfold : ∀ output,
      messages.foldl writeDataset output = output ++ messages.flatMap record := by
    induction messages with
    | nil => exact fun output => (List.append_nil output).symm
    | cons message messages ih =>
      intro output
      rw [List.foldl_cons, ih, List.flatMap_cons, writeDataset, record]
      simp only [List.append_assoc]
  exact hfold []

/-- The stream behind a read past its end. -/
def exhausted : Istream := { rest := [], eof := true, fail := true }

variable {parse} {evset : α} {more : Bool} {handed : List α}

theorem readLittleEndian32_length (n : Nat) (hn : n < 2 ^ 31) (xs : List UInt8) :
    Istream.readLittleEndian32 { rest := littleEndian 4 n ++ xs } = (some n, { rest := xs }) := by
  have hread : Istream.read { rest := littleEndian 4 n ++ xs } 4 =
      (littleEndian 4 n, { rest := xs }) := by
    have hlen := length_littleEndian 4 n
    simp [Istream.read, Istream.good, hlen]
  have hvalue : ofLittleEndian (littleEndian 4 n) = n := by
    rw [ofLittleEndian_littleEndian]
    exact Nat.mod_eq_of_lt (by omega)
  unfold Istream.readLittleEndian32
  rw [hread]
  simp only [length_littleEndian, hvalue, if_true]

theorem readLittleEndian32_short {xs : List UInt8} (hxs : xs.length < 4) :
    Istream.readLittleEndian32 { rest := xs } = (none, exhausted) := by
  have hread : Istream.read { rest := xs } 4 = (xs, exhausted) := by
    have hle : ¬ 4 ≤ xs.length := by omega
    simp [Istream.read, Istream.good, hle, exhausted]
  unfold Istream.readLittleEndian32
  rw [hread, if_neg (by dsimp only; omega)]
  rfl

theorem test_record (message : Serialised) (xs : List UInt8) :
    Reading.test parse
        { input := { rest := record message ++ xs }, evset := evset, more := more,
          handed := handed } =
      { input := { rest := xs }, evset := parse message.bytes, more := true,
        handed := handed } := by
  have hsize := readLittleEndian32_length message.bytes.length message.small (message.bytes ++ xs)
  have hread : Istream.read { rest := message.bytes ++ xs } message.bytes.length =
      (message.bytes, { rest := xs }) := by
    simp [Istream.read, Istream.good]
  unfold Reading.test parseDelimited
  dsimp only
  rw [record, List.append_assoc, hsize]
  simp only [Option.getD_some, message.nonempty.ne', if_false, hread]
  rfl

/-- At the end of the file, or in a cut length word, the loop stops. -/
theorem test_short {xs : List UInt8} (hxs : xs.length < 4) :
    Reading.test parse { input := { rest := xs }, evset := evset, more := more, handed := handed } =
      { input := exhausted, evset := evset, more := false, handed := handed } := by
  unfold Reading.test parseDelimited
  dsimp only
  rw [readLittleEndian32_short hxs]
  rfl

/-- The part of a cut body is handed to the loop: the parser returns `false`, and so does
`good()`. -/
theorem test_cut (message : Serialised) {xs : List UInt8}
    (hxs : xs.length < message.bytes.length) :
    Reading.test parse
        { input := { rest := littleEndian 4 message.bytes.length ++ xs }, evset := evset,
          more := more, handed := handed } =
      { input := exhausted, evset := parse xs, more := true, handed := handed } := by
  have hsize := readLittleEndian32_length message.bytes.length message.small xs
  have hread : Istream.read { rest := xs } message.bytes.length = (xs, exhausted) := by
    have hle : ¬ message.bytes.length ≤ xs.length := by omega
    simp [Istream.read, Istream.good, hle, exhausted]
  unfold Reading.test parseDelimited
  dsimp only
  rw [hsize]
  simp only [Option.getD_some, message.nonempty.ne', if_false, hread]
  rfl

theorem test_exhausted :
    Reading.test parse { input := exhausted, evset := evset, more := more, handed := handed } =
      { input := exhausted, evset := evset, more := false, handed := handed } := rfl

/-! ## The loop -/

/-- The state in which the condition is tested for the first time. -/
def Reading.start (file : List UInt8) (evset : α) : Reading α :=
  { input := { rest := file }, evset := evset }

/-- The run lemma: the body gets the records that lie in the prefix, and what there is of a
body that is cut. -/
theorem reading_ends (messages : List Serialised) (cut : Nat) (evset : α) (more : Bool)
    (handed : List α) :
    ∃ t, (reading parse).Ends
        (Reading.test parse
          { input := { rest := (messages.flatMap record).take cut }, evset := evset, more := more,
            handed := handed }) t ∧
      t.handed = handed ++ (completed messages cut).map (fun m => parse m.bytes) ++
        ((cutBody messages cut).map parse).toList := by
  induction messages generalizing cut evset more handed with
  | nil =>
    rw [List.flatMap_nil, List.take_nil, test_short (by decide)]
    exact ⟨_, ⟨Loop.Reaches.refl _, rfl⟩, by simp [completed, cutBody]⟩
  | cons message messages ih =>
    rw [List.flatMap_cons]
    by_cases hwhole : 4 + message.bytes.length ≤ cut
    · -- The record lies in the prefix: the body gets it, and the loop goes on behind it.
      have htake : (record message ++ messages.flatMap record).take cut =
          record message ++ (messages.flatMap record).take (cut - (4 + message.bytes.length)) := by
        rw [List.take_append, length_record, List.take_of_length_le (by rw [length_record]; omega)]
      rw [htake, test_record, completed, cutBody, if_pos hwhole, if_pos hwhole]
      obtain ⟨t, hends, hhanded⟩ := ih (cut - (4 + message.bytes.length))
        (parse message.bytes) true (handed ++ [parse message.bytes])
      refine ⟨t, ⟨?_, hends.2⟩, ?_⟩
      · exact (Loop.Next.reaches ⟨rfl, rfl⟩).trans hends.1
      · rw [hhanded]
        simp
    · have htake : (record message ++ messages.flatMap record).take cut =
          (record message).take cut :=
        List.take_append_of_le_length (by rw [length_record]; omega)
      rw [htake, completed, cutBody, if_neg hwhole, if_neg hwhole]
      by_cases hlength : 4 ≤ cut
      · -- The body is cut: what there is of it is handed on, then the loop stops.
        have hbody : (record message).take cut =
            littleEndian 4 message.bytes.length ++ message.bytes.take (cut - 4) := by
          have hlen := length_littleEndian 4 message.bytes.length
          rw [record, List.take_append, hlen, List.take_of_length_le (by omega)]
        rw [hbody, test_cut message (by rw [List.length_take]; omega), if_pos hlength]
        refine ⟨_, ⟨Loop.Next.reaches ⟨rfl, rfl⟩, ?_⟩, ?_⟩
        · rw [test_exhausted]
          rfl
        · rw [test_exhausted]
          simp
      · rw [test_short (by rw [List.length_take]; omega), if_neg hlength]
        exact ⟨_, ⟨Loop.Reaches.refl _, rfl⟩, by simp⟩

/-- The loop ends with exactly the records of the prefix handed to its body, unless the
prefix ends in a body. -/
theorem reading_exact_iff (messages : List Serialised) (cut : Nat) (evset : α) :
    (∃ t, (reading parse).Ends
        ((Reading.start ((written messages).take cut) evset).test parse) t ∧
        t.handed = (completed messages cut).map fun m => parse m.bytes) ↔
      cutBody messages cut = none := by
  obtain ⟨t, hends, hhanded⟩ := reading_ends messages cut evset true []
  rw [← written_eq] at hends
  constructor
  · rintro ⟨t', hends', hhanded'⟩
    have hlen := congrArg List.length hhanded
    rw [hends.unique hends', hhanded'] at hlen
    cases hcut : cutBody messages cut with
    | none => rfl
    | some body =>
      rw [hcut] at hlen
      simp at hlen
  · intro hcut
    refine ⟨t, hends, ?_⟩
    rw [hhanded, hcut]
    simp

/-- A file of one record of two bytes is cut in its body: the body of the loop gets the one
byte that there is. -/
theorem cutRecord_not_exact :
    ¬ ∃ t, (reading id).Ends
        ((Reading.start ((written [⟨[8, 1], by decide, by decide⟩]).take 5) []).test id) t ∧
        t.handed = (completed [⟨[8, 1], by decide, by decide⟩] 5).map fun m => id m.bytes := by
  rintro ⟨t, hends, hhanded⟩
  have hpartial : (reading id).Ends
      ((Reading.start ((written [⟨[8, 1], by decide, by decide⟩]).take 5) []).test id)
      { input := exhausted, evset := [8], more := false, handed := [[8]] } :=
    ⟨Loop.Next.reaches ⟨rfl, rfl⟩, rfl⟩
  rw [hends.unique hpartial] at hhanded
  exact absurd hhanded (by decide)

end Reading

end FzDaq.Utils
