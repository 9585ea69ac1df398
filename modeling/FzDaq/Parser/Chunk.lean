import FzDaq.Parser.Process

/-!
# Received chunks

`FzReader` cuts the stream of words behind each REGID word, so a chunk ends with
a REGID word and contains no other.
-/

namespace FzDaq.Parser

theorem getwordId_c800 : getwordId 0xC800 = .regid := by decide

/-- The words of one chunk as `FzReader` sends it. -/
structure Chunk where
  body : List Word
  regid : Word
  regid_id : getwordId regid = .regid
  body_id : ∀ w ∈ body, getwordId w ≠ .regid

namespace Chunk

/-- The last condition on a chunk, for a list of words that is known. -/
theorem ne_regid_of_all {ws : List Word} (h : (ws.all fun w => getwordId w != .regid) = true) :
    ∀ w ∈ ws, getwordId w ≠ .regid := by
  simpa using h

def words (ch : Chunk) : List Word := ch.body ++ [ch.regid]

/-- The values found by accesses outside of repeated fields and name tables, and by
conversions out of range. -/
structure Past where
  value : Nat → UInt32
  sample : Nat → Nat
  str : Table → Nat → String
  range : UInt32 → Word → UInt32

/-- All zeros and empty names. -/
def Past.zero : Past := ⟨fun _ => 0, fun _ => 0, fun _ _ => "", fun _ _ => 0⟩

/-- The environment in which the memory behind `event` is the chunk and nothing
else, so that an access outside the chunk, and no other one, faults. -/
def env (ch : Chunk) (fmt : Format) (past : Past) : Env where
  evformat := fmt
  eventSize := ch.words.length
  event k := ch.words[k]?
  pastValue k := some (past.value k)
  pastSample k := some (past.sample k)
  pastStr t k := some (past.str t k)
  pastRange := past.range

end Chunk

/-- The words of the event are those of the chunk; nothing is said about the
memory behind them. -/
structure Env.Carries (E : Env) (ch : Chunk) : Prop where
  size : E.eventSize = ch.words.length
  word : ∀ k, k < E.eventSize → E.event k = ch.words[k]?

theorem Chunk.env_carries (ch : Chunk) (fmt : Format) (past : Chunk.Past) :
    (ch.env fmt past).Carries ch := ⟨rfl, fun _ _ => rfl⟩

end FzDaq.Parser
