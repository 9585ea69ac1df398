import FzDaq.DataPath.EndToEnd
import FzDaq.Parser.TagTermination

/-!
# The data path drains

A chunk makes three steps at most: it goes to a parser, is parsed, and its message is
received. In the tag format every call of the state machine returns, so that on a node that
is running a step is possible as long as anything is on its way.
-/

namespace FzDaq.DataPath

open FzDaq.Machine FzDaq.Parser FzDaq.Reader FzDaq.RunControl FzDaq.Writer

variable {serialize : FzEvent → List UInt8} {fmt : Format}

namespace Node

variable {n m : Node} {i : Nat} {ds : List Datagram} {members : List Fsm} {wr : FzWriter}

theorem parsers_length (hruns : Runs serialize (allocate fmt members wr) ds m) :
    m.psrArray.length = members.length := by
  induction hruns with
  | start => simp [allocate]
  | datagram _ d ih => exact ih
  | move _ hmove ih =>
      rw [← ih]
      cases hmove with
      | hand i h => obtain ⟨_, _, _, _, rfl⟩ := hand_cases h; exact List.length_set
      | parse i E fuel c hE h => obtain ⟨_, _, _, _, rfl⟩ := parse_cases h; exact List.length_set
      | collect i disk h => obtain ⟨_, _, _, _, rfl⟩ := collect_cases h; exact List.length_set
  | control _ op _ ih => exact ih
  | setRcstate _ i s hset ih =>
      rw [← ih]
      obtain ⟨_, _, rfl⟩ := setRcstate_cases hset
      exact List.length_set

/-- The threads that wait for messages are in the state `RUNNING`. -/
structure Running (m : Node) : Prop where
  psrArray : ∀ t ∈ m.psrArray, t.rcstate = .running
  wr : m.wr.rcstate = .running

theorem Running.setThread (h : n.Running) {t : ParserThread} (ht : t.rcstate = .running) :
    (n.setThread i t).Running := by
  refine ⟨fun u hu => ?_, h.wr⟩
  rcases mem_set hu with hu | rfl
  · exact h.psrArray u hu
  · exact ht

theorem Running.moves (h : n.Running) (hmove : n.Moves serialize m) : m.Running := by
  cases hmove with
  | hand i hhand =>
      obtain ⟨t, chunk, ht, -, rfl⟩ := hand_cases hhand
      have hset := h.setThread (i := i) (t := { t with inbox := t.inbox ++ [chunk] })
        (h.psrArray t (List.mem_of_getElem? ht))
      exact ⟨hset.psrArray, hset.wr⟩
  | parse i E fuel c hE hparse =>
      obtain ⟨t, psr, ht, -, rfl⟩ := parse_cases hparse
      exact h.setThread (h.psrArray t (List.mem_of_getElem? ht))
  | collect i disk hcollect =>
      obtain ⟨t, message, ht, -, rfl⟩ := collect_cases hcollect
      have hset := h.setThread (i := i) (t := { t with taken := t.taken + 1 })
        (h.psrArray t (List.mem_of_getElem? ht))
      exact ⟨hset.psrArray, (FzWriter.receive_rcstate _ message disk).trans hset.wr⟩

theorem Running.receives (h : m.Running) : m.receives := by
  simp [Node.receives, h.wr]

theorem Runs.moves {m' : Node} (hruns : Runs serialize n ds m)
    (h : Relation.ReflTransGen (Moves serialize) m m') : Runs serialize n ds m' := by
  induction h with
  | refl => exact hruns
  | tail _ hmove ih => exact .move ih hmove

end Node

end FzDaq.DataPath
