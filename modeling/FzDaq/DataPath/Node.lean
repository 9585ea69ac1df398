import FzDaq.Machine.Pool
import FzDaq.Parser.Accounting
import FzDaq.Parser.Nesting
import FzDaq.Reader.Loss
import FzDaq.Writer.Stored

/-!
# The data path of a node

The reader pushes its chunks to the parser threads, and these push their messages to the
writer. Both sockets are ZeroMQ pipelines: a chunk goes to one of the parsers, whichever
comes next, messages between two threads keep their order, and `send` waits while the pipes
are full. Any thread may take the next step, but parsers and writer only wait for a message
in the state `RUNNING`. The state is read before `recv`, which waits for one second: a
message may still come in when the state has changed meanwhile.
-/

namespace FzDaq.DataPath

open FzDaq.Machine FzDaq.Parser FzDaq.Reader FzDaq.RunControl FzDaq.Writer

/-- A parser thread with the chunks in its pipe, of whose messages the writer has received
the first `taken`. `rets` is what its state machine has returned, the last value first. -/
structure ParserThread where
  psr : FzParser
  rcstate : RCstate := .idle
  /-- It may be in a `recv` that was called in a state `RUNNING` that has ended. -/
  late : Bool := false
  inbox : List (List Word) := []
  taken : Nat := 0
  rets : List Retval := []

/-- It waits for a chunk. -/
def ParserThread.receives (t : ParserThread) : Bool := t.rcstate == .running || t.late

def ParserThread.setRcstate (t : ParserThread) (s : RCstate) : ParserThread :=
  { t with rcstate := s, late := t.receives }

/-- The messages pushed and not yet received. -/
def ParserThread.outbox (t : ParserThread) : List (List UInt8) :=
  t.psr.writer.reverse.drop t.taken

/-- The threads of a node, with the number of chunks that have reached a parser and with the
operations of the writer. -/
structure Node where
  rd : FzReader := {}
  handed : Nat := 0
  psrArray : List ParserThread
  wr : FzWriter
  /-- The writer may be in a `recv` that was called in a state `RUNNING` that has ended. -/
  late : Bool := false
  performed : List Op := []

namespace Node

variable (serialize : FzEvent → List UInt8)

/-- The threads as they are allocated. What the members of a parser's state machine hold
is not set. -/
def allocate (fmt : Format) (members : List Fsm) (wr : FzWriter) : Node where
  psrArray := members.map fun sm => { psr := .new fmt sm }
  wr := wr

/-- The messages that the writer has received and published. -/
def received (n : Node) : List (List UInt8) := n.performed.filterMap receivedBy

def setThread (n : Node) (i : Nat) (t : ParserThread) : Node :=
  { n with psrArray := n.psrArray.set i t }

/-- The writer waits for a message. -/
def receives (n : Node) : Bool := n.wr.rcstate == .running || n.late

def perform (n : Node) (op : Op) : Node :=
  { n with
    wr := n.wr.perform op
    late :=
      match op with
      | .setStore _ => n.late
      | .setRcstate _ _ => n.receives
      | .receive _ _ => false
    performed := n.performed ++ [op] }

/-- The parser `i` is put into a state. -/
def setRcstate (n : Node) (i : Nat) (s : RCstate) : Option Node := do
  let t ← n.psrArray[i]?
  return n.setThread i (t.setRcstate s)

/-- The reader gets a datagram, which it polls for in the state `RUNNING` alone. -/
def datagram (n : Node) (d : Datagram) : Node := { n with rd := n.rd.udpHandler d }

/-- The chunk that the reader has sent next goes to the parser `i`. -/
def hand (n : Node) (i : Nat) : Option Node := do
  let t ← n.psrArray[i]?
  let chunk ← n.rd.sent[n.handed]?
  return { n.setThread i { t with inbox := t.inbox ++ [chunk] } with handed := n.handed + 1 }

/-- The parser `i` takes a chunk. -/
def parse (n : Node) (i : Nat) (E : Env) (fuel : Nat) : Option Node := do
  let t ← n.psrArray[i]?
  guard t.receives
  let psr ← t.psr.process serialize E fuel
  return n.setThread i { t with
    psr := psr, late := false, inbox := t.inbox.tail, rets := psr.sm.retval :: t.rets }

/-- The writer receives a message of the parser `i`. -/
def collect (n : Node) (i : Nat) (disk : Disk) : Option Node := do
  guard n.receives
  let t ← n.psrArray[i]?
  let message ← t.outbox.head?
  return (n.setThread i { t with taken := t.taken + 1 }).perform (.receive message disk)

/-- The event that a parser is called for is the next one in its pipe. -/
structure Calls (n : Node) (i : Nat) (E : Env) (c : List Word) : Prop where
  inbox : ∃ t rest, n.psrArray[i]? = some t ∧ t.inbox = c :: rest ∧ E.evformat = t.psr.evformat
  event : E.Delivers c

/-- One step of the data behind the reader. -/
inductive Moves (n m : Node) : Prop
  | hand (i : Nat) (h : n.hand i = some m)
  | parse (i : Nat) (E : Env) (fuel : Nat) (c : List Word) (hE : n.Calls i E c)
      (h : n.parse serialize i E fuel = some m)
  | collect (i : Nat) (disk : Disk) (h : n.collect i disk = some m)

/-- The runs of a node, with the datagrams that have come. Parsers and writer are put into a
state, and the writer is told to store or not, at any time. -/
inductive Runs (n : Node) : List Datagram → Node → Prop
  | start : Runs n [] n
  | datagram {ds : List Datagram} {m : Node} (h : Runs n ds m) (d : Datagram) :
      Runs n (ds ++ [d]) (m.datagram d)
  | move {ds : List Datagram} {m m' : Node} (h : Runs n ds m) (hmove : m.Moves serialize m') :
      Runs n ds m'
  | control {ds : List Datagram} {m : Node} (h : Runs n ds m) (op : Op)
      (hop : receivedBy op = none) : Runs n ds (m.perform op)
  | setRcstate {ds : List Datagram} {m m' : Node} (h : Runs n ds m) (i : Nat) (s : RCstate)
      (hset : m.setRcstate i s = some m') : Runs n ds m'

end Node

end FzDaq.DataPath
