import FzDaq.RunControl.RCFSM

/-!
# Run-control messages

The messages of `FzRCS.proto`, and the part of a node's report that run control reads.
-/

namespace FzDaq.RunControl

inductive Channel where
  | rc
  | setup
  deriving DecidableEq, Repr

inductive Operation where
  | read
  | write
  deriving DecidableEq, Repr

inductive Module where
  | rd
  | psr
  | wr
  | nm
  | cnt
  deriving DecidableEq, Repr

structure Request where
  channel : Channel
  operation : Operation
  module : Module
  hostname : Option String := none
  varname : String
  value : Option String := none
  deriving DecidableEq, Repr

/-- `req.value()`, empty if the field is not set. -/
def Request.valueStr (req : Request) : String := req.value.getD ""

inductive ErrorCode where
  | ok
  | err
  | deny
  deriving DecidableEq, Repr

/-- A node as a report and as a response show it. -/
structure Node where
  hostname : String
  profile : String
  status : String
  deriving DecidableEq, Repr

structure Response where
  value : Option String := none
  errorcode : ErrorCode
  reason : String
  node : List Node := []
  deriving DecidableEq, Repr

/-- The messages that a request is answered with. -/
inductive Reply where
  | response (res : Response)
  | nodereport (node : Node)
  | nodeset (nodes : List Node)
  deriving DecidableEq, Repr

/-- The answer that a request starts with. -/
def formatError : Response := { errorcode := .err, reason := "request format error" }

end FzDaq.RunControl
