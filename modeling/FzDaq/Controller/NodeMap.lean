import FzDaq.Machine.Loop
import FzDaq.RunControl.Message

/-!
# `FzController::map_insert` and `FzController::map_clean`

The collector of the controller keeps the last report of each node in `map`, and in
`deque` an iterator to each element of the map with the time of its last report. The
index of both loops over the deque is a `uint8_t`.
-/

namespace FzDaq.Controller

open FzDaq.Machine FzDaq.RunControl

namespace Report

/-- The message `Report::FzReader`, as the controller publishes it. -/
structure FzReader where
  inBytes : UInt64
  inBytesBw : UInt32 := 0
  inEvents : UInt64
  inEventsBw : UInt32 := 0
  deriving DecidableEq, Repr

/-- The message `Report::FzFSM`, as the controller publishes it. -/
structure FzFSM where
  stateInvalid : UInt64
  eventsEmpty : UInt64
  eventsGood : UInt64
  eventsBad : UInt64
  deriving DecidableEq, Repr

/-- The message `Report::FzWriter`, as the controller publishes it. -/
structure FzWriter where
  outBytes : UInt64
  outBytesBw : UInt32 := 0
  outEvents : UInt64
  outEventsBw : UInt32 := 0
  deriving DecidableEq, Repr

/-- The message `Report::Node`. -/
structure Node extends RunControl.Node where
  parserNum : UInt32 := 0
  reader : Option FzReader := none
  fsm : List FzFSM := []
  writer : Option FzWriter := none
  deriving DecidableEq, Repr

end Report

/-- An element of the map. Its address is what iterators to it are made of. -/
structure MapElem where
  addr : Nat
  first : String
  second : Report.Node
  deriving DecidableEq, Repr

/-- An iterator into the map, and a time. -/
structure DequeEntry where
  first : Nat
  second : Int
  deriving DecidableEq, Repr

/-- The members `map` and `deque`. An element that is inserted gets the address
`nextAddr`, which no other one has had. -/
structure Registry where
  map : List MapElem := []
  deque : List DequeEntry := []
  nextAddr : Nat := 0
  deriving DecidableEq, Repr

/-- In seconds. -/
def EXPIRY : Int := 10

/-- `difftime(now, entry.second) > EXPIRY`. -/
def expired (now : Int) (entry : DequeEntry) : Bool := decide (now - entry.second > EXPIRY)

/-- What an iterator points to, if it is valid. -/
def deref (map : List MapElem) (it : Nat) : Option MapElem := map.find? fun elem => elem.addr == it

/-! ## `map_insert` -/

/-- The loop that puts the time of a report into the deque, between two turns. -/
structure Refresh where
  i : UInt8 := 0
  deque : List DequeEntry
  deriving DecidableEq, Repr

/-- The loop for a host `k` that the map has. `time(NULL)` is called for each entry that
refers to the host, of which there is one. -/
def refreshLoop (map : List MapElem) (k : String) (now : Int) : Loop Refresh where
  halted s := decide (s.deque.length ≤ s.i.toNat)
  body s := do
    let entry ← s.deque[s.i.toNat]?
    let elem ← deref map entry.first
    some
      { i := s.i + 1
        deque := if elem.first = k then s.deque.set s.i.toNat { entry with second := now }
          else s.deque }

namespace Registry

/-- The map holds a report of the host. -/
def has (r : Registry) (k : String) : Bool := r.map.any fun elem => elem.first == k

/-- A host that the map does not have: `map.insert` and `deque.push_back`. -/
def emplace (r : Registry) (k : String) (v : Report.Node) (now : Int) : Registry where
  map := r.map.takeWhile (fun elem => decide (elem.first < k)) ++
    { addr := r.nextAddr, first := k, second := v } ::
      r.map.dropWhile fun elem => decide (elem.first < k)
  deque := r.deque ++ [{ first := r.nextAddr, second := now }]
  nextAddr := r.nextAddr + 1

/-- `map[k] = v`. -/
def assign (r : Registry) (k : String) (v : Report.Node) : Registry :=
  { r with map := r.map.map fun elem => if elem.first = k then { elem with second := v } else elem }

/-- `map_insert`, with at most `fuel` turns of its loop. -/
def mapInsert (fuel : Nat) (r : Registry) (k : String) (v : Report.Node) (now : Int) :
    Outcome (Bool × Registry) :=
  if r.has k then
    let r := r.assign k v
    ((refreshLoop r.map k now).run fuel { deque := r.deque }).map fun s =>
      (false, { r with deque := s.deque })
  else .ended (true, r.emplace k v now)

/-- `map.erase(deque[i].first); deque.erase(deque.begin() + i)`. -/
def eraseAt (r : Registry) (i : Nat) (it : Nat) : Registry :=
  { r with map := r.map.filter fun elem => elem.addr != it, deque := r.deque.eraseIdx i }

/-- The body of the loop of `map_clean`. -/
def cleanAt (r : Registry) (now : Int) (i : Nat) : Option Registry := do
  let entry ← r.deque[i]?
  if expired now entry then (deref r.map entry.first).map fun elem => r.eraseAt i elem.addr
  else some r

end Registry

/-! ## `map_clean` -/

/-- The loop of `map_clean` between two turns. `readings` counts the calls of `time(NULL)`. -/
structure Clean where
  i : UInt8 := 0
  readings : Nat := 0
  registry : Registry
  deriving DecidableEq, Repr

/-- `clock` are the values of `time(NULL)`, one for each turn. -/
def cleanLoop (clock : Nat → Int) : Loop Clean where
  halted s := decide (s.registry.deque.length ≤ s.i.toNat)
  body s := (s.registry.cleanAt (clock s.readings) s.i.toNat).map fun registry =>
    { i := s.i + 1, readings := s.readings + 1, registry := registry }

/-- `map_clean`, with at most `fuel` turns of its loop. -/
def Registry.mapClean (fuel : Nat) (r : Registry) (clock : Nat → Int) : Outcome Registry :=
  ((cleanLoop clock).run fuel { registry := r }).map Clean.registry

/-! ## Calls -/

inductive Call where
  | mapInsert (k : String) (v : Report.Node) (now : Int)
  | mapClean (clock : Nat → Int)

/-- A turn of `process_collector`: what has been received, if anything, and the expiry. -/
def collectorTurn (nodereport : Option (Report.Node × Int)) (clock : Nat → Int) : List Call :=
  (nodereport.map fun rep => Call.mapInsert rep.1.hostname rep.1 rep.2).toList ++ [.mapClean clock]

namespace Call

def perform (fuel : Nat) (r : Registry) : Call → Outcome Registry
  | .mapInsert k v now => (r.mapInsert fuel k v now).map Prod.snd
  | .mapClean clock => r.mapClean fuel clock

/-- The report of the host that the call inserts, with the time. -/
def reportOf (k : String) : Call → Option (Report.Node × Int)
  | .mapInsert k' v now => if k' = k then some (v, now) else none
  | .mapClean _ => none

end Call

/-- The calls are made one after the other and complete, which takes `r` to `r'`. -/
def Completes (r : Registry) : List Call → Registry → Prop
  | [], r' => r' = r
  | call :: calls, r' => ∃ fuel q, call.perform fuel r = .ended q ∧ Completes q calls r'

/-- The last report of the host among the calls. -/
def lastReport (calls : List Call) (k : String) : Option (Report.Node × Int) :=
  calls.reverse.findSome? (Call.reportOf k)

end FzDaq.Controller
