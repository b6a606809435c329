import FlowArchive.Address.Text
import FlowArchive.Flow.Counters
import FlowArchive.Flow.Protocol

/-!
# Flows

A flow is the traffic between two addresses towards one port by one protocol, with its counters.
-/

namespace FlowArchive

/-- The traffic between two addresses. -/
structure Flow where
  source : Address
  destination : Address
  port : UInt16
  protocol : UInt8
  counters : Counters
deriving DecidableEq, Repr, Inhabited

namespace Flow

/-- A flow in one line. -/
def text (f : Flow) : String :=
  f.source.text ++ " -> " ++ f.destination.text ++ ":" ++ Decimal.text f.port.toNat ++
    " proto:" ++ Protocol.text f.protocol ++ " (" ++ f.counters.text ++ ")"

/-- The traffic of a list of flows: the sum of the bytes each moved, both ways, up to the greatest word. -/
def traffic (fs : List Flow) : UInt64 :=
  fs.foldl (fun n f => addCapped n f.counters.totalBytes) 0

end Flow

end FlowArchive
