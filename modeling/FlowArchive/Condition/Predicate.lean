import FlowArchive.Condition.Parser
import FlowArchive.Resolver

/-!
# Predicates

A condition is compiled in two steps. Attributes that stand for either end of a flow are replaced by the two
they stand for; then values are read and names of hosts resolved. The result is a predicate on flows that
consults nothing any more.
-/

namespace FlowArchive

namespace Condition

/-- The two attributes that an attribute stands for. -/
def ends? : Attribute → Option (Attribute × Attribute)
  | .host => some (.source, .destination)
  | .net => some (.sourceNet, .destinationNet)
  | _ => none

/-- Replaces attributes that stand for either end: one of them has the value, or both differ from it. Address
attributes that are compared by order are refused. -/
def expand : Condition → Except Flaw Condition
  | compare a op value =>
    if a.supports op then
      match ends? a with
      | none => .ok (compare a op value)
      | some (l, r) =>
        if op = .eq then .ok (or (compare l op value) (compare r op value))
        else .ok (and (compare l op value) (compare r op value))
    else .error (.unordered a op)
  | and l r => do .ok (and (← expand l) (← expand r))
  | or l r => do .ok (or (← expand l) (← expand r))
  | not inner => do .ok (not (← expand inner))

end Condition

/-- An end of a flow. -/
inductive FlowEnd where
  | source
  | destination
deriving DecidableEq, Repr

namespace FlowEnd

def address (e : FlowEnd) (f : Flow) : Address :=
  match e with
  | source => f.source
  | destination => f.destination

end FlowEnd

/-- A test of one member of a flow; tests of addresses can be negated. -/
inductive Test where
  | address (at_ : FlowEnd) (value : Address) (negated : Bool)
  | network (at_ : FlowEnd) (value : Network) (negated : Bool)
  | port (op : Comparison) (value : UInt16)
  | protocol (op : Comparison) (value : UInt8)
deriving DecidableEq

namespace Test

def admits : Test → Flow → Bool
  | address e a negated, f => (e.address f == a) != negated
  | network e n negated, f => n.contains (e.address f) != negated
  | port op n, f => op.holds f.port n
  | protocol op n, f => op.holds f.protocol n

end Test

/-- A compiled condition. -/
inductive Predicate where
  | any
  | test (t : Test)
  | not (inner : Predicate)
  | and (left right : Predicate)
  | or (left right : Predicate)
  | every (tests : List Test)
  | some (tests : List Test)
deriving DecidableEq

namespace Predicate

def admits : Predicate → Flow → Bool
  | any, _ => true
  | test t, f => t.admits f
  | not inner, f => !inner.admits f
  | and l r, f => l.admits f && r.admits f
  | or l r, f => l.admits f || r.admits f
  | every ts, f => ts.all (·.admits f)
  | some ts, f => ts.any (·.admits f)

/-- The tests of one end for a literal address or the addresses of a host: any of them, or none of them. -/
def ofHost (hosts : Resolver) (at_ : FlowEnd) (value : String) (negated : Bool) : Except Failure Predicate :=
  match Address.ofText? value with
  | .some a => .ok (test (.address at_ a negated))
  | none =>
    match hosts.lookup value with
    | .error f => .error f
    | .ok addresses =>
      let tests := addresses.map fun a => Test.address at_ a negated
      .ok (if negated then every tests else some tests)

def ofNetwork (at_ : FlowEnd) (value : String) (negated : Bool) : Except Failure Predicate :=
  match Network.ofText? value with
  | .some n => .ok (test (.network at_ n negated))
  | none => .error (.condition (.invalidNetwork value))

def ofComparison (hosts : Resolver) (a : Attribute) (op : Comparison) (value : String) :
    Except Failure Predicate :=
  if a.supports op then
    match a with
    | .source => ofHost hosts .source value (op == .ne)
    | .destination => ofHost hosts .destination value (op == .ne)
    | .sourceNet => ofNetwork .source value (op == .ne)
    | .destinationNet => ofNetwork .destination value (op == .ne)
    | .port =>
      match Decimal.readUInt16? value with
      | .some n => .ok (test (.port op n))
      | none => .error (.condition (.invalidPort value))
    | .protocol =>
      match Protocol.ofText? value with
      | .some n => .ok (test (.protocol op n))
      | none => .error (.condition (.unknownProtocol value))
    | .host | .net => .error (.condition (.unexpanded a))
  else .error (.condition (.unorderedTest a))

/-- Compiles a condition whose attributes stand for themselves. -/
def ofExpanded (hosts : Resolver) : Condition → Except Failure Predicate
  | .compare a op value => ofComparison hosts a op value
  | .not inner => do .ok (not (← ofExpanded hosts inner))
  | .and l r => do .ok (and (← ofExpanded hosts l) (← ofExpanded hosts r))
  | .or l r => do .ok (or (← ofExpanded hosts l) (← ofExpanded hosts r))

/-- Compiles a condition. -/
def ofCondition (hosts : Resolver) (c : Condition) : Except Failure Predicate :=
  match c.expand with
  | .error f => .error (.condition f)
  | .ok expanded => ofExpanded hosts expanded

/-- Compiles a text; a blank one admits every flow. -/
def ofText (hosts : Resolver) (s : String) : Except Failure Predicate :=
  match Condition.ofText s with
  | .error f => .error (.condition f)
  | .ok none => .ok any
  | .ok (.some c) => ofCondition hosts c

end Predicate

end FlowArchive
