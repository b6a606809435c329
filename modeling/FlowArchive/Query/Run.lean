import FlowArchive.Archive.Ledger
import FlowArchive.Condition.Predicate
import FlowArchive.Query.Basic
import FlowArchive.Query.Pipeline

/-!
# Running queries

The condition is compiled, the blocks in range are scanned, and their tallies are merged and ranked. A query
that finds no flow has an empty answer; a block that cannot be read fails the query.
-/

namespace FlowArchive

/-- What is listed of an interface. -/
structure InterfaceInfo where
  name : String
  flows : UInt64
  traffic : UInt64
  first : Timestamp
deriving DecidableEq, Repr

namespace Archive

def scan (p : Predicate) (g : Grouping) (b : BlockRef) : Action Tally := do
  let fs ← readBlock b
  return Tally.ofFlows g b.interface b.descriptor.time (fs.filter p.admits)

def scanAll (p : Predicate) (g : Grouping) (bs : List BlockRef) : Action (List Pipeline.Outcome) :=
  Action.forEach (fun b => do return Pipeline.outcomeOf (← (scan p g b).attempt)) bs

def answer (q : Query) (hosts : Resolver) (blocksScanned : Nat) (a : Aggregate) : QueryResult :=
  let rows := q.ranking.apply q.grouping.hasTime a.tally.entries
  let rows := q.naming.elim rows fun n => n.apply hosts.reverse ⟨0⟩ rows
  ⟨q.grouping.columns, rows, a.totals, a.tally.size, blocksScanned, .found, 0⟩

/-- The milliseconds between two readings of the clock. -/
def elapsed (start stop : Nat) : Float := Ranking.toDouble (stop - start) / 1000000

/-- Answers a query. -/
def query (a : Archive) (hosts : Resolver) (q : Query) : Action QueryResult := do
  let start ← Action.ask .clock
  a.checkExists
  Action.ofExcept (q.validate.mapError Failure.refused)
  let p ← Action.ofExcept (Predicate.ofText hosts q.condition)
  let bs ← a.blocksInRange q.interfaces q.range
  let result ← match Pipeline.collect (← scanAll p q.grouping bs) with
    | .ok aggregate => pure (answer q hosts bs.length aggregate)
    | .error .noFlows => pure (.none q.grouping.columns bs.length)
    | .error f => Action.fail f
  let stop ← Action.ask .clock
  return { result with milliseconds := elapsed start stop }

/-- The interfaces of the summary, by name. -/
def listInterfaces (a : Archive) : Action (List InterfaceInfo) := do
  a.checkExists
  let s ← a.readSummary
  return s.interfaces.entries.map fun e => ⟨e.1, e.2.flows, e.2.traffic, e.2.first⟩

end Archive

end FlowArchive
