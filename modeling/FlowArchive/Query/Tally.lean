import FlowArchive.Failure
import FlowArchive.Flow.Grouping
import FlowArchive.Table

/-!
# Tallies

A tally holds the counters of flows added up by key. Blocks are tallied one by one and their tallies merged;
as counters wrap around, neither the order of the blocks nor that of the keys matters.
-/

namespace FlowArchive

/-- Counters by key. -/
abbrev Tally := Table Key Counters

namespace Tally

/-- Adds counters to those of a key. -/
def add (t : Tally) (e : Key × Counters) : Tally := t.alter e.1 fun old => some (old.getD .zero + e.2)

def ofList (l : List (Key × Counters)) : Tally := l.foldl add .empty

def ofFlows (g : Grouping) (interface : String) (time : Timestamp) (fs : List Flow) : Tally :=
  ofList (fs.map fun f => (g.keyOf interface time f, f.counters))

end Tally

/-- A tally and the sum of all its counters. -/
structure Aggregate where
  tally : Tally
  totals : Counters
deriving DecidableEq

/-- What has been merged so far. -/
structure Merger where
  aggregate : Aggregate
  /-- How many tallies were merged. -/
  merged : Nat
deriving DecidableEq

namespace Merger

def start : Merger := ⟨⟨.empty, .zero⟩, 0⟩

def mergeEntry (a : Aggregate) (e : Key × Counters) : Aggregate := ⟨a.tally.add e, a.totals + e.2⟩

/-- Merges the pairs of a tally, in whatever order they are given. -/
def mergeEntries (m : Merger) (l : List (Key × Counters)) : Merger :=
  ⟨l.foldl mergeEntry m.aggregate, m.merged + 1⟩

def merge (m : Merger) (t : Tally) : Merger := m.mergeEntries t.entries

/-- The aggregate of all that was merged; there has to be a flow. -/
def finish (m : Merger) : Except Failure Aggregate :=
  if m.aggregate.tally.isEmpty then .error .noFlows else .ok m.aggregate

end Merger

end FlowArchive
