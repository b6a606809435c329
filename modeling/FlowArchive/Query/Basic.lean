import FlowArchive.Archive.Store
import FlowArchive.Query.Naming

/-!
# Queries

A query chooses interfaces and a range of time, filters flows by a condition, groups them by columns and ranks
the groups.
-/

namespace FlowArchive

structure Query where
  interfaces : Interfaces
  range : TimeRange
  grouping : Grouping
  /-- The text of the condition; a blank one admits every flow. -/
  condition : String
  sortKey : SortKey
  direction : Direction
  ascending : Bool
  limit : Option Nat
  /-- The share of the available memory that a scan may use, in percent. -/
  memoryShare : UInt8
  naming : Option Naming

namespace Query

def defaultMemoryShare : UInt8 := 60

/-- The query for all times in the default order. -/
def all (interfaces : Interfaces) (grouping : Grouping) : Query where
  interfaces := interfaces
  range := .sinceEpoch
  grouping := grouping
  condition := ""
  sortKey := .bytes
  direction := .both
  ascending := false
  limit := none
  memoryShare := defaultMemoryShare
  naming := none

/-- Refuses arguments that contradict each other or make no sense; the first flaw counts. -/
def validate (q : Query) : Except Refusal Unit :=
  if q.range.last < q.range.first then .error (.emptyRange q.range)
  else if q.memoryShare = 0 ∨ 100 < q.memoryShare then .error (.memoryShare q.memoryShare)
  else if q.limit = some 0 then .error .zeroLimit
  else if q.naming.any fun n => n.timeout.nanoseconds == 0 then .error .zeroTimeout
  else .ok ()

/-- How the rows are ordered and cut. -/
def ranking (q : Query) : Ranking := ⟨q.sortKey, q.direction, q.ascending, q.limit, Ranking.defaultCoverage⟩

end Query

/-- Whether a query found any flow. -/
inductive QueryStatus where
  | found
  | empty
deriving DecidableEq, Repr

namespace QueryStatus

def name : QueryStatus → String
  | found => "ok"
  | empty => "empty"

end QueryStatus

/-- The answer to a query. -/
structure QueryResult where
  columns : List Column
  rows : List Row
  /-- The counters of all flows that were found, also those of rows that were cut. -/
  totals : Counters
  /-- The number of rows before the cut. -/
  hits : Nat
  blocksScanned : Nat
  status : QueryStatus
  milliseconds : Float

namespace QueryResult

/-- The answer of a query that found nothing. -/
def none (columns : List Column) (blocksScanned : Nat) : QueryResult :=
  ⟨columns, [], .zero, 0, blocksScanned, .empty, 0⟩

def isEmpty (r : QueryResult) : Bool := r.status == .empty

end QueryResult

end FlowArchive
