import FlowArchive.Query.Tally
import FlowArchive.Text.Case

/-!
# Rankings

A ranking puts the rows of a result in order and cuts them. Rows are ordered by traffic, which may be counted
one way only, or by their keys. Unless a number of rows is asked for, the rows that carry a share of the
traffic are kept, from the largest down. Results by time are in the order of time and never cut.
-/

namespace FlowArchive

/-- What rows are ordered by. -/
inductive SortKey where
  | bytes
  | packets
  | time
deriving DecidableEq, Repr

namespace SortKey

def name : SortKey → String
  | bytes => "bytes"
  | packets => "packets"
  | time => "time"

/-- The order of a name in any letter case. -/
def ofName? (s : String) : Option SortKey :=
  match Text.foldName s with
  | "bytes" => some bytes
  | "packets" => some packets
  | "time" => some time
  | _ => none

end SortKey

/-- Which traffic is counted. -/
inductive Direction where
  | received
  | sent
  | both
deriving DecidableEq, Repr

namespace Direction

def name : Direction → String
  | received => "in"
  | sent => "out"
  | both => "both"

end Direction

/-- A row of a result: a key, its counters, and the names of its addresses if they were looked up. -/
structure Row where
  key : Key
  counters : Counters
  sourceName : Option String
  destinationName : Option String
deriving DecidableEq

namespace Row

/-- A row without names. -/
def ofEntry (e : Key × Counters) : Row := ⟨e.1, e.2, none, none⟩

end Row

/-- How rows are ordered and cut. -/
structure Ranking where
  sortKey : SortKey
  direction : Direction
  ascending : Bool
  limit : Option Nat
  /-- The share of the traffic that is kept where no limit is given. -/
  coverage : Float

namespace Ranking

/-- The share that is kept by default. -/
def defaultCoverage : Float := 0.95

/-- The largest rows by bytes, both ways. -/
def default : Ranking := ⟨.bytes, .both, false, none, defaultCoverage⟩

def metric (r : Ranking) (c : Counters) : UInt64 :=
  match r.sortKey, r.direction with
  | .packets, .received => c.packetsReceived
  | .packets, .sent => c.packetsSent
  | .packets, .both => c.totalPackets
  | _, .received => c.bytesReceived
  | _, .sent => c.bytesSent
  | _, .both => c.totalBytes

/-- Whether rows are ordered by their keys. -/
def isByKey (r : Ranking) (timeGrouped : Bool) : Bool := timeGrouped || r.sortKey == .time

/-- The order of rows by traffic; rows with the same traffic are in the order of their keys. -/
def metricOrder (r : Ranking) (a b : Row) : Ordering :=
  let order := compare (r.metric a.counters) (r.metric b.counters)
  (if r.ascending then order else order.swap).then (compare a.key b.key)

/-- Whether a row comes before another. -/
def le (r : Ranking) (timeGrouped : Bool) (a b : Row) : Bool :=
  if r.isByKey timeGrouped then
    if timeGrouped || r.ascending then (compare a.key b.key).isLE else (compare b.key a.key).isLE
  else (r.metricOrder a b).isLE

/-- All rows in order. -/
def sorted (r : Ranking) (timeGrouped : Bool) (l : List (Key × Counters)) : List Row :=
  (l.map Row.ofEntry).mergeSort (r.le timeGrouped)

/-! ## The cut by coverage -/

/-- The length of the shortest nonempty part at the front of a list whose sum, on top of `sum`, is enough; the
length of the list if there is none. -/
def shortestCover (enough : Nat → Bool) : (sum : Nat) → List Nat → Nat
  | _, [] => 0
  | sum, n :: rest => if enough (sum + n) then 1 else shortestCover enough (sum + n) rest + 1

/-- The nearest double to a natural number. Of a large number the 64 leading bits count, the last of which is
set if a bit is lost behind it. -/
def toDouble (n : Nat) : Float :=
  if n < 18446744073709551616 then (UInt64.ofNat n).toFloat
  else
    let shift := n.log2 - 63
    let lead := n / Nat.pow 2 shift
    let kept := if n % Nat.pow 2 shift = 0 then lead else lead ||| 1
    (UInt64.ofNat kept).toFloat.scaleB shift

/-- A share, brought into the range of 0 to 1. -/
def clampShare (x : Float) : Float := if x < 0 then 0 else if 1 < x then 1 else x

def reaches (coverage : Float) (total sum : Nat) : Bool :=
  toDouble total * clampShare coverage ≤ toDouble sum

/-- How many of the rows, from the largest down, carry the share. Without traffic all do. -/
def coverLength (r : Ranking) (rows : List Row) : Nat :=
  let counts := rows.map fun row => (r.metric row.counters).toNat
  let total := counts.foldl (· + ·) 0
  if total = 0 then rows.length else shortestCover (reaches r.coverage total) 0 counts

/-- Cuts rows in order of traffic to those that carry the share. -/
def cover (r : Ranking) (rows : List Row) : List Row :=
  if r.ascending then (rows.reverse.take (r.coverLength rows.reverse)).reverse
  else rows.take (r.coverLength rows)

/-- The rows that are kept of the entries of a tally. -/
def apply (r : Ranking) (timeGrouped : Bool) (l : List (Key × Counters)) : List Row :=
  let rows := r.sorted timeGrouped l
  if timeGrouped then rows
  else
    match r.limit with
    | some n => rows.take n
    | none => if r.isByKey timeGrouped then rows else r.cover rows

end Ranking

end FlowArchive
