import FlowArchive.Query.Ranking
import FlowArchive.Resolver
import FlowArchive.Time.Duration

/-!
# Naming rows

The addresses of the first rows of a result are looked up, each once and all at the same time. A name that
comes in time is added to the rows of its address.
-/

namespace FlowArchive

/-- How many rows are named, and how long a look-up may take. -/
structure Naming where
  rows : Nat
  timeout : Duration
deriving DecidableEq, Repr

namespace Naming

/-- Twenty-five rows, a second for each look-up. -/
def default : Naming := ⟨25, .ofSeconds 1⟩

def rowAddresses (r : Row) : List Address := r.key.source.toList ++ r.key.destination.toList

/-- The addresses of rows, ascending and each once. -/
def addresses (rows : List Row) : List Address :=
  (Table.ofList ((rows.flatMap rowAddresses).map fun a => (a, ()))).keys

/-- The names of addresses among the answers, in whatever order those came. -/
def namesOf (answers : List (Address × Option String)) : Table Address String :=
  answers.foldl (fun t e => t.alter e.1 fun old => e.2.or old) .empty

def nameRow (names : Table Address String) (r : Row) : Row :=
  { r with
    sourceName := r.key.source.bind names.get?
    destinationName := r.key.destination.bind names.get? }

/-- Sets the names of the first rows by the answers to the look-ups. Rows stay as they are if there is no
address to look up. -/
def nameRows (n : Naming) (answers : List (Address × Option String)) (rows : List Row) : List Row :=
  let first := rows.take n.rows
  if (addresses first).isEmpty then rows
  else first.map (nameRow (namesOf answers)) ++ rows.drop n.rows

/-- Looks up the addresses of the first rows, where each look-up takes a time, and names the rows. -/
def apply (n : Naming) (reverse : Address → Option String) (delay : Duration) (rows : List Row) : List Row :=
  let inTime := delay.nanoseconds < n.timeout.nanoseconds
  let answers := (addresses (rows.take n.rows)).map fun a => (a, if inTime then reverse a else none)
  n.nameRows answers rows

end Naming

end FlowArchive
