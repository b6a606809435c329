import FlowArchive.Archive.Ledger
import FlowArchive.Archive.Store

/-!
# Cleaning and wiping

Cleaning removes the partitions of the days before the day of a cutoff, and the directories of interfaces that
held nothing else. What was removed is then taken from the summary in one change. Wiping removes every
directory of an archive.
-/

namespace FlowArchive

/-- What cleaning did to an interface. -/
structure Sweep where
  /-- Flows and traffic of the removed partitions. -/
  flows : UInt64
  traffic : UInt64
  /-- The time of the earliest block of the partitions that remain. -/
  first : Option Timestamp
  /-- Whether there was nothing but partitions to remove. -/
  allStale : Bool
  /-- How many partitions were removed. -/
  removed : Nat
deriving DecidableEq, Repr

namespace Sweep

/-- Nothing has been removed yet. -/
def start : Sweep := ⟨0, 0, none, true, 0⟩

/-- Whether the interface has no block any more. -/
def isGone (s : Sweep) : Bool := s.first.isNone

/-- Something other than a removed partition is there. -/
def keep (s : Sweep) : Sweep := { s with allStale := false }

/-- A partition with these blocks remains. -/
def retain (s : Sweep) (ds : List Descriptor) : Sweep :=
  let first := match Index.firstTime? ds with
    | none => s.first
    | some t => some (s.first.elim t (min · t))
  { s with allStale := false, first := first }

/-- A partition with these blocks was removed. -/
def remove (s : Sweep) (ds : List Descriptor) : Sweep :=
  let totals := Index.totals ds
  { s with
    flows := addCapped s.flows totals.1
    traffic := addCapped s.traffic totals.2
    removed := s.removed + 1 }

end Sweep

/-- What cleaning did to the interfaces of an archive, by name. -/
structure SweepReport where
  interfaces : List (String × Sweep)
deriving DecidableEq, Repr

namespace SweepReport

/-- How many partitions were removed. -/
def removed (r : SweepReport) : Nat := r.interfaces.foldl (fun n e => n + e.2.removed) 0

/-- The interfaces that have no block any more. -/
def gone (r : SweepReport) : List String := (r.interfaces.filter fun e => e.2.isGone).map (·.1)

def reconcileInterface (s : Summary) (e : String × Sweep) : Summary :=
  ⟨s.interfaces.alter e.1 fun old =>
    match e.2.first with
    | none => none
    | some first => old.map fun i => i.reduce e.2.flows e.2.traffic first⟩

def reconcile (r : SweepReport) (s : Summary) : Summary := r.interfaces.foldl reconcileInterface s

end SweepReport

namespace Archive

/-- Cleans one entry of an interface's directory: the index of a partition is read, then the partition removed
if its day is before the day of the cutoff. -/
def sweepEntry (cutoffDay : Timestamp) (s : Sweep) : StoreEntry → Action Sweep
  | .file _ | .foreign _ => return s.keep
  | .partition day path => do
    let ds ← Action.ofScript (readIndex path)
    if day < cutoffDay then
      removePartition path
      return s.remove ds
    else return s.retain ds

/-- Cleans entries in their order. -/
def sweepEntries (cutoffDay : Timestamp) : Sweep → List StoreEntry → Action Sweep
  | s, [] => return s
  | s, e :: rest => do
    let s ← sweepEntry cutoffDay s e
    sweepEntries cutoffDay s rest

/-- Cleans an interface. Its directory is removed if nothing but removed partitions was in it. -/
def sweepInterface (a : Archive) (cutoffDay : Timestamp) (interface : String) : Action (String × Sweep) := do
  let s ← sweepEntries cutoffDay .start (← a.entries interface)
  if s.allStale then a.removeInterface interface
  return (interface, s)

/-- Removes the partitions that hold no flow from the cutoff on, then updates the summary, which has to be there.
The cutoff has to lie in the past. -/
def clean (a : Archive) (token : LockToken) (now cutoff : Timestamp) : Action SweepReport := do
  if cutoff < now then
    a.checkExists
    let names ← a.interfaceNames
    let report : SweepReport := ⟨← Action.forEach (a.sweepInterface cutoff.startOfDay) names⟩
    let _ ← a.modify token fun
      | none => .error (.absent .summaryToUpdate)
      | some s => .ok (report.reconcile s)
    return report
  else Action.fail (.refused (.cutoffNotPast cutoff now))

/-- Removes every directory of the archive and tells how many there were. Files remain. -/
def removeDirectories (a : Archive) : Action Nat := do
  a.checkExists
  let names := directoryNames (← Action.ask (.list a.root))
  let _ ← Action.forEach (fun name => Action.ask (.removeTree (a.root.join name))) names
  return names.length

/-- Removes all blocks and empties the summary. -/
def wipe (a : Archive) (token : LockToken) : Action Nat := do
  let n ← a.removeDirectories
  let _ ← a.resetSummary token
  return n

end Archive

end FlowArchive
