import FlowArchive.Archive.Ledger
import FlowArchive.Block.Basic

/-!
# Writing blocks

A block is written to its partition under a draft name, moved to its own, entered in the index of the partition
and added to the summary, in this order.
-/

namespace FlowArchive.Archive

/-- What is known of a block of flows. -/
def describe (time : Timestamp) (fs : List Flow) : Descriptor := ⟨time, .ofNat fs.length, Flow.traffic fs⟩

def storeBlock (partition : Path) (time : Timestamp) (fs : List Flow) : Action Unit := do
  let draft := partition.join (draftName time)
  Action.ask (.write draft (Block.encode fs))
  Action.ask (.sync draft)
  Action.ask (.rename draft (blockPath partition time))

def indexBlock (partition : Path) (d : Descriptor) : Action Unit := do
  Action.ask (.append (indexPath partition) (Index.writeEntry d))
  Action.ask (.sync (indexPath partition))

/-- Writes the flows that an interface saw from a time on. A block that is there already is not replaced. -/
def writeBlock (a : Archive) (token : LockToken) (interface : String) (time : Timestamp) (fs : List Flow) :
    Action Descriptor := do
  if isInterfaceName interface then
    let partition := a.partitionPath interface time
    Action.ask (.makeDirectories partition)
    match ← Action.kind (blockPath partition time) with
    | some _ => Action.fail (.refused (.blockExists time interface))
    | none => do
      storeBlock partition time fs
      let d := describe time fs
      indexBlock partition d
      let _ ← a.modify token fun old => .ok (Summary.append old interface d)
      return d
  else Action.fail (.refused (.interfaceName interface))

end FlowArchive.Archive
