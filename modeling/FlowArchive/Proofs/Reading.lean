import FlowArchive.Archive.Store
import FlowArchive.Proofs.Action

/-!
# Reading an archive

What is there, which blocks lie in a range and what they hold is found out without a change to the disk. An index
that cannot be read lists nothing.
-/

namespace FlowArchive

/-- The blocks that the index of a partition lists before its first flaw; none if it cannot be read. -/
def Disk.indexOf (d : Disk) (partition : Path) : List Descriptor :=
  match d.read (Archive.indexPath partition) with
  | .ok s => (Index.readPrefix s).1
  | .error _ => []

/-- The flows of a block on a disk, or why they cannot be had. -/
def Disk.flowsOf (d : Disk) (b : BlockRef) : Except Failure (List Flow) :=
  match d.read b.path with
  | .error f => .error (.fault f)
  | .ok s => (Block.decode s).mapError .block

namespace Archive

theorem reads_checkExists (a : Archive) : a.checkExists.Reads := by
  unfold checkExists
  split
  · exact Action.reads_fail _
  · refine Action.reads_bind (Action.reads_kind a.root) fun k => ?_
    split
    · exact Action.reads_pure ()
    · exact Action.reads_fail _
    · exact Action.reads_fail _

theorem run_readIndex (p : Path) (d : Disk) : (readIndex p).run d = (d.indexOf p, d) := by
  have answered : (Script.request (.read (indexPath p))).run d = (d.read (indexPath p), d) := rfl
  rw [readIndex, Script.run_bind, answered, Disk.indexOf]
  cases d.read (indexPath p) <;> rfl

theorem runOn_readIndex (p : Path) (d : Disk) :
    (Action.ofScript (readIndex p)).runOn d = (.ok (d.indexOf p), d) := by
  rw [Action.runOn_ofScript, run_readIndex]

theorem reads_entries (a : Archive) (interface : String) : (a.entries interface).Reads :=
  Action.reads_bind (Action.reads_ask_list _) fun _ => Action.reads_pure _

theorem reads_partitionBlocks (interface : String) (range : TimeRange) (p : Timestamp × Path) :
    (partitionBlocks interface range p).Reads := by
  unfold partitionBlocks
  split
  · refine Action.reads_bind (fun d => ?_) fun ds => Action.reads_pure _
    rw [runOn_readIndex]
  · exact Action.reads_pure []

theorem reads_interfaceBlocks (a : Archive) (range : TimeRange) (interface : String) :
    (a.interfaceBlocks range interface).Reads := by
  refine Action.reads_bind (Action.reads_bind (reads_entries a interface) fun _ => Action.reads_pure _) fun ps => ?_
  exact Action.reads_bind (Action.reads_forEach (reads_partitionBlocks interface range) ps) fun _ => Action.reads_pure _

theorem reads_checkInterfaces (a : Archive) (names : List String) : (a.checkInterfaces names).Reads := by
  induction names with
  | nil => exact Action.reads_pure ()
  | cons name rest ih =>
    refine Action.reads_bind (Action.reads_kind _) fun k => ?_
    split
    · exact ih
    · exact Action.reads_fail _

theorem reads_blocksInRange (a : Archive) (choice : Interfaces) (range : TimeRange) :
    (a.blocksInRange choice range).Reads := by
  have chosen : (a.chosen choice).Reads := by
    cases choice with
    | any => exact Action.reads_bind (Action.reads_ask_list _) fun _ => Action.reads_pure _
    | named names => exact Action.reads_bind (reads_checkInterfaces a names) fun _ => Action.reads_pure _
  refine Action.reads_bind chosen fun names => ?_
  exact Action.reads_bind (Action.reads_forEach (reads_interfaceBlocks a range) names) fun _ => Action.reads_pure _

theorem runOn_readBlock (b : BlockRef) (d : Disk) : (readBlock b).runOn d = (d.flowsOf b, d) := by
  have answered : (Action.ask (.read b.path)).runOn d = ((d.read b.path).mapError .fault, d) := Action.runOn_ask _ d
  unfold readBlock Disk.flowsOf
  cases stored : d.read b.path with
  | error f =>
    rw [stored] at answered
    rw [Action.runOn_bind_of_error answered]
  | ok s =>
    rw [stored] at answered
    rw [Action.runOn_bind_of_ok answered]
    show _ = ((Block.decode s).mapError Failure.block, d)
    cases Block.decode s <;> rfl

end Archive

end FlowArchive
