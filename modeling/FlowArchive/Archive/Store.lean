import FlowArchive.Archive.Layout
import FlowArchive.Block.Basic

/-!
# The stored blocks

What an archive holds is read off its directories: the interfaces, the entries of each, and the blocks that the
indexes list. A damaged or missing index counts as far as it can be read; a block is read strictly.
-/

namespace FlowArchive

/-- A choice of interfaces. -/
inductive Interfaces where
  | any
  | named (names : List String)
deriving DecidableEq, Repr

namespace Interfaces

/-- Reads the word for all interfaces, in any letter case, or names between commas. -/
def ofText (s : String) : Except Refusal Interfaces :=
  if Text.sameAsciiLetters (Text.trim s).toList ['a', 'n', 'y'] then .ok any
  else
    match ((Text.split ',' s).map Text.trim).filter fun name => !name.isEmpty with
    | [] => .error .noInterface
    | names => .ok (named names)

end Interfaces

/-- An entry of the directory of an interface. -/
inductive StoreEntry where
  | partition (day : Timestamp) (path : Path)
  /-- A directory that is no partition. -/
  | foreign (name : String)
  | file (name : String)
deriving DecidableEq, Repr

namespace StoreEntry

/-- Partitions come first, in the order of their days, then other directories, then files. -/
def rank : StoreEntry → Nat × Int × String
  | partition day _ => (0, day.toInt, "")
  | foreign name => (1, 0, name)
  | file name => (2, 0, name)

/-- Whether an entry comes before another. -/
def le (a b : StoreEntry) : Bool :=
  (compareLex (compareOn (·.1)) (compareLex (compareOn (·.2.1)) (compareOn (·.2.2))) a.rank b.rank).isLE

end StoreEntry

/-- A block that an index lists. -/
structure BlockRef where
  interface : String
  partition : Path
  descriptor : Descriptor
deriving DecidableEq, Repr

namespace BlockRef

def path (b : BlockRef) : Path := Archive.blockPath b.partition b.descriptor.time

end BlockRef

namespace Archive

/-- Checks that the archive's directory is there. -/
def checkExists (a : Archive) : Action Unit :=
  if a.root.text.isEmpty then Action.fail (.refused .emptyPath)
  else do
    match ← Action.kind a.root with
    | some .directory => return ()
    | some .file => Action.fail (.absent (.notDirectory a.root.text))
    | none => Action.fail (.absent (.database a.root.text))

def directoryNames (entries : List (String × EntryKind)) : List String :=
  (entries.filter fun e => e.2 == .directory).map (·.1)

def interfaceNames (a : Archive) : Action (List String) := do
  let entries ← Action.ask (.list a.root)
  return (directoryNames entries).mergeSort fun x y => (compare x y).isLE

/-- What an entry of an interface's directory is. -/
def classify (a : Archive) (interface : String) : String × EntryKind → StoreEntry
  | (name, .file) => .file name
  | (name, .directory) =>
    match partitionDay? name with
    | some day => .partition day ((a.interfacePath interface).join name)
    | none => .foreign name

/-- The entries of an interface's directory in their order. -/
def entries (a : Archive) (interface : String) : Action (List StoreEntry) := do
  let found ← Action.ask (.list (a.interfacePath interface))
  return (found.map (a.classify interface)).mergeSort StoreEntry.le

def partition? : StoreEntry → Option (Timestamp × Path)
  | .partition day path => some (day, path)
  | _ => none

/-- The partitions of an interface, the oldest first. -/
def partitions (a : Archive) (interface : String) : Action (List (Timestamp × Path)) := do
  return (← a.entries interface).filterMap partition?

/-- The blocks that the index of a partition lists before its first flaw; none if it cannot be read. -/
def readIndex (partition : Path) : Script (List Descriptor) := do
  match ← Script.request (.read (indexPath partition)) with
  | .ok s => return (Index.readPrefix s).1
  | .error _ => return []

/-- The blocks that the index of a partition lists; a flaw is a failure. -/
def readIndexStrictly (partition : Path) : Action (List Descriptor) := do
  let s ← Action.ask (.read (indexPath partition))
  match Index.read s with
  | .ok ds => return ds
  | .error flaw => Action.fail (.entry flaw)

def checkInterfaces (a : Archive) : List String → Action Unit
  | [] => return ()
  | name :: rest => do
    match ← Action.kind (a.interfacePath name) with
    | some .directory => checkInterfaces a rest
    | _ => Action.fail (.absent (.interface name))

def chosen (a : Archive) : Interfaces → Action (List String)
  | .any => a.interfaceNames
  | .named names => do
    a.checkInterfaces names
    return names

def partitionBlocks (interface : String) (range : TimeRange) (p : Timestamp × Path) : Action (List BlockRef) :=
  if range.overlapsDay p.1 then do
    let ds ← Action.ofScript (readIndex p.2)
    return (ds.filter fun d => range.contains d.time).map fun d => ⟨interface, p.2, d⟩
  else return []

def interfaceBlocks (a : Archive) (range : TimeRange) (interface : String) : Action (List BlockRef) := do
  let ps ← a.partitions interface
  return (← Action.forEach (partitionBlocks interface range) ps).flatten

/-- The blocks of the chosen interfaces whose times lie in a range. -/
def blocksInRange (a : Archive) (choice : Interfaces) (range : TimeRange) : Action (List BlockRef) := do
  let names ← a.chosen choice
  return (← Action.forEach (a.interfaceBlocks range) names).flatten

def readBlock (b : BlockRef) : Action (List Flow) := do
  let s ← Action.ask (.read b.path)
  match Block.decode s with
  | .ok fs => return fs
  | .error flaw => Action.fail (.block flaw)

def removePartition (partition : Path) : Action Unit := Action.ask (.removeTree partition)

def removeInterface (a : Archive) (interface : String) : Action Unit :=
  Action.ask (.removeTree (a.interfacePath interface))

/-! ## Opening -/

/-- Makes the archive's directory unless it is there. -/
def make (a : Archive) : Action Unit := Action.ask (.makeDirectories a.root)

end Archive

end FlowArchive
