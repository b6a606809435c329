import FlowArchive.Disk.Script

/-!
# Layout of an archive

An archive is a directory. Below it there is a directory for each interface, and below that one for each day
that has blocks, named by the timestamp of its start. A day's directory, a partition, holds a file for each
block and the index of the blocks. The archive's own directory also holds the summary and its lock.
-/

namespace FlowArchive

/-- An archive: its directory, and how long to wait for the lock of its summary. -/
structure Archive where
  root : Path
  lockLimit : Duration
deriving DecidableEq, Repr

namespace Archive

/-- The version of the archive's programs. -/
def version : String := "0.1.0"

/-- The directory that is used where none is given. -/
def defaultRoot : String := "data"

def defaultLockLimit : Duration := .ofSeconds 10

def indexName : String := "meta.bin"
def summaryName : String := "summary.json"
def lockName : String := "summary.lock"
def blockExtension : String := "blk"

def partitionName (day : Timestamp) : String := Decimal.textInt day.toInt

/-- The day of a partition by its name. A name that is not the shortest text of its number names no
partition. -/
def partitionDay? (name : String) : Option Timestamp :=
  (Decimal.readInt64? name.toList).filter fun day => partitionName day == name

/-- The name of the file of a block, and of the file that it is written to first. -/
def blockName (time : Timestamp) : String := Decimal.textInt time.toInt ++ "." ++ blockExtension
def draftName (time : Timestamp) : String := Decimal.textInt time.toInt ++ ".tmp"

def interfacePath (a : Archive) (interface : String) : Path := a.root.join interface

/-- The partition that holds the blocks of a time. -/
def partitionPath (a : Archive) (interface : String) (time : Timestamp) : Path :=
  (a.interfacePath interface).join (partitionName time.startOfDay)

def blockPath (partition : Path) (time : Timestamp) : Path := partition.join (blockName time)

def indexPath (partition : Path) : Path := partition.join indexName

def summaryPath (a : Archive) : Path := a.root.join summaryName

/-- The file that a new summary is written to before it replaces the old one. -/
def summaryDraftPath (a : Archive) : Path := a.root.join (summaryName ++ ".tmp")

def lockPath (a : Archive) : Path := a.root.join lockName

/-- Whether a name may be that of a new interface: the name of one directory. -/
def isInterfaceName (name : String) : Bool :=
  !name.isEmpty && name != "." && name != ".." && !(name.toList.any fun c => c == '/' || c == '\\')

end Archive

end FlowArchive
