import FlowArchive.Block.Basic
import FlowArchive.Block.Index
import FlowArchive.Condition.Flaw
import FlowArchive.Disk.Fault
import FlowArchive.Flow.Grouping
import FlowArchive.Time.Duration
import FlowArchive.Time.Flaw

/-!
# Failures

Everything an operation of the archive can fail with. A failure is a cause; its kind and its message follow
from it.
-/

namespace FlowArchive

/-- An argument that is refused before anything is done. -/
inductive Refusal where
  | grouping (f : Grouping.Flaw)
  | time (f : TimeArgument.Flaw)
  | noInterface
  | emptyRange (r : TimeRange)
  | memoryShare (percent : UInt8)
  | zeroLimit
  | zeroTimeout
  | emptyPath
  | interfaceName (name : String)
  | blockExists (time : Timestamp) (interface : String)
  | cutoffNotPast (cutoff now : Timestamp)
  /-- A refusal worded by whoever made it. -/
  | other (text : String)
deriving DecidableEq

def Refusal.message : Refusal → String
  | grouping f => f.message
  | time f => f.message
  | noInterface => "No interface specified"
  | emptyRange r =>
    "Invalid time range: first " ++ Decimal.textInt r.first.toInt ++ " is after last " ++
      Decimal.textInt r.last.toInt
  | memoryShare percent => "Memory budget must be within 1-100%, got " ++ Decimal.text percent.toNat
  | zeroLimit => "Limit must be positive"
  | zeroTimeout => "Resolve timeout must be positive"
  | emptyPath => "Database path must not be empty"
  | interfaceName name => "Invalid interface name " ++ Text.quoted name
  | blockExists t name =>
    "Block " ++ Decimal.textInt t.toInt ++ " already exists on " ++ name
  | cutoffNotPast cutoff now =>
    "Only database entries from the past can be cleaned (cutoff " ++ Decimal.textInt cutoff.toInt ++
      " >= now " ++ Decimal.textInt now.toInt ++ ")"
  | other text => text

/-- Something that is not there. -/
inductive Absence where
  | notDirectory (path : String)
  | database (path : String)
  | summary (path : String)
  | interface (name : String)
  /-- A clean found no summary to update. -/
  | summaryToUpdate
  | other (text : String)
deriving DecidableEq

def Absence.message : Absence → String
  | notDirectory path => "Database path " ++ Text.quoted path ++ " is not a directory"
  | database path => "Database not found at " ++ Text.quoted path
  | summary path => "Summary " ++ Text.quoted path ++ " does not exist"
  | interface name => "Interface " ++ name ++ " not in database"
  | summaryToUpdate => "Cannot update summary: summary missing"
  | other text => text

/-- Why an operation failed. -/
inductive Failure where
  | fault (f : Fault)
  | refused (r : Refusal)
  | condition (f : Condition.Flaw)
  | absent (a : Absence)
  | noFlows
  /-- The scan of a block failed with a message. -/
  | scan (message : String)
  | lockTimeout (limit : Duration)
  | block (f : Block.Flaw)
  | entry (f : Index.Flaw)
  /-- The summary is not a document of its form. -/
  | unreadableSummary
  | corrupt (text : String)
deriving DecidableEq

namespace Failure

/-- The kinds that failures are told apart by. -/
inductive Kind where
  | io
  | validation
  | condition
  | notFound
  | noResults
  | internal
  | lockTimeout
  | corruption
  | checksum
  | format
  | compression
  | serialization
deriving DecidableEq, Repr

namespace Kind

def all : List Kind :=
  [io, validation, condition, notFound, noResults, internal, lockTimeout, corruption, checksum, format,
    compression, serialization]

/-- What opens the message of a failure of the kind. -/
def heading : Kind → String
  | io => "IO error: "
  | validation => "Validation error: "
  | condition => "Condition error: "
  | notFound => "Not found: "
  | noResults => "Query returned no results"
  | internal => "Internal processing error: "
  | lockTimeout => "Timed out after "
  | corruption => "Data corruption: "
  | checksum => "Checksum mismatch: "
  | format => "Invalid format: "
  | compression => "Compression error: "
  | serialization => "Serialization error: "

/-- Whether a failure of the kind stems from what the user asked for. -/
def isValidation : Kind → Bool
  | validation | condition => true
  | _ => false

/-- Whether a failure of the kind shows damage on disk. -/
def isCorruption : Kind → Bool
  | corruption | checksum => true
  | _ => false

end Kind

/-- The two checksums of a mismatch. -/
def mismatch (stated found : UInt32) : String :=
  "expected " ++ Decimal.text stated.toNat ++ ", got " ++ Decimal.text found.toNat

/-- A duration in the message of a lock that was not to be had. -/
def waited (limit : Duration) : String := limit.text ++ " waiting for the summary lock"

/-- The kind of a refused block and what its message says behind the heading. -/
def ofBlock : Block.Flaw → Kind × String
  | .shortHeader => (.format, "Block header too short")
  | .unknownVersion v => (.format, "Unsupported block version: " ++ Decimal.text v.toNat)
  | .wrongSize found stated =>
    (.corruption, "Block payload is " ++ Decimal.text found ++ " bytes, header says " ++
      Decimal.text stated.toNat)
  | .wrongChecksum stated found => (.checksum, mismatch stated found)
  | .notCompressed => (.compression, "payload does not expand")
  | .notFlows => (.serialization, "payload does not hold flows")
  | .wrongCount found stated =>
    (.corruption, "Block holds " ++ Decimal.text found ++ " records, header says " ++
      Decimal.text stated.toNat)

/-- The kind of a refused entry of an index and what its message says behind the heading. -/
def ofEntry : Index.Flaw → Kind × String
  | .noLength => (.format, "Entry too short")
  | .shortLength n => (.corruption, "Invalid entry length " ++ Decimal.text n)
  | .cutShort => (.format, "Incomplete entry")
  | .wrongChecksum stated found => (.checksum, mismatch stated found)
  | .notDescriptor => (.serialization, "entry does not hold a descriptor")

/-- The kind of a failure and what its message says behind the heading. -/
def parts : Failure → Kind × String
  | fault f => (.io, f.message)
  | refused r => (.validation, r.message)
  | condition f => (.condition, f.message)
  | absent a => (.notFound, a.message)
  | noFlows => (.noResults, "")
  | scan message => (.internal, message)
  | lockTimeout limit => (.lockTimeout, waited limit)
  | block f => ofBlock f
  | entry f => ofEntry f
  | unreadableSummary => (.serialization, "not a summary")
  | corrupt text => (.corruption, text)

def kind (f : Failure) : Kind := f.parts.1

def message (f : Failure) : String := f.parts.1.heading ++ f.parts.2

end Failure

end FlowArchive
