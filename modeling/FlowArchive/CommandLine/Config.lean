import FlowArchive.Archive.Layout
import FlowArchive.Json.Reader

/-!
# Configuration

The configuration file is a JSON document of three fields, each of which has a default.
-/

namespace FlowArchive

/-- The settings of the command line. -/
structure Config where
  root : String
  lockSeconds : UInt64
  logLevel : String
deriving DecidableEq, Repr

namespace Config

def default : Config := ⟨Archive.defaultRoot, 10, "info"⟩

/-- Why a configuration is refused. -/
inductive Flaw where
  /-- The file cannot be read. -/
  | unreadable (path : String) (f : Fault)
  /-- The file is no document of the form. -/
  | malformed (path : String)
  | emptyRoot
  | zeroTimeout
  | blankLevel
deriving DecidableEq, Repr

namespace Flaw

def message : Flaw → String
  | unreadable path _ => "Failed to read config file " ++ path
  | malformed path => "Failed to parse config file " ++ path
  | emptyRoot => "db_path must not be empty"
  | zeroTimeout => "lock_timeout_secs must be positive"
  | blankLevel => "logging.level must not be empty"

/-- What lies behind a flaw. -/
def causes : Flaw → List String
  | unreadable _ f => [f.message]
  | malformed _ => ["not a document of the expected form"]
  | _ => []

end Flaw

/-- The fields of a configuration read so far. -/
structure Fields where
  root : Option String
  lockSeconds : Option UInt64
  logLevel : Option (Option String)

open JsonReader in
/-- How the one field of the log settings is read. -/
def logFields : List (RecordField (Option String)) :=
  [{ name := "level", isSet := Option.isSome,
     read := fun _ s => (readString s).map fun p => (some p.1, p.2) }]

open JsonReader in
/-- How the fields are read, in the order of the document. -/
def fields : List (RecordField Fields) :=
  [{ name := "db_path", isSet := fun f => f.root.isSome,
     read := fun f s => (readString s).map fun p => ({ f with root := some p.1 }, p.2) },
   { name := "lock_timeout_secs", isSet := fun f => f.lockSeconds.isSome,
     read := fun f s => (readUInt64 s).map fun p => ({ f with lockSeconds := some p.1 }, p.2) },
   { name := "logging", isSet := fun f => f.logLevel.isSome,
     read := fun f s => (record logFields none s).map fun p => ({ f with logLevel := some p.1 }, p.2) }]

def reader : JsonReader Config := fun s =>
  (JsonReader.record fields ⟨none, none, none⟩ s).map fun p =>
    (⟨p.1.root.getD default.root, p.1.lockSeconds.getD default.lockSeconds,
      (p.1.logLevel.getD none).getD default.logLevel⟩, p.2)

def read? (s : Bytes) : Option Config := JsonReader.whole reader s

/-- Refuses settings that cannot work; the first flaw counts. -/
def validate (c : Config) : Except Flaw Config :=
  if c.root.isEmpty then .error .emptyRoot
  else if c.lockSeconds = 0 then .error .zeroTimeout
  else if (Text.trim c.logLevel).isEmpty then .error .blankLevel
  else .ok c

/-- Reads and checks a configuration file. -/
def load (path : String) : Script (Except Flaw Config) := do
  match ← Script.request (.read (.ofText path)) with
  | .error f => return .error (.unreadable path f)
  | .ok s =>
    match read? s with
    | none => return .error (.malformed path)
    | some c => return c.validate

def archive (c : Config) : Archive := ⟨.ofText c.root, .ofSeconds c.lockSeconds.toNat⟩

end Config

end FlowArchive
