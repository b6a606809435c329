import FlowArchive.CommandLine.Options
import FlowArchive.Query.Basic
import FlowArchive.Report.Cells
import FlowArchive.Time.Argument

/-!
# Commands

The command line queries an archive, lists its interfaces, cleans it or wipes it. The archive and the
configuration file can be named at every level; the level closest to the end counts.
-/

namespace FlowArchive.CommandLine

open Report (Format)

/-- The arguments of a query. -/
structure QueryArguments where
  columns : String
  interfaces : String
  condition : String
  first : Option String
  last : Option String
  sortKey : SortKey
  ascending : Bool
  received : Bool
  sent : Bool
  limit : Option Nat
  memoryShare : UInt8
  naming : Option Naming
  format : Format
deriving DecidableEq

inductive Command where
  | query (arguments : QueryArguments)
  | list (format : Format)
  | clean (date : String)
  | wipe
deriving DecidableEq

/-- A command, and where the archive and the configuration are if that is said. -/
structure Invocation where
  root : Option String
  config : Option String
  command : Command
deriving DecidableEq

/-! ## The options of each level -/

def globalOptions : List OptionSpec :=
  [⟨some 'd', "db-path", some .path, false⟩, ⟨none, "config", some .path, false⟩,
    ⟨some 'h', Matches.help, none, false⟩]

def formatOption : OptionSpec := ⟨some 'e', "format", some (.choice ["txt", "json", "csv"]), false⟩

def sortOption : OptionSpec := ⟨some 's', "sort", some (.choice ["bytes", "packets", "time"]), false⟩

def topLevel : Level := ⟨globalOptions, none, ["query", "list", "admin", Matches.help]⟩

def adminLevel : Level := ⟨globalOptions, none, ["clean", "wipe", Matches.help]⟩

def listLevel : Level := ⟨formatOption :: globalOptions, none, []⟩

def cleanLevel : Level := ⟨globalOptions, some true, []⟩

def wipeLevel : Level := ⟨globalOptions, none, []⟩

def queryLevel : Level where
  options :=
    [⟨some 'i', "ifaces", some .text, false⟩, ⟨some 'c', "condition", some .text, false⟩,
      ⟨some 'f', "first", some .text, true⟩, ⟨some 'l', "last", some .text, true⟩, sortOption,
      ⟨some 'a', "ascending", none, false⟩, ⟨none, "in", none, false⟩, ⟨none, "out", none, false⟩,
      ⟨none, "sum", none, false⟩, ⟨some 'n', "limit", some .count, false⟩,
      ⟨none, "max-mem-pct", some .percent, false⟩, ⟨none, "resolve", none, false⟩,
      ⟨none, "resolve-rows", some .count, false⟩, ⟨none, "resolve-timeout", some .count, false⟩,
      formatOption] ++ globalOptions
  value := some false
  commands := []

/-- The ways to the commands that help can be asked about. -/
def helpTopics : List (List String) :=
  [[], ["query"], ["list"], ["admin"], ["admin", "clean"], ["admin", "wipe"], ["admin", Matches.help],
    [Matches.help]]

/-- What the command for help comes to: its words are the way to a command. -/
def helpOn (path : List String) : Misuse :=
  if path ∈ helpTopics then .helpWanted else .unknownCommand (String.intercalate " " path)

/-! ## Values -/

/-- The value of an option by a reader, or a default where the option is not given. -/
def valueOr {α : Type} (m : Matches) (name : String) (default : α) (read : String → Option α) :
    Except Misuse α :=
  match m.option? name with
  | none => .ok default
  | some v =>
    match read v with
    | some a => .ok a
    | none => .error (.invalidValue name v)

def value? {α : Type} (m : Matches) (name : String) (read : String → Option α) : Except Misuse (Option α) :=
  valueOr m name none fun v => (read v).map some

def readFormat? : String → Option Format
  | "txt" => some .text
  | "json" => some .json
  | "csv" => some .csv
  | _ => none

def readSortKey? : String → Option SortKey
  | "bytes" => some .bytes
  | "packets" => some .packets
  | "time" => some .time
  | _ => none

/-- The format that is asked for. -/
def format (m : Matches) : Except Misuse Format := valueOr m "format" .text readFormat?

/-- Refuses options of a query that exclude each other. -/
def checkConflicts (m : Matches) : Except Misuse Unit :=
  if m.has "sum" && m.has "in" then .error (.conflicting "sum" "in")
  else if m.has "sum" && m.has "out" then .error (.conflicting "sum" "out")
  else .ok ()

/-- How rows are named, where that is asked for. -/
def naming (m : Matches) : Except Misuse (Option Naming) := do
  let rows ← valueOr m "resolve-rows" Naming.default.rows readWord?
  let seconds ← valueOr m "resolve-timeout" 1 readWord?
  return if m.has "resolve" then some ⟨rows, .ofSeconds seconds⟩ else none

def queryArguments (m : Matches) : Except Misuse QueryArguments := do
  checkConflicts m
  return {
    columns := m.value.getD "talk_src"
    interfaces := (m.option? "ifaces").getD "ANY"
    condition := (m.option? "condition").getD ""
    first := m.option? "first"
    last := m.option? "last"
    sortKey := ← valueOr m "sort" .bytes readSortKey?
    ascending := m.has "ascending"
    received := m.has "in"
    sent := m.has "out"
    limit := ← value? m "limit" readWord?
    memoryShare := ← valueOr m "max-mem-pct" Query.defaultMemoryShare readPercent?
    naming := ← naming m
    format := ← format m }

/-! ## Reading a command line -/

/-- Where the archive and the configuration are, as far as one level says. -/
def places (m : Matches) : Except Misuse (Option String × Option String) := do
  let root ← value? m "db-path" readPath?
  let config ← value? m "config" readPath?
  return (root, config)

/-- The invocation of a command with what its own level says of places. -/
def invoke (m : Matches) (command : Command) : Except Misuse Invocation := do
  let here ← places m
  return ⟨here.1, here.2, command⟩

/-- An invocation with what the level above it says of places. -/
def Invocation.under (i : Invocation) (above : Option String × Option String) : Invocation :=
  { i with root := i.root.or above.1, config := i.config.or above.2 }

/-- Reads the arguments behind the name of the maintenance command. -/
def readAdmin (words : List String) : Except Misuse Invocation := do
  let (p, command) ← adminLevel.scan .start words
  let below ← match command with
    | some ("clean", rest) => do
      let m ← cleanLevel.read rest
      match m.value with
      | some date => invoke m (.clean date)
      | none => .error (.missingArgument "DATE")
    | some ("wipe", rest) => do invoke (← wipeLevel.read rest) .wipe
    | some (_, rest) => .error (helpOn ("admin" :: rest))
    | none => .error .missingCommand
  return below.under (← places (← p.settle))

/-- Reads the arguments of the program. What a level says of places is looked at after the levels below it. -/
def read (words : List String) : Except Misuse Invocation := do
  let (p, command) ← topLevel.scan .start words
  let below ← match command with
    | some ("query", rest) => do
      let m ← queryLevel.read rest
      invoke m (.query (← queryArguments m))
    | some ("list", rest) => do
      let m ← listLevel.read rest
      invoke m (.list (← format m))
    | some ("admin", rest) => readAdmin rest
    | some (_, rest) => .error (helpOn rest)
    | none => .error .missingCommand
  return below.under (← places (← p.settle))

end FlowArchive.CommandLine
