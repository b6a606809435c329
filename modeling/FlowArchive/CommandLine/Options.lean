import FlowArchive.Text.Decimal

/-!
# Options

The arguments of one command are options and values. An option has a long name behind two hyphens and may have
a short one behind one hyphen; short ones without a value can be written in one word. A value stands in the
same word, behind an equals sign if one likes, or is the next word. Behind two hyphens alone no option follows.

Words are taken from left to right. A value that is the next word is looked at when the option or value after it
is taken, so a call for help overtakes nothing that was wrong before it.
-/

namespace FlowArchive.CommandLine

/-! ## Values -/

/-- A path, which must not be empty. -/
def readPath? (v : String) : Option String := if v.isEmpty then none else some v

def readWord? (v : String) : Option Nat := Decimal.readBounded? 18446744073709551615 v.toList

/-- A percentage: an integer, which may have a sign, that fits eight bits. -/
def readPercent? (v : String) : Option UInt8 :=
  (Decimal.readInt? 0 255 v.toList).map fun i => UInt8.ofNat i.toNat

/-- What may stand as the value of an option. -/
inductive ValueKind where
  | text
  | path
  | count
  | percent
  | choice (names : List String)
deriving DecidableEq, Repr

/-- Whether a text is such a value. -/
def ValueKind.admits (v : String) : ValueKind → Bool
  | text => true
  | path => (readPath? v).isSome
  | count => (readWord? v).isSome
  | percent => (readPercent? v).isSome
  | choice names => names.contains v

/-! ## What a command takes -/

/-- An option of a command. -/
structure OptionSpec where
  short : Option Char
  long : String
  /-- The value that follows, if one does. -/
  value : Option ValueKind
  /-- Whether the next word is the value even if it starts with a hyphen. -/
  admitsHyphen : Bool
deriving DecidableEq, Repr

/-- What a command takes. -/
structure Level where
  options : List OptionSpec
  /-- Whether the command takes a value of its own, and if so whether one may start with a hyphen. -/
  value : Option Bool
  /-- Names of the commands below this one. -/
  commands : List String
deriving DecidableEq, Repr

/-- Why arguments are refused. -/
inductive Misuse where
  | unknownOption (word : String)
  | missingValue (option : String)
  | unexpectedValue (word : String)
  | repeated (option : String)
  | conflicting (option other : String)
  | invalidValue (option value : String)
  | missingArgument (name : String)
  | unknownCommand (word : String)
  | missingCommand
  /-- The user wants to know what there is, rather than to run it. -/
  | helpWanted
deriving DecidableEq, Repr

def Misuse.message : Misuse → String
  | unknownOption word => "unexpected argument '" ++ word ++ "'"
  | missingValue option => "a value is required for '--" ++ option ++ "'"
  | unexpectedValue word => "unexpected value '" ++ word ++ "'"
  | repeated option => "the argument '--" ++ option ++ "' cannot be used multiple times"
  | conflicting option other => "the argument '--" ++ option ++ "' cannot be used with '--" ++ other ++ "'"
  | invalidValue option value => "invalid value '" ++ value ++ "' for '" ++ option ++ "'"
  | missingArgument name => "the argument '" ++ name ++ "' is required"
  | unknownCommand word => "unrecognized subcommand '" ++ word ++ "'"
  | missingCommand => "a subcommand is required"
  | helpWanted => "usage: flowquery [OPTIONS] query | list | admin clean DATE | admin wipe"

/-! ## What was found -/

/-- The options and the value of one command. -/
structure Matches where
  /-- The options with their values, in order; an option that takes none has an empty one. -/
  options : List (String × String)
  value : Option String
deriving DecidableEq, Repr

namespace Matches

def empty : Matches := ⟨[], none⟩

/-- The name of the option that asks for help. -/
def help : String := "help"

/-- The value of an option. -/
def option? (m : Matches) (name : String) : Option String := (m.options.find? fun o => o.1 == name).map (·.2)

def has (m : Matches) (name : String) : Bool := (m.option? name).isSome

/-- Adds an option, which may be given once and needs a value of its kind. After a call for help nothing more is
read. -/
def addOption (m : Matches) (o : OptionSpec) (value : String) : Except Misuse Matches :=
  if o.long == help then .error .helpWanted
  else if m.has o.long then .error (.repeated o.long)
  else if o.value.all (ValueKind.admits value) then .ok { m with options := m.options ++ [(o.long, value)] }
  else .error (.invalidValue o.long value)

end Matches

/-- How far the words of a command are read. -/
structure Progress where
  found : Matches
  /-- An option whose value is the next word, and that word once it is read. -/
  waiting : Option (OptionSpec × Option String)
deriving DecidableEq, Repr

namespace Progress

def start : Progress := ⟨.empty, none⟩

/-- Takes the option that waits. -/
def settle (p : Progress) : Except Misuse Matches :=
  match p.waiting with
  | none => .ok p.found
  | some (o, none) => .error (.missingValue o.long)
  | some (o, some v) => p.found.addOption o v

/-- Takes an option, after the one that waits. -/
def addOption (p : Progress) (o : OptionSpec) (value : String) : Except Misuse Progress := do
  let m ← p.settle
  return ⟨← m.addOption o value, none⟩

/-- Waits for the value of an option. -/
def awaitValue (p : Progress) (o : OptionSpec) : Except Misuse Progress := do
  return ⟨← p.settle, some (o, none)⟩

end Progress

namespace Level

def ofLong? (l : Level) (name : String) : Option OptionSpec := l.options.find? fun o => o.long == name

def ofShort? (l : Level) (c : Char) : Option OptionSpec := l.options.find? fun o => o.short == some c

/-- Adds the command's own value, of which there is at most one. -/
def addValue (l : Level) (p : Progress) (word : String) : Except Misuse Progress := do
  let m ← p.settle
  if l.value.isSome && m.value.isNone then return ⟨{ m with value := some word }, none⟩
  else throw (.unexpectedValue word)

/-- The text before the first equals sign, and the text behind it if there is one. -/
def splitAtEquals (s : List Char) : List Char × Option (List Char) :=
  match s.dropWhile (· != '=') with
  | [] => (s, none)
  | _ :: rest => (s.takeWhile (· != '='), some rest)

/-! ## Words with a hyphen in front -/

/-- Whether a word starts with a hyphen and goes on. -/
def looksLikeOption (word : String) : Bool := word.startsWith "-" && word != "-"

/-- Whether a word with a hyphen in front has a meaning at this command: it is a known long option, or every
character is a known short one. Two hyphens alone always have. -/
def knows (l : Level) (word : String) : Bool :=
  match word.toList with
  | ['-', '-'] => true
  | '-' :: '-' :: body => (l.ofLong? (String.ofList (splitAtEquals body).1)).isSome
  | _ :: body => body.all fun c => (l.ofShort? c).isSome
  | [] => false

/-- Whether a word is read as an option. What the command does not know can be a value as long as the command's
own value is open and may start with a hyphen. -/
def readsAsOption (l : Level) (m : Matches) (word : String) : Bool :=
  looksLikeOption word && (l.knows word || !(l.value == some true && m.value.isNone))

/-- Reads a word behind two hyphens. -/
def longWord (l : Level) (p : Progress) (word : String) (body : List Char) : Except Misuse Progress :=
  let (name, attached) := splitAtEquals body
  match l.ofLong? (String.ofList name) with
  | none => .error (.unknownOption word)
  | some o =>
    match o.value, attached with
    | some _, some v => p.addOption o (String.ofList v)
    | some _, none => p.awaitValue o
    | none, some _ => .error (.unexpectedValue word)
    | none, none => p.addOption o ""

def shortWord (l : Level) (word : String) : Progress → List Char → Except Misuse Progress
  | p, [] => .ok p
  | p, c :: rest =>
    match l.ofShort? c with
    | none => .error (.unknownOption word)
    | some o =>
      if o.value.isSome then
        match rest with
        | [] => p.awaitValue o
        | '=' :: v => p.addOption o (String.ofList v)
        | v => p.addOption o (String.ofList v)
      else
        match p.addOption o "" with
        | .error e => .error e
        | .ok p => shortWord l word p rest

def optionWord (l : Level) (p : Progress) (word : String) : Except Misuse Progress :=
  match word.toList with
  | '-' :: '-' :: body => l.longWord p word body
  | _ :: body => l.shortWord word p body
  | [] => .ok p

/-! ## All words -/

/-- Takes the words behind two hyphens, all of which are values. -/
def plainWords (l : Level) : Progress → List String → Except Misuse Progress
  | p, [] => .ok p
  | p, word :: rest =>
    match l.addValue p word with
    | .error e => .error e
    | .ok p => plainWords l p rest

/-- Reads the words of a command, up to the name of a command below it. That name and what follows is left. -/
def scan (l : Level) : Progress → List String → Except Misuse (Progress × Option (String × List String))
  | p, [] => .ok (p, none)
  | p, word :: rest =>
    match p.waiting with
    | some (o, none) =>
      if l.readsAsOption p.found word && !o.admitsHyphen then .error (.missingValue o.long)
      else scan l { p with waiting := some (o, some word) } rest
    | _ =>
      if word = "--" then (l.plainWords p rest).map fun p => (p, none)
      else if word ∈ l.commands then .ok (p, some (word, rest))
      else
        let next :=
          if l.readsAsOption p.found word then l.optionWord p word
          else if l.commands.isEmpty then l.addValue p word
          else .error (.unknownCommand word)
        match next with
        | .error e => .error e
        | .ok p => scan l p rest

/-- The arguments of a command that has none below it. -/
def read (l : Level) (words : List String) : Except Misuse Matches := do
  let (p, _) ← l.scan .start words
  p.settle

end Level

end FlowArchive.CommandLine
