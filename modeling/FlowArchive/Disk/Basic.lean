import FlowArchive.Bytes.Word
import FlowArchive.Disk.Fault
import FlowArchive.Disk.Path
import FlowArchive.Table

/-!
# File trees

A disk is a table of what is at each location, and the location that relative paths start from. Programs see
it through requests, each of which is answered or refused as a whole.
-/

namespace FlowArchive

/-- What is at a location. -/
inductive Entry where
  | directory
  | file (content : Bytes)
deriving DecidableEq, Repr

/-- What sort of entry is at a location. -/
inductive EntryKind where
  | directory
  | file
deriving DecidableEq, Repr

def Entry.kind : Entry → EntryKind
  | directory => .directory
  | file _ => .file

/-- A tree of directories and files. The root of the tree is a directory that the table does not list. -/
structure Disk where
  home : Location
  entries : Table Location Entry
deriving DecidableEq

/-- What a program asks of the system around it, which is mostly the file system. -/
inductive Request where
  /-- What sort of entry a path leads to, if any. -/
  | kind (p : Path)
  /-- The entries of a directory. -/
  | list (p : Path)
  | read (p : Path)
  /-- Makes a directory, and where it is missing first the one that leads to it. -/
  | makeDirectories (p : Path)
  /-- Replaces the content of a file, which is made if it is missing. -/
  | write (p : Path) (content : Bytes)
  /-- Adds to the content of a file, which is made if it is missing. -/
  | append (p : Path) (more : Bytes)
  /-- Makes an empty file where nothing is. -/
  | create (p : Path)
  /-- Waits until the content of a file is stored. -/
  | sync (p : Path)
  /-- Moves a file to another location, and replaces a file that is there. -/
  | rename (source target : Path)
  | remove (p : Path)
  /-- Removes all below a directory and then the directory. -/
  | removeTree (p : Path)
  /-- Lets some time pass. -/
  | pause
  /-- The nanoseconds since some moment. -/
  | clock
deriving DecidableEq

def Request.Answer : Request → Type
  | kind _ => Option EntryKind
  | list _ => List (String × EntryKind)
  | read _ => Bytes
  | clock => Nat
  | _ => Unit

namespace Disk

/-- The disk that holds one directory and starts there. -/
def blank (home : Location) : Disk :=
  ⟨home, Table.ofList ((List.range home.length).map fun n => (home.take (n + 1), .directory))⟩

def at? (d : Disk) (l : Location) : Option Entry := if l = [] then some .directory else d.entries.get? l

def put (d : Disk) (l : Location) (e : Entry) : Disk := { d with entries := d.entries.insert l e }

/-- Follows names from a location. All but the last have to lead to directories that are there; two points lead
back, and no name or one point stays. -/
def walk (d : Disk) : Location → List String → Except Fault Location
  | here, [] => .ok here
  | here, name :: rest =>
    match d.at? here with
    | none => .error .missing
    | some (.file _) => .error .notDirectory
    | some .directory =>
      if name = "" ∨ name = "." then walk d here rest
      else if name = ".." then walk d here.dropLast rest
      else if Path.longestName < name.utf8ByteSize then .error .nameTooLong
      else walk d (here ++ [name]) rest

/-- Where a path starts and the names it goes through. -/
def start (d : Disk) (p : Path) : Location × List String :=
  let (fromRoot, names) := Path.names false [] p.parts
  (if fromRoot then [] else d.home, names)

/-- Why the text of a path is refused whatever the tree. -/
def textFault? (p : Path) : Option Fault :=
  if p.parts.any fun part => part.toList.contains '\x00' then some .invalidName
  else if p.text.isEmpty then some .missing
  else if Path.longestText < p.text.utf8ByteSize then some .nameTooLong
  else none

/-- Where a path leads. -/
def locate (d : Disk) (p : Path) : Except Fault Location :=
  match textFault? p with
  | some f => .error f
  | none => d.walk (d.start p).1 (d.start p).2

/-- The location of a path and what is there. -/
def find (d : Disk) (p : Path) : Except Fault (Location × Option Entry) :=
  (d.locate p).map fun l => (l, d.at? l)

/-- Whether there is a directory that holds a location. -/
def parentFault? (d : Disk) (l : Location) : Option Fault :=
  match d.at? l.dropLast with
  | some .directory => none
  | some (.file _) => some .notDirectory
  | none => some .missing

def children (d : Disk) (l : Location) : List (String × EntryKind) :=
  d.entries.entries.filterMap fun e =>
    if e.1.dropLast = l then e.1.getLast?.map fun name => (name, e.2.kind) else none

/-- The directory that names lead to. -/
def enter (d : Disk) (start : Location) (names : List String) : Except Fault Location :=
  match d.walk start names with
  | .error f => .error f
  | .ok l =>
    match d.at? l with
    | some .directory => .ok l
    | some (.file _) => .error .notDirectory
    | none => .error .missing

/-- Where the last of some names stands in the directory that those before it lead to. One and two points are no
entries of a directory. -/
def enterAbove (d : Disk) (start : Location) (names : List String) : Except Fault (Location × Option String) :=
  match Path.cutLast names with
  | none => .ok (start, none)
  | some (front, last) =>
    (d.enter start front).map fun l => (l, if last = "." ∨ last = ".." then none else some last)

def makeDirectory (d : Disk) (start : Location) (names : List String) : Except Fault Disk :=
  match d.enterAbove start names with
  | .error f => .error f
  | .ok (_, none) => .error .present
  | .ok (l, some name) =>
    if Path.longestName < name.utf8ByteSize then .error .nameTooLong
    else if (d.at? (l ++ [name])).isSome then .error .present
    else .ok (d.put (l ++ [name]) .directory)

/-- Makes one directory unless it is there. -/
def ensureDirectory (d : Disk) (start : Location) (names : List String) : Except Fault Unit × Disk :=
  match d.makeDirectory start names with
  | .ok d => (.ok (), d)
  | .error f => (if (d.enter start names).isOk then .ok () else .error f, d)

/-- Makes the first of some directories. If it cannot be made because something that leads to it is missing, the
rest of the list is made first. -/
def makeStages (d : Disk) (start : Location) : List (List String) → Except Fault Unit × Disk
  | [] => (.ok (), d)
  | names :: above =>
    match d.makeDirectory start names with
    | .error .missing =>
      match makeStages d start above with
      | (.ok (), d) => d.ensureDirectory start names
      | (.error f, d) => (.error f, d)
    | _ => d.ensureDirectory start names

/-- Everything outside the tree below a location. -/
def without (d : Disk) (l : Location) : Disk := { d with entries := d.entries.filter fun k _ => !l.isPrefixOf k }

/-- Everything but what is below a directory. -/
def emptied (d : Disk) (l : Location) : Disk :=
  { d with entries := d.entries.filter fun k _ => k == l || !l.isPrefixOf k }

/-- Removes an empty directory. It counts as removed if names no longer lead there. The name of a directory is
needed, not one or two points. -/
def removeDirectory (d : Disk) (start : Location) (names : List String) : Except Fault Unit × Disk :=
  match d.enterAbove start names with
  | .error .missing => (.ok (), d)
  | .error f => (.error f, d)
  | .ok (_, none) => (.error (.other "Invalid argument"), d)
  | .ok (l, some name) => (.ok (), d.without (l ++ [name]))

/-! ## Answers to requests -/

def list (d : Disk) (p : Path) : Except Fault (List (String × EntryKind)) :=
  match d.find p with
  | .error f => .error f
  | .ok (l, some .directory) => .ok (d.children l)
  | .ok (_, some (.file _)) => .error .notDirectory
  | .ok (_, none) => .error .missing

def read (d : Disk) (p : Path) : Except Fault Bytes :=
  match d.find p with
  | .error f => .error f
  | .ok (_, some (.file s)) => .ok s
  | .ok (_, some .directory) => .error .isDirectory
  | .ok (_, none) => .error .missing

/-- What sort of entry a path leads to; a path that leads nowhere leads to none. -/
def kind (d : Disk) (p : Path) : Option EntryKind :=
  match d.find p with
  | .error _ => none
  | .ok (_, e) => e.map Entry.kind

def makeDirectories (d : Disk) (p : Path) : Except Fault Unit × Disk :=
  match textFault? p with
  | some .missing => (.ok (), d)
  | some f => (.error f, d)
  | none =>
    let (fromRoot, names) := Path.names false [] p.parts
    d.makeStages (d.start p).1 (Path.stages fromRoot names)

/-- Changes the content of a file; what is missing counts as empty. -/
def change (d : Disk) (p : Path) (f : Bytes → Bytes) : Except Fault Unit × Disk :=
  match d.find p with
  | .error e => (.error e, d)
  | .ok (_, some .directory) => (.error .isDirectory, d)
  | .ok (l, some (.file s)) => (.ok (), d.put l (.file (f s)))
  | .ok (l, none) =>
    match d.parentFault? l with
    | some e => (.error e, d)
    | none => (.ok (), d.put l (.file (f [])))

def create (d : Disk) (p : Path) : Except Fault Unit × Disk :=
  match d.find p with
  | .error e => (.error e, d)
  | .ok (_, some _) => (.error .present, d)
  | .ok (l, none) =>
    match d.parentFault? l with
    | some e => (.error e, d)
    | none => (.ok (), d.put l (.file []))

def sync (d : Disk) (p : Path) : Except Fault Unit :=
  match d.find p with
  | .error f => .error f
  | .ok (_, some _) => .ok ()
  | .ok (_, none) => .error .missing

def rename (d : Disk) (source target : Path) : Except Fault Unit × Disk :=
  match d.find source, d.find target with
  | .error e, _ => (.error e, d)
  | _, .error e => (.error e, d)
  | .ok (_, none), _ => (.error .missing, d)
  | .ok (_, some .directory), _ => (.error .isDirectory, d)
  | .ok (_, some (.file _)), .ok (_, some .directory) => (.error .isDirectory, d)
  | .ok (l, some (.file s)), .ok (m, _) =>
    match d.parentFault? m with
    | some e => (.error e, d)
    | none => (.ok (), { d with entries := (d.entries.erase l).insert m (.file s) })

def remove (d : Disk) (p : Path) : Except Fault Unit × Disk :=
  match d.find p with
  | .error e => (.error e, d)
  | .ok (_, none) => (.error .missing, d)
  | .ok (_, some .directory) => (.error .isDirectory, d)
  | .ok (l, some (.file _)) => (.ok (), { d with entries := d.entries.erase l })

/-- All below a directory goes first, so that the names of its path may lead nowhere when the directory itself
is to go. -/
def removeTree (d : Disk) (p : Path) : Except Fault Unit × Disk :=
  match d.find p with
  | .error e => (.error e, d)
  | .ok (_, none) => (.error .missing, d)
  | .ok (_, some (.file _)) => (.error .notDirectory, d)
  | .ok (l, some .directory) => (d.emptied l).removeDirectory (d.start p).1 (d.start p).2

/-- The answer to a request and the disk after it. No time passes. -/
def perform (d : Disk) : (r : Request) → Except Fault r.Answer × Disk
  | .kind p => (.ok (d.kind p), d)
  | .list p => (d.list p, d)
  | .read p => (d.read p, d)
  | .makeDirectories p => d.makeDirectories p
  | .write p s => d.change p fun _ => s
  | .append p s => d.change p (· ++ s)
  | .create p => d.create p
  | .sync p => (d.sync p, d)
  | .rename p q => d.rename p q
  | .remove p => d.remove p
  | .removeTree p => d.removeTree p
  | .pause => (.ok (), d)
  | .clock => (.ok (0 : Nat), d)

end Disk

end FlowArchive
