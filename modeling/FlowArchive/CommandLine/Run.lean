import FlowArchive.Archive.Cleaning
import FlowArchive.CommandLine.Command
import FlowArchive.CommandLine.Config
import FlowArchive.Report.Basic

/-!
# Running commands

A command prints a report, or nothing. A failure is printed as what could not be done and, below that, why.
-/

namespace FlowArchive.CommandLine

/-- What could not be done, and the causes behind it, each of the one before. -/
structure Complaint where
  message : String
  causes : List String
deriving DecidableEq, Repr

namespace Complaint

/-- A message and the messages of its causes, from outside in. A refused request of the file system is itself the
cause of a failure. -/
def chain : Failure → List String
  | .fault f => [Failure.message (.fault f), f.message]
  | f => [f.message]

def ofFailure (f : Failure) : Complaint :=
  match chain f with
  | message :: causes => ⟨message, causes⟩
  | [] => ⟨f.message, []⟩

/-- A failure while something was done. -/
def during (what : String) (f : Failure) : Complaint := ⟨what, chain f⟩

def ofConfig (f : Config.Flaw) : Complaint := ⟨f.message, f.causes⟩

/-- A text with blanks behind each line feed. -/
def indentLines (blanks : Nat) (s : String) : String :=
  String.ofList (s.toList.flatMap fun c => if c = '\n' then '\n' :: List.replicate blanks ' ' else [c])

/-- A cause in a list, which is numbered if it has others beside it. -/
def numbered (n : Nat) (cause : String) : String :=
  let shown := Decimal.text n
  String.ofList (List.replicate (5 - shown.length) ' ') ++ shown ++ ": " ++ indentLines 7 cause

def text (c : Complaint) : String :=
  match c.causes with
  | [] => c.message
  | [cause] => c.message ++ "\n\nCaused by:\n    " ++ indentLines 4 cause
  | causes =>
    c.message ++ "\n\nCaused by:" ++
      String.join (causes.mapIdx fun n cause => "\n" ++ numbered n cause)

end Complaint

/-- What a program leaves behind: its exit code and what it printed. -/
structure Outcome where
  code : Nat
  output : String
  errors : String
deriving DecidableEq, Repr

namespace Outcome

def ofComplaint (c : Complaint) : Outcome := ⟨1, "", "flowquery error: " ++ c.text ++ "\n"⟩

def ofMisuse : Misuse → Outcome
  | .helpWanted => ⟨0, Misuse.helpWanted.message ++ "\n", ""⟩
  | m => ⟨2, "", "error: " ++ m.message ++ "\n"⟩

def ofOutput : Except Complaint String → Outcome
  | .ok output => ⟨0, output, ""⟩
  | .error c => ofComplaint c

end Outcome

/-- What a run needs to know of the world: the time, the names of hosts, and a mark for its locks. -/
structure Setting where
  now : Timestamp
  hosts : Resolver
  token : Archive.LockToken

/-- The direction that is counted; both where both or neither is asked for. -/
def QueryArguments.direction (q : QueryArguments) : Direction :=
  match q.received, q.sent with
  | true, false => .received
  | false, true => .sent
  | _, _ => .both

def bound (now : Timestamp) (default : Timestamp) : Option String → Except Complaint Timestamp
  | none => .ok default
  | some text =>
    (TimeArgument.read now text).mapError fun f =>
      .during ("Invalid time argument " ++ Text.quoted text) (.refused (.time f))

def QueryArguments.query (now : Timestamp) (q : QueryArguments) : Except Complaint Query := do
  let interfaces ← (Interfaces.ofText q.interfaces).mapError fun r => .ofFailure (.refused r)
  let grouping ← (Grouping.ofText q.columns).mapError fun f => .ofFailure (.refused (.grouping f))
  let first ← bound now 0 q.first
  let last ← bound now Timestamp.greatest q.last
  return {
    interfaces := interfaces
    range := ⟨first, last⟩
    grouping := grouping
    condition := q.condition
    sortKey := q.sortKey
    direction := q.direction
    ascending := q.ascending
    limit := q.limit
    memoryShare := q.memoryShare
    naming := q.naming }

/-- An action as part of something that is done. -/
def doing {α : Type} (what : String) (t : Action α) : ExceptT Complaint Script α :=
  ExceptT.mk (t.script.bind fun e => .done (e.mapError (Complaint.during what)))

/-- What is known without asking. -/
def known {α : Type} (e : Except Complaint α) : ExceptT Complaint Script α := ExceptT.mk (.done e)

def perform (w : Setting) (a : Archive) : Command → ExceptT Complaint Script String
  | .query q => do
    let query ← known (q.query w.now)
    let result ← doing "Query failed" (a.query w.hosts query)
    return Report.ofResult result q.format
  | .list format => do
    let interfaces ← doing "Cannot list interfaces" a.listInterfaces
    return Report.ofInterfaces interfaces format
  | .clean date => do
    let cutoff ← known ((TimeArgument.read w.now date).mapError fun f =>
      .during ("Invalid clean date " ++ Text.quoted date) (.refused (.time f)))
    let _ ← doing "Clean failed" (a.clean w.token w.now cutoff)
    return ""
  | .wipe => do
    let _ ← doing "Wipe failed" (a.wipe w.token)
    return ""

/-- The settings for an invocation: those of the configuration file, with the archive that is named. -/
def settings (i : Invocation) : ExceptT Complaint Script Config := do
  let base ← match i.config with
    | none => known (.ok Config.default)
    | some path => ExceptT.mk ((Config.load path).bind fun e => .done (e.mapError Complaint.ofConfig))
  known (({ base with root := i.root.getD base.root }).validate.mapError Complaint.ofConfig)

/-- Runs an invocation. -/
def execute (w : Setting) (i : Invocation) : ExceptT Complaint Script String := do
  let config ← settings i
  let a := config.archive
  doing ("Cannot open database " ++ config.root) a.checkExists
  perform w a i.command

/-- Runs the program on its arguments. -/
def run (w : Setting) (words : List String) : Script Outcome :=
  match read words with
  | .error m => return .ofMisuse m
  | .ok i => (execute w i).run.bind fun e => .done (.ofOutput e)

end FlowArchive.CommandLine
