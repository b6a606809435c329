import FlowArchive.CommandLine.Run
import Std.Time.DateTime.Timestamp

/-!
# The program

Requests are put to the file system of the machine, and the outcome of the command line is printed.
-/

namespace FlowArchive.Machine

/-- The fault that an error of the machine stands for. -/
def faultOf : IO.Error → Fault
  | .noFileOrDirectory _ _ _ => .missing
  | .alreadyExists _ _ _ => .present
  | .inappropriateType _ 20 _ => .notDirectory
  | .inappropriateType _ _ _ => .isDirectory
  | e => .other (toString e)

/-- Does something that the machine may refuse. -/
def attempt {α : Type} (act : IO α) : IO (Except Fault α) := do
  match ← act.toBaseIO with
  | .ok a => return .ok a
  | .error e => return .error (faultOf e)

/-- Where a path leads. -/
def locate (p : Path) := do
  if p.text.isEmpty then throw (IO.Error.noFileOrDirectory "" 2 "")
  return (← IO.currentDir) / p.text

def kindOf : IO.FS.FileType → EntryKind
  | .dir => .directory
  | _ => .file

/-- Puts a request to the machine. -/
def perform : (r : Request) → IO (Except Fault r.Answer)
  | .kind p => attempt do
    let metadata ← (← locate p).metadata
    return some (kindOf metadata.type)
  | .list p => attempt do
    let entries ← (← locate p).readDir
    entries.toList.mapM fun e => do
      let metadata ← e.path.metadata
      return (e.fileName, kindOf metadata.type)
  | .read p => attempt do
    return (← IO.FS.readBinFile (← locate p)).toList
  | .makeDirectories p => attempt do
    unless p.text.isEmpty do IO.FS.createDirAll (← locate p)
  | .write p content => attempt do
    IO.FS.writeBinFile (← locate p) content.toByteArray
  | .append p more => attempt do
    let file ← IO.FS.Handle.mk (← locate p) .append
    file.write more.toByteArray
  | .create p => attempt do
    let _ ← IO.FS.Handle.mk (← locate p) .writeNew
  | .sync p => attempt do
    let file ← IO.FS.Handle.mk (← locate p) .read
    file.flush
  | .rename source target => attempt do
    IO.FS.rename (← locate source) (← locate target)
  | .remove p => attempt do
    IO.FS.removeFile (← locate p)
  | .removeTree p => attempt do
    IO.FS.removeDirAll (← locate p)
  | .pause => attempt (IO.sleep 10)
  | .clock => attempt (do return (← IO.monoNanosNow))

/-- Runs a script on the machine. -/
def run {α : Type} : Script α → IO α
  | .done a => return a
  | .ask r next => do run (next (← perform r))

/-- A text that no other run marks its lock with. -/
def freshToken : IO Archive.LockToken := do
  let noise ← IO.getRandomBytes 16
  return Bytes.ofChars (noise.toList.flatMap fun b => [Nat.digitChar (b.toNat / 16), Nat.digitChar (b.toNat % 16)])

/-- What a run needs to know of the machine. -/
def setting : IO CommandLine.Setting := do
  let seconds := (← Std.Time.Timestamp.now).toSecondsSinceUnixEpoch.val
  let hosts ← (IO.FS.readFile "/etc/hosts").toBaseIO
  return ⟨Timestamp.clamp seconds, .ofSystem (hosts.toOption.getD ""), ← freshToken⟩

end FlowArchive.Machine

def main (words : List String) : IO UInt32 := do
  let outcome ← FlowArchive.Machine.run (FlowArchive.CommandLine.run (← FlowArchive.Machine.setting) words)
  IO.print outcome.output
  IO.eprint outcome.errors
  return UInt32.ofNat outcome.code
