import FlowArchive.Archive.Layout
import FlowArchive.Archive.Summary

/-!
# The ledger

The summary is changed under a lock. The lock is a file that is made only where none is, so of several
programs one at a time holds it. The new summary is written beside the old one and then takes its place, so a
reader sees one or the other. Whatever happens in between, a lock that was taken is given back.
-/

namespace FlowArchive.Archive

/-- The text that a program writes into the lock that it holds. -/
abbrev LockToken := Bytes

/-- How often the lock is tried in vain before the wait is given up: every ten milliseconds. -/
def lockRetries (limit : Duration) : Nat := limit.milliseconds / 10

/-- Makes the lock file; where there is one, tries again after a pause. -/
def makeLock (a : Archive) : (retries : Nat) → Action Unit
  | 0 => ExceptT.mk ((Script.request (.create a.lockPath)).bind fun
    | .ok () => .done (.ok ())
    | .error .present => .done (.error (.lockTimeout a.lockLimit))
    | .error f => .done (.error (.fault f)))
  | retries + 1 => ExceptT.mk ((Script.request (.create a.lockPath)).bind fun
    | .ok () => .done (.ok ())
    | .error .present => (Script.request .pause).bind fun _ => (makeLock a retries).script
    | .error f => .done (.error (.fault f)))

/-- Takes the lock and marks it. -/
def acquire (a : Archive) (token : LockToken) : Action Unit := do
  makeLock a (lockRetries a.lockLimit)
  Action.ask (.append a.lockPath token)

/-- Gives the lock back. That it is gone already is not a failure. -/
def release (a : Archive) : Script Unit := do
  let _ ← Script.request (.remove a.lockPath)
  return ()

/-- The summary that is stored, if there is one that can be read. -/
def storedSummary (a : Archive) : Action (Option Summary) :=
  ExceptT.mk ((Script.request (.read a.summaryPath)).bind fun
    | .ok s =>
      match Summary.read? s with
      | some summary => .done (.ok (some summary))
      | none => .done (.error .unreadableSummary)
    | .error .missing => .done (.ok none)
    | .error f => .done (.error (.fault f)))

/-- The summary that is stored; there has to be one. -/
def readSummary (a : Archive) : Action Summary := do
  match ← a.storedSummary with
  | some summary => return summary
  | none => Action.fail (.absent (.summary a.summaryPath.text))

/-- Stores a summary in place of the old one. -/
def commit (a : Archive) (s : Summary) : Action Unit := do
  Action.ask (.write a.summaryDraftPath s.write)
  Action.ask (.sync a.summaryDraftPath)
  Action.ask (.rename a.summaryDraftPath a.summaryPath)

/-- What is done under the lock: the change is applied to the stored summary and the result is stored. A summary
that cannot be read counts as absent; if the change fails, nothing is stored. -/
def applyChange (a : Archive) (change : Option Summary → Except Failure Summary) : Action Summary := do
  let old ← a.storedSummary.attempt
  let new ← Action.ofExcept (change (old.toOption.join))
  a.commit new
  return new

/-- Changes the summary under the lock. -/
def modify (a : Archive) (token : LockToken) (change : Option Summary → Except Failure Summary) :
    Action Summary := do
  a.acquire token
  let outcome ← (a.applyChange change).attempt
  Action.ofScript a.release
  Action.ofExcept outcome

def resetSummary (a : Archive) (token : LockToken) : Action Summary := a.modify token fun _ => .ok .empty

end FlowArchive.Archive
