import FlowArchive.Disk.Trace
import FlowArchive.Proofs.FailedWrite

/-!
# The steps of a change of the ledger

A change of the summary is a script, and so is a look at it. What is left to do of either is told by a phase, and what
a phase asks and where each answer leads is a table. The scripts do exactly what the table says.
-/

namespace FlowArchive.Archive

/-- A change of the summary by a program with its own token and patience. -/
structure LedgerChange where
  token : LockToken
  limit : Duration
  change : Option Summary → Except Failure Summary

/-- The archive with the patience of the program. -/
def LedgerChange.archive (c : LedgerChange) (a : Archive) : Archive := { a with lockLimit := c.limit }

/-- What a program does with the ledger. -/
inductive LedgerUse where
  | change (c : LedgerChange)
  | look

def LedgerUse.script (a : Archive) : LedgerUse → Script (Except Failure Summary)
  | change c => ((c.archive a).modify c.token c.change).script
  | look => a.readSummary.script

/-- Something has ended, or it asks, and the answers lead on. -/
inductive Turn (σ : Type) where
  | ends (outcome : Except Failure Summary)
  | asks (r : Request) (next : Except Fault r.Answer → σ)

/-- How far a change has come. -/
inductive Stage where
  /-- The lock is about to be tried; that many tries are left after it. -/
  | trying (retries : Nat)
  | pausing (retries : Nat)
  /-- The lock file is made, but not marked. -/
  | marking
  | loading
  | drafting (new : Summary)
  | syncing (new : Summary)
  | placing (new : Summary)
  | releasing (outcome : Except Failure Summary)
  /-- The change has ended. The lock stays if it could not be marked or given back. -/
  | ended (locked : Bool) (outcome : Except Failure Summary)

namespace Stage

variable (a : Archive) (c : LedgerChange)

/-- What a change does once the lock is marked: something that may fail, and then the lock is given back. -/
def guarded (t : Action Summary) : Action Summary := do
  let outcome ← t.attempt
  Action.ofScript a.release
  Action.ofExcept outcome

def marked (lock : Action Unit) : Script (Except Failure Summary) :=
  (do lock; guarded a (a.applyChange c.change) : Action Summary).script

def tried (retries : Nat) : Script (Except Failure Summary) :=
  marked a c (do a.makeLock retries; Action.ask (.append a.lockPath c.token))

/-- What is left to do. -/
def script : Stage → Script (Except Failure Summary)
  | trying n => tried a c n
  | pausing n => (Script.request .pause).bind fun _ => tried a c n
  | marking => marked a c (Action.ask (.append a.lockPath c.token))
  | loading => (guarded a (a.applyChange c.change)).script
  | drafting new => (guarded a (do a.commit new; return new)).script
  | syncing new =>
    (guarded a (do
      (do Action.ask (.sync a.summaryDraftPath); Action.ask (.rename a.summaryDraftPath a.summaryPath) : Action Unit)
      return new)).script
  | placing new => (guarded a (do Action.ask (.rename a.summaryDraftPath a.summaryPath); return new)).script
  | releasing outcome => (do Action.ofScript a.release; Action.ofExcept outcome : Action Summary).script
  | ended _ outcome => .done outcome

/-- Where a request of a commit leads, which may fail. -/
def orRelease (next : Stage) : Except Fault Unit → Stage
  | .ok _ => next
  | .error f => releasing (.error (.fault f))

/-- What a change asks at each stage, and where the answers lead. -/
def turn : Stage → Turn Stage
  | trying n => .asks (.create a.lockPath) fun
    | .ok _ => marking
    | .error .present =>
      match n with
      | 0 => ended false (.error (.lockTimeout a.lockLimit))
      | n + 1 => pausing n
    | .error f => ended false (.error (.fault f))
  | pausing n => .asks .pause fun _ => trying n
  | marking => .asks (.append a.lockPath c.token) fun
    | .ok _ => loading
    | .error f => ended true (.error (.fault f))
  | loading => .asks (.read a.summaryPath) fun answer =>
    -- A summary that cannot be read counts as absent.
    match c.change (answer.toOption.bind Summary.read?) with
    | .ok new => drafting new
    | .error x => releasing (.error x)
  | drafting new => .asks (.write a.summaryDraftPath new.write) (orRelease (syncing new))
  | syncing new => .asks (.sync a.summaryDraftPath) (orRelease (placing new))
  | placing new => .asks (.rename a.summaryDraftPath a.summaryPath) (orRelease (releasing (.ok new)))
  | releasing outcome => .asks (.remove a.lockPath) fun answer => ended (!answer.toBool) outcome
  | ended _ outcome => .ends outcome

theorem computed_eq (old : Option Summary) :
    (guarded a (do let new ← Action.ofExcept (c.change old); a.commit new; return new)).script =
      (match c.change old with
        | .ok new => drafting new
        | .error x => releasing (.error x)).script a c := by
  cases c.change old <;> rfl

/-- Two scripts that ask the same and go on the same after every answer are the same. -/
theorem ask_congr {r : Request} {next next' : Except Fault r.Answer → Script (Except Failure Summary)}
    (ok : ∀ v, next (.ok v) = next' (.ok v)) (error : ∀ f, next (.error f) = next' (.error f)) :
    Script.ask r next = Script.ask r next' := by
  refine congrArg (Script.ask r) (funext fun answer => ?_)
  cases answer with
  | ok v => exact ok v
  | error f => exact error f

/-- A change does what the table of its turns says. -/
theorem script_eq (s : Stage) : s.script a c =
    match s.turn a c with
    | .ends outcome => .done outcome
    | .asks r next => .ask r fun answer => (next answer).script a c := by
  cases s with
  | trying n =>
    -- Only a lock that is there already is tried again.
    cases n with
    | zero => exact ask_congr (fun _ => rfl) fun f => by cases f <;> rfl
    | succ n => exact ask_congr (fun _ => rfl) fun f => by cases f <;> rfl
  | pausing n => rfl
  | loading =>
    refine ask_congr (fun s => ?_) fun f => ?_
    · dsimp only [Script.bind]
      change _ = (match c.change (Summary.read? s) with
        | .ok new => drafting new
        | .error x => releasing (.error x)).script a c
      cases Summary.read? s with
      | none => exact computed_eq a c none
      | some old => exact computed_eq a c (some old)
    · cases f <;> exact computed_eq a c none
  | ended _ outcome => rfl
  | _ => exact ask_congr (fun _ => rfl) fun _ => rfl

end Stage

/-! ## Programs -/

/-- What a program has come to that uses the ledger. -/
inductive Phase where
  | changing (c : LedgerChange) (s : Stage)
  | looking
  | looked (outcome : Except Failure Summary)

namespace Phase

variable (a : Archive)

/-- What the program uses the ledger for. -/
def use : Phase → LedgerUse
  | changing c _ => .change c
  | looking | looked _ => .look

/-- Where a program starts. -/
def start : LedgerUse → Phase
  | .change c => changing c (.trying (lockRetries c.limit))
  | .look => looking

def script : Phase → Script (Except Failure Summary)
  | changing c s => s.script (c.archive a) c
  | looking => a.readSummary.script
  | looked outcome => .done outcome

/-- What comes of a look at the summary. -/
def outcomeOf (answer : Except Fault Bytes) : Except Failure Summary :=
  match answer with
  | .ok s => (Summary.read? s).elim (.error .unreadableSummary) .ok
  | .error .missing => .error (.absent (.summary a.summaryPath.text))
  | .error f => .error (.fault f)

def turn : Phase → Turn Phase
  | changing c s =>
    match s.turn (c.archive a) c with
    | .ends outcome => .ends outcome
    | .asks r next => .asks r fun answer => changing c (next answer)
  | looking => .asks (.read a.summaryPath) fun answer => looked (outcomeOf a answer)
  | looked outcome => .ends outcome

theorem use_start (u : LedgerUse) : (start u).use = u := by
  cases u <;> rfl

theorem script_start (u : LedgerUse) : (start u).script a = u.script a := by
  cases u <;> rfl

theorem script_eq (p : Phase) : p.script a =
    match p.turn a with
    | .ends outcome => .done outcome
    | .asks r next => .ask r fun answer => (next answer).script a := by
  cases p with
  | changing c s =>
    rw [script, Stage.script_eq, turn]
    cases s.turn (c.archive a) c <;> rfl
  | looking =>
    refine Stage.ask_congr (fun s => ?_) fun f => ?_
    · dsimp only [Script.bind]
      change _ = Script.done ((Summary.read? s).elim (Except.error Failure.unreadableSummary) Except.ok)
      cases Summary.read? s <;> rfl
    · cases f <;> rfl
  | looked outcome => rfl

theorem turn_of_ask {p : Phase} {r : Request} {next : Except Fault r.Answer → Script (Except Failure Summary)}
    (asks : p.script a = .ask r next) :
    ∃ next', p.turn a = .asks r next' ∧ ∀ answer, next answer = (next' answer).script a := by
  rw [script_eq] at asks
  cases turn : p.turn a with
  | ends outcome =>
    rw [turn] at asks
    cases asks
  | asks r next' =>
    rw [turn] at asks
    cases asks
    exact ⟨next', rfl, fun _ => rfl⟩

end Phase

end FlowArchive.Archive
