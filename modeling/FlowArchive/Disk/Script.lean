import FlowArchive.Disk.Basic
import FlowArchive.Failure

/-!
# Scripts

A script is a program that does nothing but ask the file system, one request at a time. It can be run on a
disk, or taken step by step together with others. An action is a script that may fail.
-/

namespace FlowArchive

/-- A program that ends with a value, or asks and goes on with the answer. -/
inductive Script (α : Type) where
  | done (a : α)
  | ask (r : Request) (next : Except Fault r.Answer → Script α)

namespace Script

variable {α β : Type}

protected def bind : Script α → (α → Script β) → Script β
  | done a, f => f a
  | ask r next, f => ask r fun answer => Script.bind (next answer) f

instance : Monad Script where
  pure := done
  bind := Script.bind

/-- Asks once. -/
def request (r : Request) : Script (Except Fault r.Answer) := ask r done

/-- The value that a script ends with, and the disk after it. -/
def run : Script α → Disk → α × Disk
  | done a, d => (a, d)
  | ask r next, d => (next (d.perform r).1).run (d.perform r).2

@[simp] theorem run_done (a : α) (d : Disk) : (done a).run d = (a, d) := rfl

@[simp] theorem run_pure (a : α) (d : Disk) : (pure a : Script α).run d = (a, d) := rfl

theorem run_bind (s : Script α) (f : α → Script β) (d : Disk) :
    (s >>= f).run d = (f (s.run d).1).run (s.run d).2 := by
  show (Script.bind s f).run d = _
  induction s generalizing d with
  | done a => rfl
  | ask r next ih => exact ih _ _

end Script

/-- A script that may fail. -/
abbrev Action (α : Type) := ExceptT Failure Script α

namespace Action

variable {α : Type}

/-- The action of a script that does not fail. -/
def ofScript (s : Script α) : Action α := ExceptT.lift s

/-- Asks once; a refusal is a failure. -/
def ask (r : Request) : Action r.Answer :=
  ExceptT.mk ((Script.request r).bind fun
    | .ok a => .done (.ok a)
    | .error f => .done (.error (.fault f)))

/-- An action that is known to have come out one way. -/
def ofExcept (e : Except Failure α) : Action α := ExceptT.mk (.done e)

def fail (f : Failure) : Action α := ofExcept (.error f)

/-- What sort of entry a path leads to. -/
def kind (p : Path) : Action (Option EntryKind) :=
  ExceptT.mk ((Script.request (.kind p)).bind fun
    | .ok k => .done (.ok k)
    | .error _ => .done (.ok none))

/-- Does an action for each member of a list, in order. -/
def forEach {β : Type} (f : α → Action β) : List α → Action (List β)
  | [] => pure []
  | a :: rest => do
    let b ← f a
    let bs ← forEach f rest
    pure (b :: bs)

/-- The script of an action, which ends with its outcome. -/
def script (t : Action α) : Script (Except Failure α) := ExceptT.run t

/-- The outcome of an action as a value, so that one can go on after a failure. -/
def attempt (t : Action α) : Action (Except Failure α) := ofScript t.script

def runOn (t : Action α) (d : Disk) : Except Failure α × Disk := t.script.run d

end Action

end FlowArchive
