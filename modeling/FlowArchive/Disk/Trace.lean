import FlowArchive.Disk.Refusal
import FlowArchive.Disk.Sharing

/-!
# Traces of scripts that share a disk

A trace tells in which order several scripts had their turns, what each asked, and how the disk answered. It shows who
has made a file and not removed it yet, which is all that a lock file is.
-/

namespace FlowArchive.Disk

/-- How a disk that may refuse some requests can answer one, and what it is afterwards. -/
inductive Answers (mayRefuse : Request → Prop) (d : Disk) (r : Request) : Except Fault r.Answer → Disk → Prop where
  | performed {answer : Except Fault r.Answer} {e : Disk} (ran : d.perform r = (answer, e)) :
      Answers mayRefuse d r answer e
  | refused {e : Disk} (f : Fault) (allowed : mayRefuse r) (remains : d.Remains r e) :
      Answers mayRefuse d r (.error f) e

/-- A turn of one of several scripts: what it asked, and the answer. -/
structure Event where
  script : Nat
  request : Request
  answer : Except Fault request.Answer

namespace Event

/-- The script that has made a file, if that is what happened. -/
def maker? (p : Path) : Event → Option Nat
  | ⟨i, .create q, .ok _⟩ => if q = p then some i else none
  | _ => none

/-- The script that has removed a file, if that is what happened. -/
def remover? (p : Path) : Event → Option Nat
  | ⟨i, .remove q, .ok _⟩ => if q = p then some i else none
  | _ => none

/-- The scripts that are between making and removing a file, after one more event. -/
def own (p : Path) (owners : List Nat) (event : Event) : List Nat :=
  match event.maker? p, event.remover? p with
  | some i, _ => i :: owners
  | none, some i => owners.erase i
  | none, none => owners

end Event

/-- The scripts that have made a file, in the order in which they did. -/
def makers (p : Path) (events : List Event) : List Nat := events.filterMap (Event.maker? p)

/-- The scripts that are between making and removing a file. -/
def owners (p : Path) (events : List Event) : List Nat := events.foldl (Event.own p) []

namespace Shared

variable {α : Type} {mayRefuse : Request → Prop}

/-- What scripts that share a disk can come to, and what happens on the way. -/
inductive Traces (mayRefuse : Request → Prop) (s : Shared α) : List Event → Shared α → Prop where
  | start : Traces mayRefuse s [] s
  | turn {events : List Event} {t : Shared α} {i : Nat} {r : Request} {next : Except Fault r.Answer → Script α}
      {answer : Except Fault r.Answer} {e : Disk} (before : Traces mayRefuse s events t)
      (here : t.scripts[i]? = some (.ask r next)) (answers : t.disk.Answers mayRefuse r answer e) :
      Traces mayRefuse s (events ++ [⟨i, r, answer⟩]) ⟨e, t.scripts.set i (next answer)⟩

/-- What scripts can come to has a trace. -/
theorem exists_trace {s t u : Shared α} {events : List Event} (before : Traces mayRefuse s events t)
    (reaches : Reaches t u) : ∃ events, Traces mayRefuse s events u := by
  induction reaches generalizing events with
  | refl => exact ⟨events, before⟩
  | step first _ ih =>
    cases first with
    | ask here => exact ih (.turn before here (.performed rfl))

end Shared

end FlowArchive.Disk
