import FlowArchive.Disk.Script

/-!
# Scripts that share a disk

Several scripts run on one disk, one request at a time, in whatever order. A run of one script by itself is
a run in which no other has a turn.
-/

namespace FlowArchive.Disk

/-- A disk, and what is left to do of the scripts that share it. -/
structure Shared (α : Type) where
  disk : Disk
  scripts : List (Script α)

namespace Shared

variable {α : Type}

/-- One of the scripts puts its next request. -/
inductive Turn : Shared α → Shared α → Prop where
  | ask {s : Shared α} {i : Nat} {r : Request} {next : Except Fault r.Answer → Script α}
      (here : s.scripts[i]? = some (.ask r next)) :
      Turn s ⟨(s.disk.perform r).2, s.scripts.set i (next (s.disk.perform r).1)⟩

/-- What scripts that share a disk can come to. -/
inductive Reaches : Shared α → Shared α → Prop where
  | refl (s : Shared α) : Reaches s s
  | step {s t u : Shared α} (first : Turn s t) (rest : Reaches t u) : Reaches s u

/-- All scripts have ended, with these values. -/
def EndsWith (s : Shared α) (values : List α) : Prop := s.scripts = values.map .done

theorem Reaches.trans {s t u : Shared α} (first : Reaches s t) (rest : Reaches t u) : Reaches s u := by
  induction first with
  | refl => exact rest
  | step turn _ ih => exact .step turn (ih rest)

theorem set_getElem?_self {l : List α} {i : Nat} {a : α} (here : l[i]? = some a) : l.set i a = l := by
  obtain ⟨bound, rfl⟩ := List.getElem?_eq_some_iff.1 here
  exact List.set_getElem_self bound

/-- A script that nobody interrupts comes to its end. -/
theorem reaches_run (s : Script α) (d : Disk) (scripts : List (Script α)) {i : Nat}
    (here : scripts[i]? = some s) :
    Reaches ⟨d, scripts⟩ ⟨(s.run d).2, scripts.set i (.done (s.run d).1)⟩ := by
  induction s generalizing d scripts with
  | done a =>
    rw [Script.run_done, set_getElem?_self here]
    exact .refl _
  | ask r next ih =>
    have bound : i < scripts.length := (List.getElem?_eq_some_iff.1 here).1
    have rest := ih (d.perform r).1 (d.perform r).2 (scripts.set i (next (d.perform r).1)) (by simp [bound])
    rw [List.set_set] at rest
    exact .step (.ask here) rest

end Shared

end FlowArchive.Disk
