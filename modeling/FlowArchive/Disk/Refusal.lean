import FlowArchive.Disk.Script

/-!
# Scripts whose requests are refused

A disk may refuse any request: it is full, it breaks, or somebody took the power. A refused request changes
nothing, except that a file may be left with the first bytes of what was to be written. A run in which nothing
is refused is the run of the script.
-/

namespace FlowArchive

/-- What a refused request may leave behind. -/
inductive Disk.Remains (d : Disk) : Request → Disk → Prop where
  /-- Nothing has happened. -/
  | untouched (r : Request) : Remains d r d
  /-- A file was cut, and the first bytes of its new content were stored. -/
  | torn (p : Path) (content : Bytes) (n : Nat) :
      Remains d (.write p content) (d.change p fun _ => content.take n).2
  /-- The first of the bytes to append were stored. -/
  | tornEnd (p : Path) (more : Bytes) (n : Nat) :
      Remains d (.append p more) (d.change p (· ++ more.take n)).2

namespace Script

variable {α : Type}

/-- What a script can end with on a disk that may refuse some requests. -/
inductive Ends (mayRefuse : Request → Prop) : Script α → Disk → α → Disk → Prop where
  | done (a : α) (d : Disk) : Ends mayRefuse (.done a) d a d
  | answered {r : Request} {next : Except Fault r.Answer → Script α} {d e : Disk} {a : α}
      (rest : Ends mayRefuse (next (d.perform r).1) (d.perform r).2 a e) : Ends mayRefuse (.ask r next) d a e
  | refused {r : Request} {next : Except Fault r.Answer → Script α} {d left e : Disk} {a : α} (f : Fault)
      (allowed : mayRefuse r) (remains : d.Remains r left) (rest : Ends mayRefuse (next (.error f)) left a e) :
      Ends mayRefuse (.ask r next) d a e

/-- A run in which nothing is refused. -/
theorem ends_run (mayRefuse : Request → Prop) (s : Script α) (d : Disk) :
    s.Ends mayRefuse d (s.run d).1 (s.run d).2 := by
  induction s generalizing d with
  | done a => exact .done a d
  | ask r next ih => exact .answered (ih _ _)

/-- If no request may be refused, a script ends with what it is run to. -/
theorem eq_run_of_ends {s : Script α} {d e : Disk} {a : α} (h : s.Ends (fun _ => False) d a e) :
    s.run d = (a, e) := by
  induction h with
  | done a d => rfl
  | answered _ ih => exact ih
  | refused _ allowed => exact allowed.elim

end Script

end FlowArchive
