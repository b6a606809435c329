import FlowArchive.Disk.Trace
import FlowArchive.Proofs.FailedWrite

/-!
# What an answer tells

A request that a disk has answered has changed no more than it may, whether it was performed or refused. Most requests
change nothing where they fail.
-/

namespace FlowArchive

/-- A request that does all it is asked to do if it succeeds, and nothing if it fails. -/
def Request.IsWhole : Request → Prop
  | .write _ _ | .append _ _ | .makeDirectories _ | .removeTree _ => False
  | _ => True

namespace Disk

variable {mayRefuse : Request → Prop} {M : Location → Prop} {c d e : Disk} {r : Request} {p : Path} {m : Location}
  {answer : Except Fault r.Answer}

theorem remove_error {f : Fault} (failed : d.remove p = (.error f, e)) : e = d := by
  unfold remove at failed
  split at failed
  case h_4 => cases failed
  all_goals
    cases failed
    rfl

theorem at?_change_ne_none {f : Bytes → Bytes} (there : d.at? m ≠ none) : (d.change p f).2.at? m ≠ none := by
  have kept : ∀ (k : Location) (s : Bytes), k ≠ [] → (d.put k (.file s)).at? m ≠ none := fun k s inside => by
    rw [at?_put d inside]
    split
    · simp
    · exact there
  unfold change
  split
  · exact there
  · exact there
  next found => exact kept _ _ fun root => by simp [root, find_eq_ok] at found
  next found =>
    split
    · exact there
    · exact kept _ _ fun root => by simp [root, find_eq_ok] at found

namespace Answers

theorem edits (answers : c.Answers mayRefuse r answer e) (within : r.Within c M) : Edits M c e := by
  cases answers with
  | performed ran =>
    have edits := edits_perform within
    rwa [ran] at edits
  | refused f allowed remains => exact remains.edits within

theorem ran_of_ok {v : r.Answer} (answers : c.Answers mayRefuse r (.ok v) e) : c.perform r = (.ok v, e) := by
  cases answers with
  | performed ran => exact ran

theorem unchanged {f : Fault} (answers : c.Answers mayRefuse r (.error f) e) (whole : r.IsWhole) : e = c := by
  cases answers with
  | performed ran =>
    cases r with
    | create p => exact Archive.create_error ran
    | rename p q => exact rename_error ran
    | remove p => exact remove_error ran
    | write | append | makeDirectories | removeTree => exact whole.elim
    | _ => exact (congrArg Prod.snd ran).symm
  | refused f allowed remains => cases remains <;> first | rfl | exact whole.elim

theorem same (answers : c.Answers mayRefuse r answer e) (whole : r.IsWhole) (looks : ∀ d : Disk, (d.perform r).2 = d) :
    e = c := by
  cases answer with
  | ok v => rw [← looks c, answers.ran_of_ok]
  | error f => exact answers.unchanged whole

theorem at?_append_ne_none {more : Bytes} {answer : Except Fault (Request.append p more).Answer}
    (answers : c.Answers mayRefuse (.append p more) answer e) (there : c.at? m ≠ none) : e.at? m ≠ none := by
  cases answers with
  | performed ran =>
    have kept := at?_change_ne_none (p := p) (f := (· ++ more)) there
    change (c.perform (.append p more)).2.at? m ≠ none at kept
    rwa [ran] at kept
  | refused f allowed remains =>
    cases remains with
    | untouched => exact there
    | tornEnd => exact at?_change_ne_none there

end Answers

end Disk

end FlowArchive
