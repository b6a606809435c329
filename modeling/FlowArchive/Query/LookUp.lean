import FlowArchive.Query.Naming

/-!
# Looking up at the same time

The addresses of rows are looked up all at once. For each of them a worker asks the resolver, when it gets to it, and
a waiter takes what the worker brings or gives up when the time is over. The waiters end in any order, and in that order
what they come to is collected. A worker that nobody waits for may ask all the same; what it is told is lost.
-/

namespace FlowArchive.Naming

/-- How the wait for a look-up ends. -/
inductive Ending where
  /-- The resolver has answered in time, with a name if it knows one. -/
  | answered
  | failed
  /-- The time is over. -/
  | late
deriving DecidableEq, Repr

/-- The name that a wait brings. -/
def Ending.name? (reverse : Address → Option String) (a : Address) : Ending → Option String
  | answered => reverse a
  | failed | late => none

/-- The look-ups of a list of addresses. -/
structure LookUps where
  /-- The addresses whose workers have not asked yet. -/
  unasked : List Address
  /-- The addresses that the resolver was asked for, the first one first. -/
  asked : List Address
  /-- The addresses whose waiters have not ended. -/
  awaited : List Address
  /-- The waits that have ended, the first one first. -/
  ended : List (Address × Ending)
deriving DecidableEq, Repr

namespace LookUps

/-- A worker and a waiter for each address. -/
def start (addresses : List Address) : LookUps := ⟨addresses, [], addresses, []⟩

/-- A worker asks the resolver. -/
def ask (s : LookUps) (a : Address) : LookUps := { s with unasked := s.unasked.erase a, asked := s.asked ++ [a] }

/-- A waiter ends. -/
def finish (s : LookUps) (a : Address) (e : Ending) : LookUps :=
  { s with awaited := s.awaited.erase a, ended := s.ended ++ [(a, e)] }

/-- What was collected, in the order in which the waits have ended. -/
def answers (s : LookUps) (reverse : Address → Option String) : List (Address × Option String) :=
  s.ended.map fun e => (e.1, e.2.name? reverse e.1)

/-- One step of a worker or a waiter. -/
inductive Step : LookUps → LookUps → Prop where
  | ask {s : LookUps} {a : Address} (works : a ∈ s.unasked) : Step s (s.ask a)
  /-- Only a worker that has asked brings an answer. -/
  | answer {s : LookUps} {a : Address} (waits : a ∈ s.awaited) (asked : a ∈ s.asked) : Step s (s.finish a .answered)
  | fail {s : LookUps} {a : Address} (waits : a ∈ s.awaited) : Step s (s.finish a .failed)
  | giveUp {s : LookUps} {a : Address} (waits : a ∈ s.awaited) : Step s (s.finish a .late)

/-- Any number of steps. -/
inductive Run : LookUps → LookUps → Prop where
  | refl (s : LookUps) : Run s s
  | step {s t u : LookUps} (before : Run s t) (last : Step t u) : Run s u

end LookUps

end FlowArchive.Naming
