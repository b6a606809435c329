import FlowArchive.Query.Tally

/-!
# Scanning in parallel

Blocks are scanned by a bounded number of workers, each of which hands its tally to one reducer. The first
failure that reaches the reducer ends the run. What the run comes to is what merging the tallies one after
the other comes to: `Pipeline.collect` does that, and `Pipeline.Step` says what workers and reducer may do.
-/

namespace FlowArchive.Pipeline

/-- What the scan of a block comes to: a tally, or the message of a failure. -/
abbrev Outcome := Except String Tally

/-- The outcome of a scan. -/
def outcomeOf : Except Failure Tally → Outcome
  | .ok t => .ok t
  | .error f => .error f.message

/-- The number of workers: at least one. -/
def workers (asked : Nat) : Nat := max asked 1

/-- Merges outcomes in their order; the first failure ends the run. -/
def collectFrom (m : Merger) : List Outcome → Except Failure Aggregate
  | [] => m.finish
  | .ok t :: rest => collectFrom (m.merge t) rest
  | .error message :: _ => .error (.scan message)

/-- Merges outcomes one after the other. -/
def collect (outcomes : List Outcome) : Except Failure Aggregate := collectFrom .start outcomes

/-! ## Workers and reducer -/

/-- What a task is doing. -/
inductive Stage where
  /-- Waits for a permit. -/
  | waiting
  /-- Holds a permit and has not looked yet whether the run is cancelled. -/
  | admitted
  /-- Holds a permit and scans. -/
  | scanning
  /-- Holds a permit and has an outcome to send. -/
  | scanned
  /-- Holds a permit and is done with its outcome. -/
  | sent
  | finished
deriving DecidableEq, Repr

namespace Stage

def holdsPermit : Stage → Bool
  | waiting | finished => false
  | _ => true

/-- Whether the outcome of the task is no longer with it. -/
def isPast : Stage → Bool
  | sent | finished => true
  | _ => false

end Stage

/-- The state of a run over a list of tasks. -/
structure State where
  stages : List Stage
  /-- Outcomes that were sent and not yet received, the oldest first. -/
  channel : List Outcome
  merger : Merger
  /-- What the reducer ended with. -/
  result : Option (Except Failure Aggregate)
  cancelled : Bool

namespace State

/-- Every task waits. -/
def start (tasks : Nat) : State := ⟨List.replicate tasks .waiting, [], .start, none, false⟩

/-- How many permits are held. -/
def held (s : State) : Nat := s.stages.countP Stage.holdsPermit

/-- A run is over when the reducer has ended and no task is left. -/
def IsOver (s : State) : Prop := s.result.isSome ∧ ∀ g ∈ s.stages, g = .finished

/-- A task goes on to another stage. -/
def move (s : State) (i : Nat) (g : Stage) : State := { s with stages := s.stages.set i g }

end State

/-- One step of a run in which the scans of the tasks come to `outcomes`. -/
inductive Step (limit : Nat) (outcomes : List Outcome) : State → State → Prop where
  /-- A waiting task takes a permit if one is free. -/
  | grant {s : State} {i : Nat} (waits : s.stages[i]? = some .waiting) (free : s.held < workers limit) :
      Step limit outcomes s (s.move i .admitted)
  /-- A task that waits when the run is cancelled ends without a scan. -/
  | abandon {s : State} {i : Nat} (waits : s.stages[i]? = some .waiting) (dead : s.cancelled = true) :
      Step limit outcomes s (s.move i .finished)
  | scan {s : State} {i : Nat} (has : s.stages[i]? = some .admitted) (live : s.cancelled = false) :
      Step limit outcomes s (s.move i .scanning)
  /-- A task that finds the run cancelled gives its permit back without a scan. -/
  | decline {s : State} {i : Nat} (has : s.stages[i]? = some .admitted) (dead : s.cancelled = true) :
      Step limit outcomes s (s.move i .finished)
  | scanned {s : State} {i : Nat} (scans : s.stages[i]? = some .scanning) :
      Step limit outcomes s (s.move i .scanned)
  /-- A task sends its outcome while there is room in the channel. -/
  | send {s : State} {i : Nat} {o : Outcome} (has : s.stages[i]? = some .scanned) (comes : outcomes[i]? = some o)
      (room : s.channel.length < workers limit) (listens : s.result = none) :
      Step limit outcomes s { s.move i .sent with channel := s.channel ++ [o] }
  /-- What is sent after the reducer has ended is lost. -/
  | lose {s : State} {i : Nat} (has : s.stages[i]? = some .scanned) (closed : s.result.isSome) :
      Step limit outcomes s (s.move i .sent)
  /-- A task gives its permit back. -/
  | release {s : State} {i : Nat} (done : s.stages[i]? = some .sent) :
      Step limit outcomes s (s.move i .finished)
  /-- The reducer merges a tally. -/
  | receive {s : State} {t : Tally} {rest : List Outcome} (first : s.channel = .ok t :: rest)
      (listens : s.result = none) :
      Step limit outcomes s { s with channel := rest, merger := s.merger.merge t }
  /-- The reducer meets a failure, cancels the run and ends with it. -/
  | stop {s : State} {message : String} {rest : List Outcome} (first : s.channel = .error message :: rest)
      (listens : s.result = none) :
      Step limit outcomes s { s with channel := rest, result := some (.error (.scan message)), cancelled := true }
  /-- When every task has ended and nothing is left to receive, the reducer finishes. -/
  | finish {s : State} (done : ∀ g ∈ s.stages, g = .finished) (drained : s.channel = [])
      (listens : s.result = none) :
      Step limit outcomes s { s with result := some s.merger.finish }

/-- A run of a number of steps from one state to another. -/
inductive Run (limit : Nat) (outcomes : List Outcome) : Nat → State → State → Prop where
  | refl (s : State) : Run limit outcomes 0 s s
  | step {n : Nat} {s t u : State} (before : Run limit outcomes n s t) (last : Step limit outcomes t u) :
      Run limit outcomes (n + 1) s u

end FlowArchive.Pipeline
