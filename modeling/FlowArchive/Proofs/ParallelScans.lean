import FlowArchive.Proofs.Tally
import Mathlib.Algebra.GroupWithZero.Nat

/-!
# Scanning in parallel comes to what scanning in order does

In whatever order workers take permits, scan, send and stop, a run ends after a bounded number of steps, and its
result is that of merging all tallies one after the other, or the failure of a task if there is one. Nobody is
cancelled before the reducer has met a failure, so no outcome is missing when the reducer finishes.
-/

namespace FlowArchive.Pipeline

variable {limit n i : Nat} {outcomes : List Outcome} {o : Outcome} {s t : State} {g h : Stage}
  {stages : List Stage}

/-! ## Outcomes that have left their tasks -/

/-- The outcomes of the tasks that are done with them. -/
def sentOf : List Outcome → List Stage → List Outcome
  | o :: outcomes, g :: stages => if g.isPast then o :: sentOf outcomes stages else sentOf outcomes stages
  | _, _ => []

theorem sentOf_sublist (outcomes : List Outcome) (stages : List Stage) :
    (sentOf outcomes stages).Sublist outcomes := by
  induction outcomes generalizing stages with
  | nil => cases stages <;> exact List.Sublist.refl _
  | cons o rest ih =>
    cases stages with
    | nil => exact List.nil_sublist _
    | cons g others =>
      rw [sentOf]
      split
      · exact (ih others).cons_cons o
      · exact (ih others).cons o

theorem sentOf_start (outcomes : List Outcome) (tasks : Nat) :
    sentOf outcomes (List.replicate tasks .waiting) = [] := by
  induction outcomes generalizing tasks with
  | nil => cases tasks <;> rfl
  | cons o rest ih =>
    cases tasks with
    | zero => rfl
    | succ tasks => simpa [List.replicate_succ, sentOf, Stage.isPast] using ih tasks

theorem sentOf_finished (length : stages.length = outcomes.length) (done : ∀ g ∈ stages, g = .finished) :
    sentOf outcomes stages = outcomes := by
  induction outcomes generalizing stages with
  | nil =>
    obtain rfl := List.length_eq_zero_iff.1 length
    rfl
  | cons o rest ih =>
    cases stages with
    | nil => simp at length
    | cons g others =>
      obtain ⟨rfl, laterDone⟩ := List.forall_mem_cons.1 done
      have later : sentOf rest others = rest := ih (by simpa using length) laterDone
      simp [sentOf, Stage.isPast, later]

/-- A task that keeps its outcome changes nothing. -/
theorem sentOf_set (here : stages[i]? = some g) (kept : h.isPast = g.isPast) :
    sentOf outcomes (stages.set i h) = sentOf outcomes stages := by
  induction outcomes generalizing stages i with
  | nil => cases h : stages.set i h <;> cases stages <;> rfl
  | cons o rest ih =>
    cases stages with
    | nil => simp at here
    | cons f others =>
      cases i with
      | zero =>
        obtain rfl : f = g := by simpa using here
        simp [sentOf, kept]
      | succ i =>
        have later : sentOf rest (others.set i h) = sentOf rest others := ih (by simpa using here)
        simp [sentOf, later]

/-- A task that sends its outcome adds it. -/
theorem sentOf_set_past (here : stages[i]? = some g) (before : g.isPast = false) (past : h.isPast = true)
    (comes : outcomes[i]? = some o) :
    (sentOf outcomes (stages.set i h)).Perm (sentOf outcomes stages ++ [o]) := by
  induction outcomes generalizing stages i with
  | nil => simp at comes
  | cons p rest ih =>
    cases stages with
    | nil => simp at here
    | cons f others =>
      cases i with
      | zero =>
        obtain rfl : f = g := by simpa using here
        obtain rfl : p = o := by simpa using comes
        simpa [sentOf, before, past] using (List.perm_append_singleton p _).symm
      | succ i =>
        have later : (sentOf rest (others.set i h)).Perm (sentOf rest others ++ [o]) :=
          ih (by simpa using here) (by simpa using comes)
        by_cases gone : f.isPast = true
        · simpa [sentOf, gone] using later.cons p
        · simpa [sentOf, gone] using later

/-! ## What every step keeps -/

/-- Tallies that are all there are to merge, in some order. -/
def Merges (outcomes : List Outcome) (ts : List Tally) : Prop := (ts.map Except.ok : List Outcome).Perm outcomes

/-- As long as the reducer listens, nobody is cancelled, and every outcome that was sent is merged or in the channel.
When it has ended, it has met a failure, or it has merged every outcome. -/
structure Sound (outcomes : List Outcome) (s : State) : Prop where
  tasks : s.stages.length = outcomes.length
  live : s.result = none → s.cancelled = false
  sent : s.result = none → ∃ ts : List Tally, s.merger = ts.foldl Merger.merge .start ∧
    (ts.map Except.ok ++ s.channel).Perm (sentOf outcomes s.stages)
  ended : ∀ r, s.result = some r →
    (s.cancelled = true ∧ ∃ message, .error message ∈ outcomes ∧ r = .error (.scan message)) ∨
    ((∀ g ∈ s.stages, g = .finished) ∧ ∃ ts, Merges outcomes ts ∧ r = (ts.foldl Merger.merge .start).finish)

theorem sound_start (outcomes : List Outcome) : Sound outcomes (.start outcomes.length) := by
  constructor
  case tasks => simp [State.start]
  case live => exact fun _ => rfl
  case sent => exact fun _ => ⟨[], rfl, by simp [State.start, sentOf_start]⟩
  case ended => simp [State.start]

/-- A task goes on and keeps its outcome, or the reducer has ended already. -/
theorem Sound.move (sound : Sound outcomes s) (here : s.stages[i]? = some g) (busy : g ≠ .finished)
    (kept : s.result = none → h.isPast = g.isPast) : Sound outcomes (s.move i h) := by
  constructor
  case tasks => simpa [State.move] using sound.tasks
  case live => exact sound.live
  case sent =>
    intro listens
    obtain ⟨ts, merged, same⟩ := sound.sent listens
    refine ⟨ts, merged, ?_⟩
    simpa only [State.move, sentOf_set here (kept listens)] using same
  case ended =>
    intro r result
    rcases sound.ended r result with failed | ⟨done, -⟩
    · exact .inl failed
    · exact absurd (done g (List.mem_of_getElem? here)) busy

theorem Sound.step (sound : Sound outcomes s) (step : Step limit outcomes s t) : Sound outcomes t := by
  -- Only a run that is cancelled, whose reducer has therefore ended, loses an outcome.
  have dead : ∀ {P : Prop}, s.cancelled = true → s.result = none → P := by
    intro P cancelled listens
    rw [sound.live listens] at cancelled
    cases cancelled
  cases step with
  | grant waits free => exact sound.move waits (by simp) fun _ => rfl
  | abandon waits cancelled => exact sound.move waits (by simp) (dead cancelled)
  | scan has live => exact sound.move has (by simp) fun _ => rfl
  | decline has cancelled => exact sound.move has (by simp) (dead cancelled)
  | scanned scans => exact sound.move scans (by simp) fun _ => rfl
  | lose has closed => exact sound.move has (by simp) fun listens => by simp [listens] at closed
  | release done => exact sound.move done (by simp) fun _ => rfl
  | send has comes room listens =>
    obtain ⟨ts, merged, same⟩ := sound.sent listens
    refine ⟨by simpa [State.move] using sound.tasks, fun _ => sound.live listens, fun _ => ⟨ts, merged, ?_⟩, ?_⟩
    · have more := sentOf_set_past (h := .sent) has rfl rfl comes
      simpa [State.move] using (same.append_right [_]).trans more.symm
    · simp [State.move, listens]
  | @receive u rest first listens =>
    obtain ⟨ts, merged, same⟩ := sound.sent listens
    refine ⟨sound.tasks, fun _ => sound.live listens, fun _ => ⟨ts ++ [u], ?_, ?_⟩, ?_⟩
    · rw [List.foldl_append, ← merged]
      rfl
    · rw [first] at same
      simpa using same
    · simp [listens]
  | stop first listens =>
    obtain ⟨ts, merged, same⟩ := sound.sent listens
    refine ⟨sound.tasks, by simp, by simp, ?_⟩
    intro r result
    cases result
    rw [first] at same
    have met := same.mem_iff.1 (List.mem_append_right _ List.mem_cons_self)
    exact .inl ⟨rfl, _, (sentOf_sublist outcomes s.stages).subset met, rfl⟩
  | finish done drained listens =>
    obtain ⟨ts, merged, same⟩ := sound.sent listens
    refine ⟨sound.tasks, by simp, by simp, ?_⟩
    intro r result
    cases result
    rw [drained, List.append_nil, sentOf_finished sound.tasks done] at same
    exact .inr ⟨done, ts, same, by rw [merged]⟩

theorem Run.sound (run : Run limit outcomes n s t) (sound : Sound outcomes s) : Sound outcomes t := by
  induction run with
  | refl => exact sound
  | step before last ih => exact (ih sound).step last

/-! ## Every run ends -/

/-- How many steps a task can still take, the receiving of its outcome included. -/
def Stage.left : Stage → Nat
  | .waiting => 6
  | .admitted => 5
  | .scanning => 4
  | .scanned => 3
  | .sent => 1
  | .finished => 0

/-- How many steps a run can still take. -/
def State.left (s : State) : Nat :=
  (s.stages.map Stage.left).sum + s.channel.length + s.result.elim 1 fun _ => 0

theorem sum_left_set (here : stages[i]? = some g) (h : Stage) :
    ((stages.set i h).map Stage.left).sum + g.left = (stages.map Stage.left).sum + h.left := by
  induction stages generalizing i with
  | nil => simp at here
  | cons f others ih =>
    cases i with
    | zero =>
      obtain rfl : f = g := by simpa using here
      simp
      omega
    | succ i =>
      have later := ih (i := i) (by simpa using here)
      simp only [List.set_cons_succ, List.map_cons, List.sum_cons]
      omega

theorem left_move (here : s.stages[i]? = some g) (h : Stage) : (s.move i h).left + g.left = s.left + h.left := by
  have sum := sum_left_set here h
  simp only [State.left, State.move]
  omega

/-- Every step uses up one of those that are left. -/
theorem Step.left_lt (step : Step limit outcomes s t) : t.left < s.left := by
  cases step with
  | grant here | abandon here | scan here | decline here | scanned here | lose here | release here =>
    have moved := left_move here
    simp only [Stage.left] at moved
    grind
  | send here comes room listens =>
    have sum := sum_left_set here .sent
    simp only [Stage.left] at sum
    simp only [State.left, State.move, List.length_append, List.length_singleton]
    omega
  | receive first listens =>
    simp only [State.left, first, List.length_cons]
    omega
  | stop first listens =>
    simp only [State.left, first, listens, List.length_cons, Option.elim_none, Option.elim_some]
    omega
  | finish done drained listens =>
    simp only [State.left, listens, Option.elim_none, Option.elim_some]
    omega

theorem Run.left_le (run : Run limit outcomes n s t) : n + t.left ≤ s.left := by
  induction run with
  | refl => omega
  | step before last ih =>
    have fewer := last.left_lt
    omega

theorem left_start (tasks : Nat) : (State.start tasks).left = 6 * tasks + 1 := by
  simp [State.left, State.start, Stage.left]
  omega

/-! ## No run is stuck -/

theorem workers_pos (limit : Nat) : 0 < workers limit := by
  rw [workers]
  omega

/-- A task that holds a permit can go on as long as there is room in the channel or nobody listens. -/
theorem step_of_holdsPermit (sound : Sound outcomes s) (here : s.stages[i]? = some g) (holds : g.holdsPermit = true)
    (room : s.result = none → s.channel = []) : ∃ t, Step limit outcomes s t := by
  cases g with
  | waiting => cases holds
  | finished => cases holds
  | admitted =>
    by_cases cancelled : s.cancelled = true
    · exact ⟨_, .decline here cancelled⟩
    · exact ⟨_, .scan here (by simpa using cancelled)⟩
  | scanning => exact ⟨_, .scanned here⟩
  | sent => exact ⟨_, .release here⟩
  | scanned =>
    by_cases listens : s.result = none
    · obtain ⟨bound, -⟩ := List.getElem?_eq_some_iff.1 here
      rw [sound.tasks] at bound
      refine ⟨_, .send here (List.getElem?_eq_getElem bound) ?_ listens⟩
      rw [room listens]
      exact workers_pos limit
    · exact ⟨_, .lose here (Option.isSome_iff_ne_none.2 listens)⟩

/-- A run that is not over can go on. -/
theorem Sound.progress (sound : Sound outcomes s) : s.IsOver ∨ ∃ t, Step limit outcomes s t := by
  by_cases waiting : ∃ o rest, s.channel = o :: rest ∧ s.result = none
  · obtain ⟨o, rest, first, listens⟩ := waiting
    cases o with
    | ok t => exact .inr ⟨_, .receive first listens⟩
    | error message => exact .inr ⟨_, .stop first listens⟩
  have room : s.result = none → s.channel = [] := by
    intro listens
    cases first : s.channel with
    | nil => rfl
    | cons o rest => exact absurd ⟨o, rest, first, listens⟩ waiting
  by_cases done : ∀ g ∈ s.stages, g = .finished
  · by_cases listens : s.result = none
    · exact .inr ⟨_, .finish done (room listens) listens⟩
    · exact .inl ⟨Option.isSome_iff_ne_none.2 listens, done⟩
  refine .inr ?_
  simp only [not_forall] at done
  obtain ⟨g, member, busy⟩ := done
  obtain ⟨i, here⟩ := List.getElem?_of_mem member
  by_cases holds : g.holdsPermit = true
  · exact step_of_holdsPermit sound here holds room
  -- The task waits. It gives up, or takes a permit, or all permits are with tasks that can go on.
  obtain rfl : g = .waiting := by cases g <;> simp_all [Stage.holdsPermit]
  by_cases free : s.held < workers limit
  · exact ⟨_, .grant here free⟩
  · have some_ : 0 < s.held := Nat.lt_of_lt_of_le (workers_pos limit) (Nat.le_of_not_lt free)
    obtain ⟨f, holder, holds⟩ := List.countP_pos_iff.1 some_
    obtain ⟨j, there⟩ := List.getElem?_of_mem holder
    exact step_of_holdsPermit sound there holds room

/-! ## What a run comes to -/

theorem collectFrom_merge (m : Merger) (ts : List Tally) :
    collectFrom m (ts.map .ok) = (ts.foldl Merger.merge m).finish := by
  induction ts generalizing m with
  | nil => rfl
  | cons t rest ih => exact ih (m.merge t)

/-- Outcomes without a failure among them are tallies. -/
theorem exists_tallies (oks : ∀ o ∈ outcomes, ∃ t, o = .ok t) : ∃ ts : List Tally, outcomes = ts.map .ok := by
  induction outcomes with
  | nil => exact ⟨[], rfl⟩
  | cons o rest ih =>
    obtain ⟨⟨t, rfl⟩, later⟩ := List.forall_mem_cons.1 oks
    obtain ⟨ts, rfl⟩ := ih later
    exact ⟨t :: ts, rfl⟩

theorem Merges.forall_ok {ts : List Tally} (merges : Merges outcomes ts) : ∀ o ∈ outcomes, ∃ t, o = .ok t := by
  intro o member
  obtain ⟨t, -, rfl⟩ := List.mem_map.1 (merges.mem_iff.2 member)
  exact ⟨t, rfl⟩

/-- Tallies that are all there are to merge come to what merging the outcomes in order does. -/
theorem Merges.finish_eq {ts : List Tally} (merges : Merges outcomes ts) :
    (ts.foldl Merger.merge .start).finish = collect outcomes := by
  obtain ⟨us, rfl⟩ := exists_tallies merges.forall_ok
  have same : ts.Perm us := by
    have both := merges.filterMap Except.toOption
    simpa [List.filterMap_map, Function.comp_def, Except.toOption] using both
  rw [collect, collectFrom_merge]
  exact Merger.finish_perm same

/-- Without a failure the result is that of merging in order. -/
theorem Sound.result_of_oks {r : Except Failure Aggregate} (sound : Sound outcomes s) (result : s.result = some r)
    (oks : ∀ o ∈ outcomes, ∃ t, o = .ok t) : r = collect outcomes := by
  rcases sound.ended r result with ⟨-, message, member, -⟩ | ⟨-, ts, merges, rfl⟩
  · obtain ⟨t, ⟨⟩⟩ := oks _ member
  · exact merges.finish_eq

/-- The result is the failure of a task if there is one. -/
theorem Sound.result_of_error {r : Except Failure Aggregate} (sound : Sound outcomes s) (result : s.result = some r)
    (fails : ∃ message, .error message ∈ outcomes) :
    ∃ message, .error message ∈ outcomes ∧ r = .error (.scan message) := by
  rcases sound.ended r result with ⟨-, met⟩ | ⟨-, ts, merges, -⟩
  · exact met
  · obtain ⟨message, member⟩ := fails
    obtain ⟨t, ⟨⟩⟩ := merges.forall_ok _ member

theorem collect_eq_noFlows_iff (oks : ∀ o ∈ outcomes, ∃ t, o = .ok t) :
    collect outcomes = .error .noFlows ↔ ∀ t : Tally, .ok t ∈ outcomes → t.isEmpty = true := by
  obtain ⟨ts, rfl⟩ := exists_tallies oks
  rw [collect, collectFrom_merge, Merger.finish_eq_noFlows_iff]
  simp

theorem mem_outcomes_error {α : Type} {tasks : List α} {scan : α → Except Failure Tally} {message : String} :
    .error message ∈ tasks.map (fun x => outcomeOf (scan x)) ↔
      ∃ x ∈ tasks, ∃ f, scan x = .error f ∧ f.message = message := by
  simp only [List.mem_map]
  refine exists_congr fun x => and_congr_right fun _ => ?_
  cases scan x <;> simp [outcomeOf]

theorem mem_outcomes_ok {α : Type} {tasks : List α} {scan : α → Except Failure Tally} {t : Tally} :
    .ok t ∈ tasks.map (fun x => outcomeOf (scan x)) ↔ ∃ x ∈ tasks, scan x = .ok t := by
  simp only [List.mem_map]
  refine exists_congr fun x => and_congr_right fun _ => ?_
  cases scan x <;> simp [outcomeOf]

/-- Whatever the number of workers and the order of their steps: a run ends after a bounded number of steps. Its
result is that of merging the tallies of all tasks in order, or the failure of one of the tasks that fail. -/
theorem run_collects {α : Type} (limit : Nat) (tasks : List α) (scan : α → Except Failure Tally) {n : Nat} {s : State}
    (run : Run limit (tasks.map fun x => outcomeOf (scan x)) n (.start tasks.length) s) :
    n ≤ 6 * tasks.length + 1 ∧
    (s.IsOver ∨ ∃ t, Step limit (tasks.map fun x => outcomeOf (scan x)) s t) ∧
    ∀ r, s.result = some r →
      ((∀ x ∈ tasks, ∃ t, scan x = .ok t) →
        r = collect (tasks.map fun x => outcomeOf (scan x)) ∧
        (r = .error .noFlows ↔ ∀ x ∈ tasks, ∀ t, scan x = .ok t → t.isEmpty = true)) ∧
      ((∃ x ∈ tasks, ∃ f, scan x = .error f) → ∃ x ∈ tasks, ∃ f, scan x = .error f ∧ r = .error (.scan f.message)) := by
  have sound : Sound (tasks.map fun x => outcomeOf (scan x)) s := by
    have started := sound_start (tasks.map fun x => outcomeOf (scan x))
    rw [List.length_map] at started
    exact run.sound started
  refine ⟨?_, sound.progress, fun r result => ⟨fun oks => ?_, ?_⟩⟩
  · have bound := run.left_le
    rw [left_start] at bound
    omega
  · have fine : ∀ o ∈ tasks.map (fun x => outcomeOf (scan x)), ∃ t, o = .ok t := by
      intro o member
      obtain ⟨x, here, rfl⟩ := List.mem_map.1 member
      obtain ⟨t, scanned⟩ := oks x here
      exact ⟨t, by rw [scanned, outcomeOf]⟩
    obtain rfl := sound.result_of_oks result fine
    refine ⟨rfl, ?_⟩
    rw [collect_eq_noFlows_iff fine]
    simp only [mem_outcomes_ok]
    exact ⟨fun empty x here t scanned => empty t ⟨x, here, scanned⟩,
      fun empty t ⟨x, here, scanned⟩ => empty x here t scanned⟩
  · rintro ⟨x, here, f, failed⟩
    obtain ⟨_, member, same⟩ := sound.result_of_error result ⟨_, mem_outcomes_error.2 ⟨x, here, f, failed, rfl⟩⟩
    obtain ⟨y, there, g, fails, rfl⟩ := mem_outcomes_error.1 member
    exact ⟨y, there, g, fails, same⟩

/-- Two tasks, the second of which fails. -/
def twoScans : List (Except Failure Tally) := [.ok .empty, .error (.corrupt "cut short")]

/-- Two workers: the second fails while the first still scans, so what the first sends is lost. -/
theorem run_collects_second_fails :
    ∃ s, Run 2 (twoScans.map fun x => outcomeOf (id x)) 11 (.start twoScans.length) s ∧ s.IsOver ∧
      11 ≤ 6 * twoScans.length + 1 ∧
      ∃ x ∈ twoScans, ∃ f, id x = .error f ∧ s.result = some (.error (.scan f.message)) := by
  have run : Run 2 (twoScans.map fun x => outcomeOf (id x)) 11 (.start twoScans.length)
      ⟨[.finished, .finished], [], .start, some (.error (.scan (Failure.corrupt "cut short").message)), true⟩ :=
    .step (.step (.step (.step (.step (.step (.step (.step (.step (.step (.step (.refl _)
      (.grant (i := 0) rfl (by decide))) (.grant (i := 1) rfl (by decide)))
      (.scan (i := 0) rfl rfl)) (.scan (i := 1) rfl rfl)) (.scanned (i := 1) rfl))
      (.send (i := 1) rfl rfl (by decide) rfl)) (.stop rfl rfl)) (.release (i := 1) rfl))
      (.scanned (i := 0) rfl)) (.lose (i := 0) rfl rfl)) (.release (i := 0) rfl)
  obtain ⟨bound, -, comes⟩ := run_collects 2 twoScans id run
  obtain ⟨-, failed⟩ := comes _ rfl
  obtain ⟨x, member, f, fails, same⟩ := failed ⟨_, by simp [twoScans], .corrupt "cut short", rfl⟩
  exact ⟨_, run, ⟨rfl, by simp⟩, bound, x, member, f, fails, congrArg some same⟩

end FlowArchive.Pipeline
