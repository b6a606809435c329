import FlowArchive.Proofs.Answers
import FlowArchive.Proofs.LedgerTurns
import FlowArchive.Proofs.TakingTurns

/-!
# Changes of the ledger come one after the other

However the turns of programs fall that change the summary or look at it, one of them at a time has the lock. What the
summary comes to is what the changes that succeeded make of it one after the other, in the order in which they had the
lock, and nothing else is ever seen of it.
-/

namespace FlowArchive.Archive

open Disk (Answers Edits Event makers owners snoc_ne_nil)
open Function (update)

variable {a : Archive} {l : Location} {uses : List LedgerUse} {events : List Event} {event : Event} {c d e : Disk}
  {phase : Nat → Phase} {holder : Option Nat} {i j : Nat} {mayRefuse : Request → Prop} {change : LedgerChange}
  {s s' : Stage}

/-! ## Turns -/

namespace Phase

theorem outcomeOf_read (a : Archive) (d : Disk) : outcomeOf a (d.read a.summaryPath) = (a.readSummary.runOn d).1 := by
  have ran : (a.readSummary.runOn d).1 = ((looking.script a).run d).1 := rfl
  rw [ran, script_eq]
  rfl

theorem outcomeOf_write (a : Archive) (s : Summary) : outcomeOf a (.ok s.write) = .ok s := by
  rw [outcomeOf, Summary.read_write]
  rfl

end Phase

/-- What holds between two turns. -/
structure Serves (a : Archive) (l : Location) (uses : List LedgerUse) (d : Disk) (events : List Event) (c : Disk)
    (phase : Nat → Phase) (holder : Option Nat) : Prop where
  leads : c.LeadsTo a.root l
  guards : Guards a l events c phase holder
  tells : Tells a l uses d events c phase

/-- A turn of a program that leaves the summary as it is, and what others know of it. -/
structure Spares (a : Archive) (l : Location) (phase : Nat → Phase) (i : Nat) (c e : Disk) : Prop where
  leads : e.LeadsTo a.root l
  summary : e.at? (l ++ [summaryName]) = c.at? (l ++ [summaryName])
  others : ∀ j, j ≠ i → (phase j).Knows a l e

namespace Serves

theorem spares_same (serves : Serves a l uses d events c phase holder) (same : e = c) : Spares a l phase i c e := by
  subst same
  exact ⟨serves.leads, rfl, fun j _ => serves.tells.knows j⟩

/-- While a program has the lock, or is about to get it, no other knows anything that it could spoil. -/
theorem spares_edits (serves : Serves a l uses d events c phase holder) (own : holder = none ∨ holder = some i)
    (edits : Edits (IsBesideSummary l) c e) : Spares a l phase i c e where
  leads := edits.leadsTo_iff.2 serves.leads
  summary := edits.rest _ (not_isBesideSummary_summary l)
  others j other := by
    refine Phase.knows_of_not_inside ?_ a l e
    rw [serves.guards.inside]
    rcases own with rfl | rfl
    · simp
    · simp [other.symm]

/-- A program goes on without taking the lock or giving it back. -/
theorem goesOn (serves : Serves a l uses d events c phase holder) (here : phase i = .changing change s)
    (spares : Spares a l phase i c e) (lock : holder ≠ none → e.at? (l ++ [lockName]) ≠ none)
    (quiet : event.maker? a.lockPath = none) (quiet' : event.remover? a.lockPath = none)
    (inside : (Phase.changing change s').Inside ↔ (Phase.changing change s).Inside)
    (waits : (Phase.changing change s').Waits → (Phase.changing change s).Waits)
    (made : (Phase.changing change s').made? = (Phase.changing change s).made?)
    (knows : (Phase.changing change s').Knows a l e)
    (read : ∀ i answer, event = ⟨i, .read a.summaryPath, answer⟩ →
      answer = d.read a.summaryPath ∨ ∃ j s, (phase j).made? = some s ∧ answer = .ok s.write) :
    Serves a l uses d (events ++ [event]) e (update phase i (.changing change s')) holder := by
  rw [← here] at inside waits made
  refine ⟨spares.leads, serves.guards.stay quiet quiet' inside waits lock, ?_⟩
  refine serves.tells.stay ?_ made spares.summary (.inl quiet) spares.others knows read nofun
  rw [here]
  rfl

theorem passes (serves : Serves a l uses d events c phase holder) (here : phase i = .changing change s) (same : e = c)
    (quiet : event.maker? a.lockPath = none) (quiet' : event.remover? a.lockPath = none)
    (inside : (Phase.changing change s').Inside ↔ (Phase.changing change s).Inside)
    (waits : (Phase.changing change s').Waits → (Phase.changing change s).Waits)
    (made : (Phase.changing change s').made? = (Phase.changing change s).made?)
    (knows : (Phase.changing change s').Knows a l c)
    (read : ∀ i answer, event = ⟨i, .read a.summaryPath, answer⟩ →
      answer = d.read a.summaryPath ∨ ∃ j s, (phase j).made? = some s ∧ answer = .ok s.write) :
    Serves a l uses d (events ++ [event]) e (update phase i (.changing change s')) holder := by
  subst same
  exact serves.goesOn here (serves.spares_same rfl) serves.guards.lock quiet quiet' inside waits made knows read

/-- The lock is made where nobody has it. -/
theorem takes (serves : Serves a l uses d events c phase holder) {n : Nat}
    (here : phase i = .changing change (.trying n)) (created : c.create a.lockPath = (.ok (), e)) :
    Serves a l uses d (events ++ [⟨i, .create a.lockPath, .ok ()⟩]) e (update phase i (.changing change .marking))
      (some i) := by
  have edits := Disk.edits_create (leadsInto_root (M := IsBesideSummary l) serves.leads isName_lock (.inr rfl))
  rw [← lockPath, created] at edits
  obtain ⟨-, absent, made⟩ := Disk.create_join serves.leads isName_lock created
  -- Who has the lock has a lock file, and there was none.
  have free : holder = none := by
    by_contra held
    exact serves.guards.lock held absent
  subst free
  have spares := serves.spares_edits (i := i) (.inl rfl) edits
  have waits : (phase i).Waits := by
    rw [here]
    trivial
  have idle : (phase i).made? = none := by
    rw [here]
    rfl
  refine ⟨spares.leads, serves.guards.take (if_pos rfl) waits trivial ?lock, ?_⟩
  case lock =>
    rw [made, Disk.at?_put _ (snoc_ne_nil l lockName), if_pos rfl]
    simp
  refine serves.tells.stay ?_ idle.symm spares.summary (.inr ⟨if_pos rfl, idle⟩) spares.others trivial ?_ ?_
  · rw [here]
    rfl
  · intro j answer same
    cases same
  · intro outcome looked
    cases looked

/-- The lock is given back. -/
theorem givesBack (serves : Serves a l uses d events c phase (some i)) {outcome : Except Failure Summary}
    (here : phase i = .changing change (.releasing outcome)) (removed : c.remove a.lockPath = (.ok (), e)) :
    Serves a l uses d (events ++ [⟨i, .remove a.lockPath, .ok ()⟩]) e
      (update phase i (.changing change (.ended false outcome))) none := by
  have edits := Disk.edits_remove (leadsInto_root (M := IsBesideSummary l) serves.leads isName_lock (.inr rfl))
  rw [← lockPath, removed] at edits
  have spares := serves.spares_edits (.inr rfl) edits
  refine ⟨spares.leads, serves.guards.giveBack rfl (if_pos rfl) id id, ?_⟩
  refine serves.tells.stay ?_ ?_ spares.summary (.inl rfl) spares.others trivial ?_ ?_
  · rw [here]
    rfl
  · rw [here]
    rfl
  · intro j answer same
    cases same
  · intro outcome looked
    cases looked

/-- The summary that a program has drafted takes the place of the one that it was made of. -/
theorem places (serves : Serves a l uses d events c phase (some i)) (use : uses[i]? = some (.change change))
    {new : Summary} (here : phase i = .changing change (.placing new))
    (renamed : c.rename a.summaryDraftPath a.summaryPath = (.ok (), e)) :
    Serves a l uses d (events ++ [⟨i, .rename a.summaryDraftPath a.summaryPath, .ok ()⟩]) e
      (update phase i (.changing change (.releasing (.ok new)))) (some i) := by
  have edits := Disk.edits_rename
    (leadsInto_root (M := (· ≠ l ++ [lockName])) serves.leads isName_summaryDraft (draft_ne_lock l))
    (leadsInto_root (M := (· ≠ l ++ [lockName])) serves.leads isName_summary (summary_ne_lock l))
  change Edits _ _ (c.rename a.summaryDraftPath a.summaryPath).2 at edits
  rw [renamed] at edits
  obtain ⟨fine, -, content, source, moved⟩ := Disk.rename_join serves.leads isName_summaryDraft isName_summary renamed
  have drafted := serves.tells.knows i
  rw [here] at drafted
  obtain rfl : new.write = content := by
    change c.at? (l ++ [summaryDraftName]) = _ at source
    rw [drafted.2] at source
    cases source
    rfl
  have stored : e.at? (l ++ [summaryName]) = some (.file new.write) := by
    rw [moved, Disk.at?_renamed, if_pos rfl]
  have lock : e.at? (l ++ [lockName]) ≠ none := by
    rw [edits.rest _ fun apart => apart rfl]
    exact serves.guards.lock (Option.some_ne_none i)
  refine ⟨edits.leadsTo_iff.2 serves.leads, ?_, ?_⟩
  · refine serves.guards.stay rfl rfl ?_ ?_ fun _ => lock
    · rw [here]
      exact Iff.rfl
    · rw [here]
      exact id
  · exact serves.tells.commit serves.guards here use fine stored rfl fun j answer same => by cases same

/-- What is read of the summary is the first one, or one that a program has put in place. -/
theorem read_summary (serves : Serves a l uses d events c phase holder) (first : d.LeadsTo a.root l) :
    c.read a.summaryPath = d.read a.summaryPath ∨
      ∃ j s, (phase j).made? = some s ∧ c.read a.summaryPath = .ok s.write := by
  have found : ∀ {b : Disk}, b.LeadsTo a.root l → b.find a.summaryPath = _ := fun leads =>
    Disk.find_join leads isName_summary
  rcases serves.tells.stored with ⟨-, same⟩ | ⟨i, s, made, stored⟩
  · refine .inl (Disk.read_congr ?_)
    rw [found serves.leads, found first, same]
  · cases fine : Disk.joinFault? a.root summaryName with
    | none => exact .inr ⟨i, s, made, Disk.read_join serves.leads isName_summary fine stored⟩
    | some f =>
      refine .inl (Disk.read_congr ?_)
      rw [found serves.leads, found first, fine]

theorem loads (serves : Serves a l uses d events c phase holder) (first : d.LeadsTo a.root l)
    (here : phase i = .changing change .loading) :
    Serves a l uses d (events ++ [⟨i, .read a.summaryPath, c.read a.summaryPath⟩]) c
      (update phase i (.changing change
        (match change.change ((c.read a.summaryPath).toOption.bind Summary.read?) with
          | .ok new => .drafting new
          | .error x => .releasing (.error x)))) holder := by
  have onward {s' : Stage} (inside : (Phase.changing change s').Inside) (waits : ¬ (Phase.changing change s').Waits)
      (idle : (Phase.changing change s').made? = none) (knows : (Phase.changing change s').Knows a l c) :
      Serves a l uses d (events ++ [⟨i, .read a.summaryPath, c.read a.summaryPath⟩]) c
        (update phase i (.changing change s')) holder := by
    refine serves.passes here rfl rfl rfl ⟨fun _ => trivial, fun _ => inside⟩ (fun waits' => absurd waits' waits) idle
      knows fun j answer same => ?_
    cases same
    exact serves.read_summary first
  split
  next new computed =>
    refine onward trivial id rfl fun fine => ?_
    rw [← Archive.read_summary serves.leads fine]
    exact computed
  next x _ => exact onward trivial id rfl trivial

theorem drafts (serves : Serves a l uses d events c phase (some i)) {new : Summary}
    (here : phase i = .changing change (.drafting new)) {answer : Except Fault Unit}
    (answers : c.Answers mayRefuse (.write a.summaryDraftPath new.write) answer e) :
    Serves a l uses d (events ++ [⟨i, .write a.summaryDraftPath new.write, answer⟩]) e
      (update phase i (.changing change (Stage.orRelease (.syncing new) answer))) (some i) := by
  have into : c.LeadsInto (· = l ++ [summaryDraftName]) a.summaryDraftPath :=
    leadsInto_root serves.leads isName_summaryDraft rfl
  have edits := answers.edits (M := (· = l ++ [summaryDraftName])) into
  have spares := serves.spares_edits (.inr rfl) (edits.mono fun _ => .inl)
  have lock : e.at? (l ++ [lockName]) ≠ none := by
    rw [edits.rest _ (draft_ne_lock l).symm]
    exact serves.guards.lock (Option.some_ne_none i)
  cases answer with
  | error f => exact serves.goesOn here spares (fun _ => lock) rfl rfl Iff.rfl id rfl trivial nofun
  | ok =>
    refine serves.goesOn here spares (fun _ => lock) rfl rfl Iff.rfl id rfl ⟨?_, ?_⟩ nofun
    · have knows := serves.tells.knows i
      rw [here] at knows
      rw [Disk.summaryAt, Disk.content?_congr spares.summary]
      exact knows
    · obtain ⟨-, -, wrote⟩ := Disk.change_join serves.leads isName_summaryDraft answers.ran_of_ok
      rw [wrote, Disk.at?_put _ (snoc_ne_nil l summaryDraftName), if_pos rfl]

/-- A turn of a program that changes the summary. -/
theorem step_changing (serves : Serves a l uses d events c phase holder) (first : d.LeadsTo a.root l)
    (readable : ∀ p, ¬ mayRefuse (.read p)) (use : uses[i]? = some (.change change))
    (here : phase i = .changing change s) {r : Request} {next : Except Fault r.Answer → Stage}
    {answer : Except Fault r.Answer} (turn : s.turn (change.archive a) change = .asks r next)
    (answers : c.Answers mayRefuse r answer e) : ∃ holder', Serves a l uses d (events ++ [⟨i, r, answer⟩]) e
      (update phase i (.changing change (next answer))) holder' := by
  have held (inside : (Phase.changing change s).Inside) : holder = some i :=
    (serves.guards.inside i).1 (by rw [here]; exact inside)
  have knows := serves.tells.knows i
  rw [here] at knows
  cases s with
  | trying n =>
    cases turn
    cases answer with
    | ok => exact ⟨some i, serves.takes here answers.ran_of_ok⟩
    | error f =>
      have same := answers.unchanged trivial
      refine ⟨holder, ?_⟩
      cases f with
      | present =>
        cases n with
        | zero => exact serves.passes here same rfl rfl Iff.rfl (fun _ => trivial) rfl trivial nofun
        | succ n => exact serves.passes here same rfl rfl Iff.rfl id rfl trivial nofun
      | _ => exact serves.passes here same rfl rfl Iff.rfl (fun _ => trivial) rfl trivial nofun
  | pausing n =>
    cases turn
    exact ⟨holder, serves.passes here (answers.same trivial fun _ => rfl) rfl rfl Iff.rfl id rfl trivial nofun⟩
  | marking =>
    cases turn
    obtain rfl := held trivial
    have edits := answers.edits (leadsInto_root (M := IsBesideSummary l) serves.leads isName_lock (.inr rfl))
    have lock := answers.at?_append_ne_none (serves.guards.lock (Option.some_ne_none i))
    refine ⟨some i, ?_⟩
    cases answer <;>
      exact serves.goesOn here (serves.spares_edits (.inr rfl) edits) (fun _ => lock) rfl rfl Iff.rfl id rfl trivial
        nofun
  | loading =>
    cases turn
    obtain rfl := answers.same trivial fun _ => rfl
    have read : answer = e.read a.summaryPath := by
      cases answers with
      | performed ran => exact (congrArg Prod.fst ran).symm
      | refused f allowed remains => exact (readable _ allowed).elim
    subst read
    exact ⟨holder, serves.loads first here⟩
  | drafting new =>
    cases turn
    obtain rfl := held trivial
    exact ⟨some i, serves.drafts here answers⟩
  | syncing new =>
    cases turn
    have same := answers.same trivial fun _ => rfl
    refine ⟨holder, ?_⟩
    cases answer with
    | error f => exact serves.passes here same rfl rfl Iff.rfl id rfl trivial nofun
    | ok => exact serves.passes here same rfl rfl Iff.rfl id rfl knows nofun
  | placing new =>
    cases turn
    obtain rfl := held trivial
    refine ⟨some i, ?_⟩
    cases answer with
    | error f => exact serves.passes here (answers.unchanged trivial) rfl rfl Iff.rfl id rfl trivial nofun
    | ok => exact serves.places use here answers.ran_of_ok
  | releasing outcome =>
    cases turn
    obtain rfl := held trivial
    cases answer with
    | error f => exact ⟨some i, serves.passes here (answers.unchanged trivial) rfl rfl Iff.rfl id rfl trivial nofun⟩
    | ok => exact ⟨none, serves.givesBack here answers.ran_of_ok⟩
  | ended locked outcome => cases turn

/-- A look at the summary. -/
theorem looks (serves : Serves a l uses d events c phase holder) (first : d.LeadsTo a.root l)
    (here : phase i = .looking) :
    Serves a l uses d (events ++ [⟨i, .read a.summaryPath, c.read a.summaryPath⟩]) c
      (update phase i (.looked (Phase.outcomeOf a (c.read a.summaryPath)))) holder := by
  have seen := serves.read_summary first
  refine ⟨serves.leads, serves.guards.stay rfl rfl ?_ ?_ serves.guards.lock, serves.tells.stay ?_ ?_ rfl (.inl rfl)
    (fun j _ => serves.tells.knows j) trivial (fun j answer same => ?_) fun outcome looked => ?_⟩
  · rw [here]
    exact Iff.rfl
  · rw [here]
    exact id
  · rw [here]
    rfl
  · rw [here]
    rfl
  · cases same
    exact seen
  · cases looked
    rcases seen with same | ⟨j, s, made, same⟩
    · rw [same]
      exact .inl (Phase.outcomeOf_read a d)
    · rw [same]
      exact .inr ⟨j, s, made, Phase.outcomeOf_write a s⟩

/-- One turn. -/
theorem step (serves : Serves a l uses d events c phase holder) (first : d.LeadsTo a.root l)
    (readable : ∀ p, ¬ mayRefuse (.read p)) {u : LedgerUse} (use : uses[i]? = some u) {r : Request}
    {next : Except Fault r.Answer → Phase} {answer : Except Fault r.Answer} (turn : (phase i).turn a = .asks r next)
    (answers : c.Answers mayRefuse r answer e) :
    ∃ holder', Serves a l uses d (events ++ [⟨i, r, answer⟩]) e (update phase i (next answer)) holder' := by
  have same := serves.tells.use i u use
  cases here : phase i with
  | changing change s =>
    rw [here] at same turn
    subst same
    dsimp only [Phase.turn] at turn
    split at turn
    · cases turn
    next asks =>
      cases turn
      exact serves.step_changing first readable use here asks answers
  | looking =>
    rw [here] at turn
    cases turn
    cases answers with
    | performed ran =>
      cases ran
      exact ⟨holder, serves.looks first here⟩
    | refused f allowed remains => exact (readable _ allowed).elim
  | looked outcome =>
    rw [here] at turn
    cases turn

end Serves

/-! ## Runs -/

theorem serves_start (leads : d.LeadsTo a.root l) (uses : List LedgerUse) :
    Serves a l uses d [] d (fun i => .start (uses.getD i .look)) none := by
  have outside (u : LedgerUse) : ¬ (Phase.start u).Inside := by cases u <;> exact id
  have idle (u : LedgerUse) : (Phase.start u).made? = none := by cases u <;> rfl
  refine ⟨leads, ?_, ?_⟩
  · constructor
    case owned => rfl
    case inside => exact fun i => ⟨fun inside => (outside _ inside).elim, nofun⟩
    case lock => exact fun held => (held rfl).elim
    case latest => exact nofun
    case distinct => exact List.nodup_nil
    case fresh => exact fun _ _ => List.not_mem_nil
  · constructor
    case use =>
      intro i u use
      rw [Phase.use_start, List.getD_eq_getElem?_getD, use]
      rfl
    case locked =>
      intro i s made
      rw [idle] at made
      cases made
    case composes => rfl
    case stored => exact .inl ⟨fun i => idle _, rfl⟩
    case knows => exact fun i => Phase.knows_of_not_inside (outside _) a l d
    case reads => exact nofun
    case looked =>
      intro i outcome looked
      cases u : uses.getD i .look <;> rw [u] at looked <;> cases looked

/-- After any number of turns the programs are somewhere in their tables. -/
theorem exists_serves (leads : d.LeadsTo a.root l) (readable : ∀ p, ¬ mayRefuse (.read p))
    {t : Disk.Shared (Except Failure Summary)}
    (trace : Disk.Shared.Traces mayRefuse ⟨d, uses.map (·.script a)⟩ events t) :
    ∃ phase holder, Serves a l uses d events t.disk phase holder ∧
      (∀ i, t.scripts[i]? = uses[i]?.map fun _ => (phase i).script a) ∧ ∀ i, uses[i]? = none → phase i = .looking := by
  induction trace with
  | start =>
    refine ⟨_, _, serves_start leads uses, fun i => ?_, fun i absent => ?_⟩
    · rw [List.getElem?_map]
      cases use : uses[i]? with
      | none => rfl
      | some u => simp only [Option.map_some, List.getD_eq_getElem?_getD, use, Option.getD_some, Phase.script_start]
    · rw [List.getD_eq_getElem?_getD, absent]
      rfl
  | @turn events t i r next answer e before here answers ih =>
    obtain ⟨phase, holder, serves, scripts, absent⟩ := ih
    rw [scripts] at here
    obtain ⟨u, use, asks⟩ := Option.map_eq_some_iff.1 here
    obtain ⟨next', turn, same⟩ := Phase.turn_of_ask a asks
    obtain ⟨holder', serves'⟩ := serves.step leads readable use turn answers
    refine ⟨_, holder', serves', fun j => ?_, fun j none => ?_⟩
    · have bound : i < t.scripts.length := by
        by_contra beyond
        rw [← scripts, List.getElem?_eq_none (Nat.le_of_not_lt beyond)] at here
        cases here
      by_cases own : i = j
      · subst own
        rw [List.getElem?_set_self bound, use, Option.map_some, Function.update_self, same]
      · rw [List.getElem?_set_ne own, Function.update_of_ne (Ne.symm own), scripts]
    · have other : j ≠ i := by
        rintro rfl
        rw [use] at none
        cases none
      rw [Function.update_of_ne other]
      exact absent j none

/-! ## What the calls come to -/

/-- A call has changed the summary to another. -/
def Changed (uses : List LedgerUse) (values : List (Except Failure Summary)) (i : Nat) (s : Summary) : Prop :=
  (∃ c, uses[i]? = some (.change c)) ∧ values[i]? = some (.ok s)

/-- The calls of several programs came one after the other. -/
structure Serialized (a : Archive) (l : Location) (uses : List LedgerUse) (values : List (Except Failure Summary))
    (events : List Event) (d e : Disk) : Prop where
  /-- No call has had the lock twice, -/
  distinct : (makers a.lockPath events).Nodup
  /-- and a call that succeeded has had it. -/
  locked : ∀ i s, Changed uses values i s → i ∈ makers a.lockPath events
  /-- In the order in which they had the lock, the calls that succeeded lead from the first summary to the last. -/
  composes : Composes uses (fun i => values[i]?.bind Except.toOption) (d.summaryAt l) (makers a.lockPath events)
    (e.summaryAt l)
  /-- If no call succeeded, the summary is untouched. -/
  untouched : (∀ i s, ¬ Changed uses values i s) → e.at? (l ++ [summaryName]) = d.at? (l ++ [summaryName])
  /-- Whoever read the summary read the first one, or one that a call has made. -/
  reads : ∀ i answer, ⟨i, .read a.summaryPath, answer⟩ ∈ events →
    answer = d.read a.summaryPath ∨ ∃ j s, Changed uses values j s ∧ answer = .ok s.write
  /-- So a look at the summary comes to what it does at first, or to what a call has made. -/
  looks : ∀ i : Nat, uses[i]? = some .look →
    values[i]? = some (a.readSummary.runOn d).1 ∨ ∃ j s, Changed uses values j s ∧ values[i]? = some (.ok s)


theorem Phase.eq_of_script_done {p : Phase} {v : Except Failure Summary} (done : p.script a = .done v) :
    (∃ c locked, p = .changing c (.ended locked v)) ∨ p = .looked v := by
  rw [script_eq] at done
  cases p with
  | changing c s =>
    cases s with
    | ended locked outcome =>
      cases done
      exact .inl ⟨c, locked, rfl⟩
    | _ => cases done
  | looking => cases done
  | looked outcome =>
    cases done
    exact .inr rfl

/-- Programs that change the summary and look at it, however their turns fall and whatever is refused but looks: one at
a time has the lock, and once all have ended, the changes that succeeded have been made one after the other. -/
theorem ledger_serializable (leads : d.LeadsTo a.root l) (readable : ∀ p, ¬ mayRefuse (.read p))
    {t : Disk.Shared (Except Failure Summary)}
    (trace : Disk.Shared.Traces mayRefuse ⟨d, uses.map (·.script a)⟩ events t) :
    (owners a.lockPath events).length ≤ 1 ∧
      ∀ values, t.EndsWith values → Serialized a l uses values events d t.disk := by
  obtain ⟨phase, holder, ⟨-, guards, tells⟩, scripts, absent⟩ := exists_serves leads readable trace
  refine ⟨?_, fun values ended => ?_⟩
  · rw [guards.owned]
    cases holder <;> simp
  have value {i : Nat} {u : LedgerUse} (use : uses[i]? = some u) : ∃ v, values[i]? = some v ∧
      ((∃ c locked, phase i = .changing c (.ended locked v)) ∨ phase i = .looked v) := by
    have script := scripts i
    rw [ended, use, List.getElem?_map] at script
    obtain ⟨v, here, done⟩ := Option.map_eq_some_iff.1 script
    exact ⟨v, here, Phase.eq_of_script_done done.symm⟩
  have changed (i : Nat) (s : Summary) : (phase i).made? = some s ↔ Changed uses values i s := by
    constructor
    · intro made
      cases use : uses[i]? with
      | none =>
        rw [absent i use] at made
        cases made
      | some u =>
        obtain ⟨v, here, ⟨c, locked, phase_eq⟩ | phase_eq⟩ := value use
        · have own := tells.use i u use
          rw [phase_eq] at made own
          subst own
          cases v with
          | error x => cases made
          | ok s' =>
            cases made
            exact ⟨⟨c, use⟩, here⟩
        · rw [phase_eq] at made
          cases made
    · rintro ⟨⟨c, use⟩, here⟩
      obtain ⟨v, here', ⟨c, locked, phase_eq⟩ | phase_eq⟩ := value use
      · rw [here] at here'
        cases here'
        rw [phase_eq]
        rfl
      · have own := tells.use i _ use
        rw [phase_eq] at own
        cases own
  constructor
  case distinct => exact guards.distinct
  case locked => exact fun i s found => tells.locked i s ((changed i s).2 found)
  case composes =>
    refine tells.composes.congr fun i member => ?_
    have had : ¬ (phase i).Waits := fun waits => guards.fresh i waits member
    cases use : uses[i]? with
    | none =>
      rw [absent i use] at had
      exact (had trivial).elim
    | some u =>
      obtain ⟨v, here, ⟨c, locked, phase_eq⟩ | phase_eq⟩ := value use
      · rw [here, phase_eq]
        rfl
      · rw [phase_eq] at had
        exact (had trivial).elim
  case untouched =>
    intro none
    rcases tells.stored with ⟨-, same⟩ | ⟨i, s, made, -⟩
    · exact same
    · exact (none i s ((changed i s).1 made)).elim
  case reads =>
    intro i answer member
    simp only [← changed]
    exact tells.reads i answer member
  case looks =>
    intro i use
    obtain ⟨v, here, ⟨c, locked, phase_eq⟩ | phase_eq⟩ := value use
    · have own := tells.use i _ use
      rw [phase_eq] at own
      cases own
    · simp only [← changed, here, Option.some.injEq]
      exact tells.looked i v phase_eq

/-- The summary after a block of one interface, and after a block of another. -/
def firstSummary : Summary := .append none "eth0" (describe 5 [newFlow])
def secondSummary : Summary := .append (some firstSummary) "eth1" (describe 6 [newFlow])

/-- Two programs that each tell the summary of a block, one whose change fails, and one that looks at the summary. -/
def busyUses : List LedgerUse :=
  [.change ⟨[], .ofSeconds 1, fun old => .ok (.append old "eth0" (describe 5 [newFlow]))⟩,
    .change ⟨[], .ofSeconds 1, fun old => .ok (.append old "eth1" (describe 6 [newFlow]))⟩,
    .change ⟨[], .ofSeconds 1, fun _ => .error .unreadableSummary⟩, .look]

def busyValues : List (Except Failure Summary) :=
  [.ok firstSummary, .ok secondSummary, .error .unreadableSummary, .ok firstSummary]

/-- The second program finds the lock taken, and the last looks while it is. -/
def busyTurns : List Nat := [0, 1, 0, 0, 1, 0, 0, 0, 3, 0, 2, 2, 2, 2, 1, 1, 1, 1, 1, 1, 1]

theorem ledger_serializable_busy : ∃ events e,
    Disk.Shared.Traces (fun _ => False) ⟨newDisk, busyUses.map (·.script newArchive)⟩ events e ∧
      e.EndsWith busyValues ∧ (owners newArchive.lockPath events).length ≤ 1 ∧
      Serialized newArchive ["data"] busyUses busyValues events newDisk e.disk := by
  have ends : Disk.Shared.MayEnd ⟨newDisk, busyUses.map (·.script newArchive)⟩ busyValues fun _ => True :=
    Disk.Shared.mayEnd_of_follow busyTurns (by decide +kernel)
  obtain ⟨e, reaches, ended, -⟩ := ends
  obtain ⟨events, trace⟩ : ∃ events, Disk.Shared.Traces (fun _ => False) _ events e :=
    Disk.Shared.exists_trace .start reaches
  obtain ⟨alone, serialized⟩ := ledger_serializable isFresh_newDisk.leads (fun _ => id) trace
  exact ⟨events, e, trace, ended, alone, serialized busyValues ended⟩

end FlowArchive.Archive
