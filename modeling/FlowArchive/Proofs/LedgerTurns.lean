import FlowArchive.Proofs.LedgerSteps

/-!
# What a turn at the ledger keeps

Programs that change the summary or look at it have their turns in any order. Two things are carried from one turn to
the next: one program at a time has the lock, and the summary is what those that have put one in place made of the
first, in the order in which they had the lock.
-/

namespace FlowArchive.Archive

open Disk (Event makers owners)

/-- What calls make of a summary, in an order. A call that made no summary is passed over; one that made a summary made
it of the one before. -/
def Composes (uses : List LedgerUse) (made : Nat → Option Summary) :
    (old : Option Summary) → (order : List Nat) → (new : Option Summary) → Prop
  | old, [], new => new = old
  | old, i :: rest, new =>
    match made i with
    | none => Composes uses made old rest new
    | some s => (∃ c, uses[i]? = some (.change c) ∧ c.change old = .ok s) ∧ Composes uses made (some s) rest new

namespace Composes

variable {uses : List LedgerUse} {made made' : Nat → Option Summary} {old mid new : Option Summary}
  {order more : List Nat} {i : Nat} {s : Summary}

theorem cons_iff : Composes uses made old (i :: order) new ↔
    match made i with
    | none => Composes uses made old order new
    | some s => (∃ c, uses[i]? = some (.change c) ∧ c.change old = .ok s) ∧ Composes uses made (some s) order new :=
  Iff.rfl

theorem congr (same : ∀ i ∈ order, made' i = made i) (composes : Composes uses made old order new) :
    Composes uses made' old order new := by
  induction order generalizing old with
  | nil => exact composes
  | cons i rest ih =>
    have later : ∀ j ∈ rest, made' j = made j := fun j member => same j (List.mem_cons_of_mem _ member)
    rw [cons_iff] at composes ⊢
    rw [same i List.mem_cons_self]
    split at composes
    · exact ih later composes
    · exact ⟨composes.1, ih later composes.2⟩

theorem append_iff : Composes uses made old (order ++ more) new ↔
    ∃ mid, Composes uses made old order mid ∧ Composes uses made mid more new := by
  induction order generalizing old with
  | nil => exact ⟨fun composes => ⟨old, rfl, composes⟩, fun ⟨_, same, composes⟩ => same ▸ composes⟩
  | cons i rest ih =>
    rw [List.cons_append]
    simp only [cons_iff]
    cases made i with
    | none => exact ih
    | some s => simp only [ih, and_assoc, exists_and_left]

/-- A call that made no summary may be the last. -/
theorem snoc (composes : Composes uses made old order new) (idle : made i = none) :
    Composes uses made old (order ++ [i]) new := by
  refine append_iff.2 ⟨new, composes, ?_⟩
  rw [cons_iff, idle]
  rfl

/-- The call that had the lock last makes a summary of the one that all before it have led to. -/
theorem commit (composes : Composes uses made old (order ++ [i]) mid) (fresh : i ∉ order) (idle : made i = none)
    {c : LedgerChange} (use : uses[i]? = some (.change c)) (changed : c.change mid = .ok s) :
    Composes uses (Function.update made i (some s)) old (order ++ [i]) (some s) := by
  obtain ⟨mid', first, last⟩ := append_iff.1 composes
  rw [cons_iff, idle] at last
  obtain rfl : mid = mid' := last
  refine append_iff.2 ⟨mid, first.congr fun j member => Function.update_of_ne ?_ _ _, ?_⟩
  · rintro rfl
    exact fresh member
  · rw [cons_iff, Function.update_self]
    exact ⟨⟨c, use, changed⟩, rfl⟩

end Composes

/-! ## Phases -/

namespace Phase

/-- A program that may have taken the lock and not given it back. -/
def Inside : Phase → Prop
  | changing _ (.trying _) | changing _ (.pausing _) | changing _ (.ended false _) | looking | looked _ => False
  | _ => True

/-- A program that has not had the lock. -/
def Waits : Phase → Prop
  | changing _ (.trying _) | changing _ (.pausing _) | looking | looked _ => True
  | _ => False

/-- The summary that a program has put in place. -/
def made? : Phase → Option Summary
  | changing _ (.releasing outcome) | changing _ (.ended _ outcome) => outcome.toOption
  | _ => none

/-- What a program knows of the summary and its draft while it has the lock. -/
def Knows (a : Archive) (l : Location) (d : Disk) : Phase → Prop
  | changing c (.drafting new) => Disk.joinFault? a.root summaryName = none → c.change (d.summaryAt l) = .ok new
  | changing c (.syncing new) | changing c (.placing new) =>
    (Disk.joinFault? a.root summaryName = none → c.change (d.summaryAt l) = .ok new) ∧
      d.at? (l ++ [summaryDraftName]) = some (.file new.write)
  | _ => True

theorem knows_of_not_inside {p : Phase} (outside : ¬ p.Inside) (a : Archive) (l : Location) (d : Disk) :
    p.Knows a l d := by
  unfold Knows
  split <;> first | exact trivial | exact (outside trivial).elim

theorem not_waits_of_inside {p : Phase} (inside : p.Inside) : ¬ p.Waits := by
  unfold Waits
  split
  all_goals first | exact id | exact fun _ => inside

end Phase

/-! ## What every turn keeps -/

variable {a : Archive} {l : Location} {uses : List LedgerUse} {events : List Event} {event : Event} {c d e : Disk}
  {phase : Nat → Phase} {holder : Option Nat} {i : Nat} {p : Phase} {mayRefuse : Request → Prop}

/-- One program at most has the lock, and it is the last that took it. -/
structure Guards (a : Archive) (l : Location) (events : List Event) (c : Disk) (phase : Nat → Phase)
    (holder : Option Nat) : Prop where
  owned : owners a.lockPath events = holder.toList
  inside : ∀ i, (phase i).Inside ↔ holder = some i
  lock : holder ≠ none → c.at? (l ++ [lockName]) ≠ none
  latest : ∀ i, holder = some i → ∃ earlier, makers a.lockPath events = earlier ++ [i]
  distinct : (makers a.lockPath events).Nodup
  fresh : ∀ i, (phase i).Waits → i ∉ makers a.lockPath events

theorem makers_snoc (lock : Path) (events : List Event) (event : Event) :
    makers lock (events ++ [event]) = makers lock events ++ (event.maker? lock).toList := by
  rw [makers, List.filterMap_append, ← makers, List.filterMap_cons]
  cases event.maker? lock <;> rfl

theorem owners_snoc (lock : Path) (events : List Event) (event : Event) :
    owners lock (events ++ [event]) = event.own lock (owners lock events) := by
  rw [owners, List.foldl_append, ← owners]
  rfl

namespace Guards

open Function (forall_update_iff)

theorem makers_quiet (quiet : event.maker? a.lockPath = none) :
    makers a.lockPath (events ++ [event]) = makers a.lockPath events := by
  rw [makers_snoc, quiet]
  exact List.append_nil _

/-- A turn that neither takes the lock nor gives it back. -/
theorem stay (guards : Guards a l events c phase holder) (quiet : event.maker? a.lockPath = none)
    (quiet' : event.remover? a.lockPath = none) (inside : p.Inside ↔ (phase i).Inside)
    (waits : p.Waits → (phase i).Waits) (lock : holder ≠ none → e.at? (l ++ [lockName]) ≠ none) :
    Guards a l (events ++ [event]) e (Function.update phase i p) holder where
  owned := by
    rw [owners_snoc, Event.own, quiet, quiet']
    exact guards.owned
  inside := (forall_update_iff phase fun j p => p.Inside ↔ holder = some j).2
    ⟨inside.trans (guards.inside i), fun j _ => guards.inside j⟩
  lock := lock
  latest := by
    rw [makers_quiet quiet]
    exact guards.latest
  distinct := by
    rw [makers_quiet quiet]
    exact guards.distinct
  fresh := by
    rw [makers_quiet quiet]
    exact (forall_update_iff phase fun j p => p.Waits → j ∉ makers a.lockPath events).2
      ⟨fun waits' => guards.fresh i (waits waits'), fun j _ => guards.fresh j⟩

/-- A turn that takes the lock, which nobody has. -/
theorem take (guards : Guards a l events c phase none) (takes : event.maker? a.lockPath = some i)
    (waited : (phase i).Waits) (inside : p.Inside) (lock : e.at? (l ++ [lockName]) ≠ none) :
    Guards a l (events ++ [event]) e (Function.update phase i p) (some i) := by
  have made : makers a.lockPath (events ++ [event]) = makers a.lockPath events ++ [i] := by
    rw [makers_snoc, takes]
    rfl
  have unseen := guards.fresh i waited
  constructor
  case owned =>
    rw [owners_snoc, Event.own, takes, guards.owned]
    rfl
  case inside =>
    refine (forall_update_iff phase fun j p => p.Inside ↔ some i = some j).2 ⟨by simp [inside], fun j other => ?_⟩
    rw [guards.inside]
    simp [other.symm]
  case lock => exact fun _ => lock
  case latest =>
    rintro j ⟨⟩
    exact ⟨_, made⟩
  case distinct =>
    rw [made, List.nodup_append]
    refine ⟨guards.distinct, List.nodup_singleton i, fun j member k last same => ?_⟩
    rw [List.mem_singleton.1 last] at same
    exact unseen (same ▸ member)
  case fresh =>
    rw [made]
    refine (forall_update_iff phase fun j p => p.Waits → j ∉ makers a.lockPath events ++ [i]).2
      ⟨fun waits => absurd waits (Phase.not_waits_of_inside inside), fun j other waits member => ?_⟩
    rcases List.mem_append.1 member with earlier | last
    · exact guards.fresh j waits earlier
    · exact other (List.mem_singleton.1 last)

/-- A turn that gives the lock back. -/
theorem giveBack (guards : Guards a l events c phase (some i)) (quiet : event.maker? a.lockPath = none)
    (gives : event.remover? a.lockPath = some i) (outside : ¬ p.Inside) (waits : ¬ p.Waits) :
    Guards a l (events ++ [event]) e (Function.update phase i p) none where
  owned := by
    rw [owners_snoc, Event.own, quiet, gives, guards.owned]
    simp
  inside := by
    refine (forall_update_iff phase fun j p => p.Inside ↔ none = some j).2 ⟨by simp [outside], fun j other => ?_⟩
    rw [guards.inside]
    simp [other.symm]
  lock held := absurd rfl held
  latest j held := by cases held
  distinct := by
    rw [makers_quiet quiet]
    exact guards.distinct
  fresh := by
    rw [makers_quiet quiet]
    exact (forall_update_iff phase fun j p => p.Waits → j ∉ makers a.lockPath events).2
      ⟨fun waits' => absurd waits' waits, fun j _ => guards.fresh j⟩

end Guards

/-- The summary is what the calls that have put one in place made of the first, in the order in which they had the
lock. -/
structure Tells (a : Archive) (l : Location) (uses : List LedgerUse) (d : Disk) (events : List Event) (c : Disk)
    (phase : Nat → Phase) : Prop where
  use : ∀ i u, uses[i]? = some u → (phase i).use = u
  locked : ∀ i s, (phase i).made? = some s → i ∈ makers a.lockPath events
  composes : Composes uses (fun i => (phase i).made?) (d.summaryAt l) (makers a.lockPath events) (c.summaryAt l)
  stored : (∀ i, (phase i).made? = none) ∧ c.at? (l ++ [summaryName]) = d.at? (l ++ [summaryName]) ∨
    ∃ i s, (phase i).made? = some s ∧ c.at? (l ++ [summaryName]) = some (.file s.write)
  knows : ∀ i, (phase i).Knows a l c
  reads : ∀ i answer, ⟨i, .read a.summaryPath, answer⟩ ∈ events →
    answer = d.read a.summaryPath ∨ ∃ j s, (phase j).made? = some s ∧ answer = .ok s.write
  looked : ∀ i outcome, phase i = .looked outcome →
    outcome = (a.readSummary.runOn d).1 ∨ ∃ j s, (phase j).made? = some s ∧ outcome = .ok s

namespace Tells

open Function (forall_update_iff)

theorem made_update (made : ∀ s, (phase i).made? = some s → p.made? = some s) {j : Nat} {s : Summary}
    (before : (phase j).made? = some s) : (Function.update phase i p j).made? = some s :=
  (forall_update_iff phase fun j p => ∀ s, (phase j).made? = some s → p.made? = some s).2
    ⟨made, fun _ _ _ => id⟩ j s before

/-- A turn that puts no summary in place. -/
theorem stay (tells : Tells a l uses d events c phase) (use : p.use = (phase i).use)
    (made : p.made? = (phase i).made?) (summary : e.at? (l ++ [summaryName]) = c.at? (l ++ [summaryName]))
    (taken : event.maker? a.lockPath = none ∨ event.maker? a.lockPath = some i ∧ (phase i).made? = none)
    (others : ∀ j, j ≠ i → (phase j).Knows a l e) (knows : p.Knows a l e)
    (read : ∀ i answer, event = ⟨i, .read a.summaryPath, answer⟩ →
      answer = d.read a.summaryPath ∨ ∃ j s, (phase j).made? = some s ∧ answer = .ok s.write)
    (looked : ∀ outcome, p = .looked outcome →
      outcome = (a.readSummary.runOn d).1 ∨ ∃ j s, (phase j).made? = some s ∧ outcome = .ok s) :
    Tells a l uses d (events ++ [event]) e (Function.update phase i p) := by
  have same : ∀ j, (Function.update phase i p j).made? = (phase j).made? :=
    (forall_update_iff phase fun j p => p.made? = (phase j).made?).2 ⟨made, fun _ _ => rfl⟩
  have stored : e.summaryAt l = c.summaryAt l := by
    rw [Disk.summaryAt, Disk.summaryAt, Disk.content?_congr summary]
  constructor
  case use =>
    refine (forall_update_iff phase fun j p => ∀ u, uses[j]? = some u → p.use = u).2 ⟨?_, fun j _ => tells.use j⟩
    rw [use]
    exact tells.use i
  case locked =>
    intro j s found
    rw [same] at found
    rw [makers_snoc]
    exact List.mem_append_left _ (tells.locked j s found)
  case composes =>
    simp only [same, stored]
    rcases taken with quiet | ⟨takes, idle⟩
    · rw [Guards.makers_quiet quiet]
      exact tells.composes
    · rw [makers_snoc, takes]
      exact tells.composes.snoc idle
  case stored =>
    simp only [same, summary]
    exact tells.stored
  case knows => exact (forall_update_iff phase fun _ p => p.Knows a l e).2 ⟨knows, others⟩
  case reads =>
    simp only [same]
    intro j answer member
    rcases List.mem_append.1 member with earlier | last
    · exact tells.reads j answer earlier
    · exact read j answer (List.mem_singleton.1 last).symm
  case looked =>
    simp only [same]
    exact (forall_update_iff phase fun _ p => ∀ outcome, p = .looked outcome → outcome = (a.readSummary.runOn d).1 ∨
      ∃ j s, (phase j).made? = some s ∧ outcome = .ok s).2 ⟨looked, fun j _ => tells.looked j⟩

/-- A turn that puts a summary in place: it was made of the one that stood there. -/
theorem commit {change : LedgerChange} {new : Summary} (tells : Tells a l uses d events c phase)
    (guards : Guards a l events c phase (some i)) (here : phase i = .changing change (.placing new))
    (use : uses[i]? = some (.change change)) (fine : Disk.joinFault? a.root summaryName = none)
    (summary : e.at? (l ++ [summaryName]) = some (.file new.write)) (quiet : event.maker? a.lockPath = none)
    (apart : ∀ i answer, event ≠ ⟨i, .read a.summaryPath, answer⟩) :
    Tells a l uses d (events ++ [event]) e
      (Function.update phase i (.changing change (.releasing (.ok new)))) := by
  have idle : (phase i).made? = none := by
    rw [here]
    rfl
  have still : ∀ {j s}, (phase j).made? = some s →
      (Function.update phase i (.changing change (.releasing (.ok new))) j).made? = some s :=
    made_update fun s found => by rw [idle] at found; cases found
  obtain ⟨earlier, last⟩ := guards.latest i rfl
  have fresh : i ∉ earlier := by
    have distinct := guards.distinct
    rw [last, List.nodup_append] at distinct
    exact fun member => distinct.2.2 i member i (List.mem_singleton_self i) rfl
  constructor
  case use =>
    refine (forall_update_iff phase fun j p => ∀ u, uses[j]? = some u → p.use = u).2
      ⟨fun u found => ?_, fun j _ => tells.use j⟩
    rw [use] at found
    cases found
    rfl
  case locked =>
    rw [Guards.makers_quiet quiet]
    refine (forall_update_iff phase fun j p => ∀ s, p.made? = some s → j ∈ makers a.lockPath events).2
      ⟨fun _ _ => ?_, fun j _ => tells.locked j⟩
    rw [last]
    exact List.mem_append_right _ (List.mem_singleton_self i)
  case composes =>
    have changed := tells.knows i
    rw [here] at changed
    have composes := tells.composes
    rw [last] at composes
    have stored : e.summaryAt l = some new := summaryAt_of_written summary
    have made : (fun j => (Function.update phase i (.changing change (.releasing (.ok new))) j).made?) =
        Function.update (fun j => (phase j).made?) i (some new) := Function.comp_update Phase.made? phase i _
    rw [Guards.makers_quiet quiet, last, stored, made]
    exact composes.commit fresh idle use (changed.1 fine)
  case stored =>
    refine .inr ⟨i, new, ?_, summary⟩
    rw [Function.update_self]
    rfl
  case knows =>
    refine (forall_update_iff phase fun _ p => p.Knows a l e).2 ⟨trivial, fun j other => ?_⟩
    refine Phase.knows_of_not_inside ?_ a l e
    rw [guards.inside]
    simp [other.symm]
  case reads =>
    intro j answer member
    rcases List.mem_append.1 member with earlier | last
    · rcases tells.reads j answer earlier with first | ⟨k, s, found, same⟩
      · exact .inl first
      · exact .inr ⟨k, s, still found, same⟩
    · exact absurd (List.mem_singleton.1 last).symm (apart j answer)
  case looked =>
    refine (forall_update_iff phase fun _ p => ∀ outcome, p = .looked outcome → outcome = (a.readSummary.runOn d).1 ∨
      ∃ j s, (Function.update phase i (.changing change (.releasing (.ok new))) j).made? = some s ∧
        outcome = .ok s).2 ⟨fun outcome looks => ?_, fun j _ outcome looks => ?_⟩
    · cases looks
    · rcases tells.looked j outcome looks with first | ⟨k, s, found, same⟩
      · exact .inl first
      · exact .inr ⟨k, s, still found, same⟩

end Tells

end FlowArchive.Archive
