import FlowArchive.Proofs.InOrder

/-!
# Writes that do not get in the way of other calls

What a write to one interface leaves, whether it succeeds or fails, lies in the directory of the interface and in the
ledger. So every call that comes later and writes to other interfaces, cleans or lists comes to what it would have come
to without the write, except that it finds a summary where there would have been none. This takes an interface that has
no name of the ledger: as long as a directory is in the place of the lock, nobody gets to change the summary.
-/

namespace FlowArchive

open FlowArchive.Path (IsName)
open Disk (AgreesOn)

namespace Archive

variable {a : Archive} {token : LockToken} {b c d e : Disk} {l m : Location} {i j : String} {t now cutoff : Timestamp}
  {fs : List Flow} {s : Summary}

/-! ## Two disks that differ in one interface -/

/-- Two disks with an archive in order differ in the directory of one interface and in the ledger at most, and there is
a summary on the second if there is one on the first. -/
structure Besides (a : Archive) (l : Location) (j : String) (d e : Disk) : Prop where
  order : a.InOrder l d
  order' : a.InOrder l e
  agrees : AgreesOn (IsApart l j) d e
  summary : d.summaryAt l ≠ none → e.summaryAt l ≠ none

/-- What a write leaves differs so from what was before. -/
theorem besides_writeBlock {outcome : Except Failure Descriptor} (order : a.InOrder l d) (ordinary : j ∉ ledgerNames)
    (wrote : (a.writeBlock token j t fs).runOn d = (outcome, e)) : a.Besides l j d e := by
  obtain ⟨agrees, leaves⟩ := order.writeBlock ordinary wrote
  exact ⟨order, leaves.order, agrees, leaves.summaryAt_ne_none⟩

/-- A failure is the want of a summary. -/
def IsWant (a : Archive) (x : Failure) : Prop :=
  x = .absent .summaryToUpdate ∨ x = .absent (.summary a.summaryPath.text)

/-- An outcome is as good as another: they are the same, or there was no summary and now there is. -/
inductive AsGood (a : Archive) : Except Failure Unit → Except Failure Unit → Prop where
  | same (outcome : Except Failure Unit) : AsGood a outcome outcome
  | found {x : Failure} (want : a.IsWant x) : AsGood a (.error x) (.ok ())

/-! ## One call -/

/-- An action does on two such disks what is as good, and the disks still differ so. -/
structure Repeats (a : Archive) (l : Location) (j : String) (t : Action Unit) (d e : Disk) : Prop where
  good : a.AsGood (t.runOn d).1 (t.runOn e).1
  same : d.summaryAt l ≠ none → (t.runOn e).1 = (t.runOn d).1
  kept : d.summaryAt l ≠ none → (t.runOn d).2.summaryAt l ≠ none
  besides : a.Besides l j (t.runOn d).2 (t.runOn e).2

theorem Besides.repeats {t : Action Unit} {o o' : Except Failure Unit} (besides : a.Besides l j d e)
    (ran : t.runOn d = (o, b)) (ran' : t.runOn e = (o', c)) (good : a.AsGood o o')
    (same : d.summaryAt l ≠ none → o' = o) (agrees : AgreesOn (IsApart l j) b c) (leaves : a.Leaves l d o b)
    (leaves' : a.Leaves l e o' c) : a.Repeats l j t d e := by
  have summary : b.summaryAt l ≠ none → c.summaryAt l ≠ none := by
    intro some
    have before := leaves.summary
    have after := leaves'.summary
    cases good with
    | found want => exact after
    | same =>
      cases o with
      | ok => exact after
      | error x =>
        rw [before] at some
        exact leaves'.summaryAt_ne_none (besides.summary some)
  constructor
  case good =>
    rw [ran, ran']
    exact good
  case same =>
    rw [ran, ran']
    exact same
  case kept =>
    rw [ran]
    exact leaves.summaryAt_ne_none
  case besides =>
    rw [ran, ran']
    exact ⟨leaves.order, leaves'.order, agrees, summary⟩

theorem isApart_of_below (other : i ≠ j) (ordinary : i ∉ ledgerNames) (below : l ++ [i] <+: m) : IsApart l j m := by
  obtain ⟨rest, rfl⟩ := below
  rw [List.append_assoc, List.singleton_append]
  refine ⟨fun below => other (Disk.eq_of_below below).symm, ?_⟩
  rintro ⟨y, listed, same⟩
  have here : l ++ [i] <+: l ++ [y] := ⟨rest, by simpa using same⟩
  exact ordinary (Disk.eq_of_below here ▸ listed)

theorem Besides.enterBlock (besides : a.Besides l j d e) (name : IsName i) (other : i ≠ j)
    (ordinary : i ∉ ledgerNames) (t : Timestamp) (fs : List Flow) :
    ((a.enterBlock i t fs).runOn e).1 = ((a.enterBlock i t fs).runOn d).1 ∧
      AgreesOn (IsApart l j) ((a.enterBlock i t fs).runOn d).2 ((a.enterBlock i t fs).runOn e).2 := by
  have name' := isName_partition t.startOfDay
  have apart : ∀ m, l ++ [i] <+: m → IsApart l j m := fun m => isApart_of_below other ordinary
  have leads := besides.order.leads
  have leads' := besides.order'.leads
  have agreed : (e.makeDirectories (a.partitionPath i t)).1 = (d.makeDirectories (a.partitionPath i t)).1 ∧
      AgreesOn (IsApart l j) (d.makeDirectories (a.partitionPath i t)).2 (e.makeDirectories (a.partitionPath i t)).2 :=
    besides.agrees.makeDirectories leads leads' name name' (apart _ List.prefix_rfl) (apart _ (List.prefix_append _ _))
  rw [runOn_enterBlock, runOn_enterBlock]
  cases made : d.makeDirectories (a.partitionPath i t) with
  | mk answer b =>
    cases made' : e.makeDirectories (a.partitionPath i t) with
    | mk answer' c =>
      rw [made, made'] at agreed
      obtain ⟨rfl, agrees⟩ := agreed
      cases answer' with
      | error f => exact ⟨rfl, agrees⟩
      | ok =>
        have inside := Disk.leadsTo_of_makeDirectories leads name name' made
        have inside' := Disk.leadsTo_of_makeDirectories leads' name name' made'
        exact (asks_fileBlock a i t fs).agrees agrees inside inside' fun y => apart _ (by simp)

theorem Besides.writeBlock (besides : a.Besides l j d e) (other : i ≠ j) (ordinary : i ∉ ledgerNames)
    (token : LockToken) (t : Timestamp) (fs : List Flow) :
    ((a.writeBlock token i t fs).runOn e).1 = ((a.writeBlock token i t fs).runOn d).1 ∧
      AgreesOn (IsApart l j) ((a.writeBlock token i t fs).runOn d).2 ((a.writeBlock token i t fs).runOn e).2 := by
  by_cases valid : isInterfaceName i = true
  · have name := isName_of_isInterfaceName valid
    have agreed := besides.enterBlock name other ordinary t fs
    rw [runOn_writeBlock valid, runOn_writeBlock valid, Action.runOn_bind, Action.runOn_bind]
    cases entered : (a.enterBlock i t fs).runOn d with
    | mk first b =>
      cases entered' : (a.enterBlock i t fs).runOn e with
      | mk first' c =>
        have order := (besides.order.enterBlock name ordinary entered).1
        have order' := (besides.order'.enterBlock name ordinary entered').1
        rw [entered, entered'] at agreed
        obtain ⟨rfl, agrees⟩ := agreed
        cases first' with
        | error x => exact ⟨rfl, agrees⟩
        | ok =>
          obtain ⟨b', added, after, -⟩ := order.addBlock token i (describe t fs)
          obtain ⟨c', added', after', -⟩ := order'.addBlock token i (describe t fs)
          simp only [added, added']
          exact ⟨trivial, agrees.after (after.mono fun m => And.right) (after'.mono fun m => And.right)⟩
  · rw [Archive.writeBlock, if_neg valid]
    exact ⟨rfl, besides.agrees⟩

/-- Other interfaces are swept alike. -/
theorem Besides.isSwept_iff {day : Timestamp} (besides : a.Besides l j d e) (other : i ≠ j) :
    e.IsSwept l day i m ↔ d.IsSwept l day i m := by
  refine Disk.isSwept_congr ?_ fun n => ?_
  · by_cases listed : i ∈ ledgerNames
    · exact iff_of_false (besides.order'.free i listed) (besides.order.free i listed)
    · rw [besides.agrees.same _ (isApart_of_below other listed List.prefix_rfl)]
  · exact besides.agrees.same _
      ⟨fun below => other (Disk.eq_of_below below).symm, not_isLedgerFile l i n []⟩

theorem Besides.swept {names names' : List String} {report report' : SweepReport} {day : Timestamp}
    (besides : a.Besides l j d e) (swept : a.Swept l day names report d b)
    (swept' : a.Swept l day names' report' e c) : AgreesOn (IsApart l j) b c := by
  refine ⟨swept'.loses.home.trans (besides.agrees.home.trans swept.loses.home.symm), fun m apart => ?_⟩
  have alike : (∃ i, e.IsSwept l day i m) ↔ ∃ i, d.IsSwept l day i m := by
    refine exists_congr fun i => ?_
    by_cases here : i = j
    · subst here
      exact iff_of_false (fun lost => apart.1 lost.below) fun lost => apart.1 lost.below
    · exact besides.isSwept_iff here
  by_cases lost : ∃ i, d.IsSwept l day i m
  · rw [swept.loses.away m lost, swept'.loses.away m (alike.2 lost)]
  · rw [swept.loses.rest m lost, swept'.loses.rest m (alike.not.2 lost), besides.agrees.same m apart]

/-- What a cleaning comes to in an archive that is in order. -/
def outcomeOfCleaning (a : Archive) (old : Option Summary) : Except Failure Unit :=
  (a.outcomeOfChange (summaryChange ⟨[]⟩) old).map fun _ => ()

theorem outcomeOfChange_report (report : SweepReport) (old : Option Summary) :
    (a.outcomeOfChange (summaryChange report) old).map (fun _ => ()) = a.outcomeOfCleaning old := by
  unfold outcomeOfCleaning outcomeOfChange
  cases old <;> cases Disk.joinFault? a.root lockName <;> cases Disk.joinFault? a.root summaryDraftName <;> rfl

theorem InOrder.clean_quiet (order : a.InOrder l d) (past : cutoff < now) (token : LockToken) :
    ∃ names report c e, a.Swept l cutoff.startOfDay names report d c ∧
      (a.clean token now cutoff).quiet.runOn d = (a.outcomeOfCleaning (d.summaryAt l), e) ∧
      AgreesOn (fun m => ¬ IsLedgerFile l m) c e ∧ a.Leaves l d (a.outcomeOfCleaning (d.summaryAt l)) e := by
  obtain ⟨names, report, c, e, swept, ran, after, leaves⟩ := order.clean past token
  have told := leaves.map fun _ => ()
  rw [outcomeOfChange_report] at told
  refine ⟨names, report, c, e, swept, ?_, after, told⟩
  rw [Action.runOn_quiet, ran, ← outcomeOfChange_report report]
  cases a.outcomeOfChange (summaryChange report) (d.summaryAt l) <;> rfl

/-- What needs a summary and nothing else goes well with any, and so no worse on the second disk. -/
theorem Besides.good (besides : a.Besides l j d e) (outcome : Option Summary → Except Failure Unit)
    (needs : a.HasLedger → (∀ s, outcome (some s) = .ok ()) ∧ ∃ x, a.IsWant x ∧ outcome none = .error x) :
    a.AsGood (outcome (d.summaryAt l)) (outcome (e.summaryAt l)) ∧
      (d.summaryAt l ≠ none → outcome (e.summaryAt l) = outcome (d.summaryAt l)) := by
  have kept := besides.summary
  cases after : e.summaryAt l with
  | none =>
    cases before : d.summaryAt l with
    | none => exact ⟨.same _, fun _ => rfl⟩
    | some s => exact absurd after (kept (by simp [before]))
  | some s =>
    obtain ⟨ok, x, want, wanting⟩ := needs (besides.order'.hasLedger (by simp [after]))
    cases before : d.summaryAt l with
    | none =>
      rw [ok, wanting]
      exact ⟨.found want, fun some => absurd rfl some⟩
    | some s' =>
      rw [ok, ok]
      exact ⟨.same _, fun _ => rfl⟩

theorem HasLedger.needs_cleaning (has : a.HasLedger) : (∀ s, a.outcomeOfCleaning (some s) = .ok ()) ∧
    ∃ x, a.IsWant x ∧ a.outcomeOfCleaning none = .error x := by
  unfold outcomeOfCleaning
  simp only [has.outcomeOfChange]
  exact ⟨fun s => rfl, _, .inl rfl, rfl⟩

theorem HasLedger.needs_reading (has : a.HasLedger) : (∀ s, (a.outcomeOfReading (some s)).map (fun _ => ()) = .ok ()) ∧
    ∃ x, a.IsWant x ∧ (a.outcomeOfReading none).map (fun _ => ()) = .error x := by
  simp only [has.outcomeOfReading]
  exact ⟨fun s => rfl, _, .inr rfl, rfl⟩

/-! ## Calls -/

/-- A call that comes after a write. -/
inductive LaterCall where
  | write (token : LockToken) (interface : String) (time : Timestamp) (flows : List Flow)
  | clean (token : LockToken) (now cutoff : Timestamp)
  /-- Lists the interfaces of the summary. -/
  | list
  /-- Lists the directories of interfaces. -/
  | names

namespace LaterCall

/-- Does a call, of which only is told whether it succeeded or how it failed. -/
def action (a : Archive) : LaterCall → Action Unit
  | write token interface time flows => (a.writeBlock token interface time flows).quiet
  | clean token now cutoff => (a.clean token now cutoff).quiet
  | list => a.listInterfaces.quiet
  | names => a.interfaceNames.quiet

/-- A call writes neither to a certain interface nor to one with a name of the ledger. -/
def Spares (j : String) : LaterCall → Prop
  | write _ i _ _ => i ≠ j ∧ i ∉ ledgerNames
  | _ => True

theorem repeats {call : LaterCall} (spares : call.Spares j) (besides : a.Besides l j d e) :
    a.Repeats l j (call.action a) d e := by
  have order := besides.order
  have order' := besides.order'
  cases call with
  | write token i t fs =>
    obtain ⟨other, ordinary⟩ := spares
    obtain ⟨same, agrees⟩ := besides.writeBlock other ordinary token t fs
    cases ran : (a.writeBlock token i t fs).runOn d with
    | mk outcome b =>
      cases ran' : (a.writeBlock token i t fs).runOn e with
      | mk outcome' c =>
        rw [ran, ran'] at same agrees
        obtain rfl : outcome' = outcome := same
        have leaves := (order.writeBlock ordinary ran).2.map fun _ => ()
        have leaves' := (order'.writeBlock ordinary ran').2.map fun _ => ()
        have told := Action.runOn_quiet (a.writeBlock token i t fs) d
        have told' := Action.runOn_quiet (a.writeBlock token i t fs) e
        rw [ran] at told
        rw [ran'] at told'
        exact besides.repeats told told' (.same _) (fun _ => rfl) agrees leaves leaves'
  | clean token now cutoff =>
    by_cases past : cutoff < now
    · obtain ⟨_, _, b, d', swept, ran, after, leaves⟩ := order.clean_quiet past token
      obtain ⟨_, _, c, e', swept', ran', after', leaves'⟩ := order'.clean_quiet past token
      obtain ⟨good, same⟩ := besides.good a.outcomeOfCleaning HasLedger.needs_cleaning
      have agrees := (besides.swept swept swept').after (after.mono fun m => And.right) (after'.mono fun m => And.right)
      exact besides.repeats ran ran' good same agrees leaves leaves'
    · have refused : ∀ c : Disk, (a.clean token now cutoff).quiet.runOn c =
          (.error (.refused (.cutoffNotPast cutoff now)), c) := by
        intro c
        rw [Action.runOn_quiet, Archive.clean, if_neg past]
        rfl
      exact besides.repeats (refused d) (refused e) (.same _) (fun _ => rfl) besides.agrees ⟨order, rfl⟩ ⟨order', rfl⟩
  | list =>
    obtain ⟨ran, leaves⟩ := order.listInterfaces
    obtain ⟨ran', leaves'⟩ := order'.listInterfaces
    obtain ⟨good, same⟩ := besides.good (fun old => (a.outcomeOfReading old).map fun _ => ()) HasLedger.needs_reading
    exact besides.repeats ran ran' good same besides.agrees leaves leaves'
  | names =>
    have ran := order.interfaceNames
    have ran' := order'.interfaceNames
    constructor
    case good =>
      rw [action, ran, ran']
      exact .same _
    case same => exact fun _ => by rw [action, ran, ran']
    case kept =>
      rw [action, ran]
      exact id
    case besides =>
      rw [action, ran, ran']
      exact besides

end LaterCall

/-- What calls come to, one after the other. -/
def outcomes (a : Archive) : Disk → List LaterCall → List (Except Failure Unit)
  | _, [] => []
  | d, call :: rest => ((call.action a).runOn d).1 :: outcomes a ((call.action a).runOn d).2 rest

theorem Besides.outcomes {calls : List LaterCall} (spare : ∀ call ∈ calls, call.Spares j)
    (besides : a.Besides l j d e) : List.Forall₂ a.AsGood (a.outcomes d calls) (a.outcomes e calls) ∧
      (d.summaryAt l ≠ none → a.outcomes e calls = a.outcomes d calls) := by
  induction calls generalizing d e with
  | nil => exact ⟨.nil, fun _ => rfl⟩
  | cons call rest ih =>
    have first := LaterCall.repeats (spare call List.mem_cons_self) besides
    obtain ⟨good, same⟩ := ih (fun later listed => spare later (List.mem_cons_of_mem _ listed)) first.besides
    refine ⟨.cons first.good good, fun some => ?_⟩
    rw [Archive.outcomes, Archive.outcomes, first.same some, same (first.kept some)]

/-! ## A write and what comes after -/

/-- A write has left an archive in which all goes on as if it had not been. -/
structure Harmless (a : Archive) (j : String) (d : Disk) (outcome : Except Failure Descriptor) (e : Disk) : Prop where
  /-- There is a summary, which can be read and changed. -/
  summary : (∃ s, a.readSummary.runOn d = (.ok s, d)) ∨ (∃ x, outcome = .ok x) →
    ∃ s, a.readSummary.runOn e = (.ok s, e) ∧
      ∀ token change, ((a.modify token change).runOn e).1 = change (some s)
  /-- If the write has failed, looks at the summary and changes come to what they would have. -/
  failed : ∀ x, outcome = .error x → (a.readSummary.runOn e).1 = (a.readSummary.runOn d).1 ∧
    ∀ token change, ((a.modify token change).runOn e).1 = ((a.modify token change).runOn d).1
  /-- Other calls succeed or fail as they would have, but for those that have been short of a summary. -/
  later : ∀ calls : List LaterCall, (∀ call ∈ calls, call.Spares j) →
    List.Forall₂ a.AsGood (a.outcomes d calls) (a.outcomes e calls)
  same : (∃ s, a.readSummary.runOn d = (.ok s, d)) → ∀ calls : List LaterCall, (∀ call ∈ calls, call.Spares j) →
    a.outcomes e calls = a.outcomes d calls

theorem InOrder.summaryAt_ne_none (order : a.InOrder l d) (read : a.readSummary.runOn d = (.ok s, d)) :
    d.summaryAt l ≠ none := by
  intro absent
  have outcome := congrArg Prod.fst (order.readSummary.symm.trans read)
  rw [absent] at outcome
  unfold outcomeOfReading at outcome
  split at outcome
  · cases outcome
  · cases outcome
  next some => cases some

/-- After any history, a write to an interface without a name of the ledger does no harm, whatever it comes to. -/
theorem write_harmless {book : List Written} {outcome : Except Failure Descriptor} (fresh : a.IsFresh l b)
    (present : (a.checkExists.runOn b).1 = .ok ()) (history : a.History b book d) (ordinary : j ∉ ledgerNames)
    (wrote : (a.writeBlock token j t fs).runOn d = (outcome, e)) : a.Harmless j d outcome e := by
  have order := history.inOrder fresh present
  have besides := besides_writeBlock order ordinary wrote
  have leaves := (order.writeBlock ordinary wrote).2
  have order' := leaves.order
  constructor
  case summary =>
    intro cause
    have there : e.summaryAt l ≠ none := by
      rcases cause with ⟨s, read⟩ | ⟨x, rfl⟩
      · exact besides.summary (order.summaryAt_ne_none read)
      · exact leaves.summary
    obtain ⟨s, stored⟩ := Option.ne_none_iff_exists'.1 there
    have has := order'.hasLedger there
    refine ⟨s, ?_, fun token change => ?_⟩
    · rw [order'.readSummary, has.outcomeOfReading, stored]
      rfl
    · obtain ⟨c, ran, -⟩ := order'.modify token change
      rw [ran, has.outcomeOfChange, stored]
  case failed =>
    rintro x rfl
    have same : e.summaryAt l = d.summaryAt l := leaves.summary
    refine ⟨by rw [order'.readSummary, order.readSummary, same], fun token change => ?_⟩
    obtain ⟨c, ran, -⟩ := order.modify token change
    obtain ⟨c', ran', -⟩ := order'.modify token change
    rw [ran, ran', same]
  case later => exact fun calls spare => (besides.outcomes spare).1
  case same => exact fun ⟨s, read⟩ calls spare => (besides.outcomes spare).2 (order.summaryAt_ne_none read)

/-- A block of another interface on a disk that has one already. -/
theorem write_harmless_second_interface :
    newArchive.Harmless "eth1" writtenDisk (.ok (describe 6 [newFlow]))
      ((newArchive.writeBlock [] "eth1" 6 [newFlow]).runOn writtenDisk).2 := by
  have second : (newArchive.writeBlock [] "eth1" 6 [newFlow]).runOn writtenDisk =
      (.ok (describe 6 [newFlow]), _) := Prod.ext (Action.toOption_eq_some.1 (by decide +kernel)) rfl
  exact write_harmless isFresh_newDisk present_newDisk (.wrote .start writeBlock_newDisk) (by decide +kernel) second

/-! ### An interface with the name of the lock -/

/-- The written disk after a write to an interface with the name of the lock. -/
def blockedDisk : Disk := ((newArchive.writeBlock [] lockName 6 [newFlow]).runOn writtenDisk).2

/-- The name passes for that of an interface, and after the write the summary cannot be changed: a write to another
interface, which would have succeeded, waits for the lock in vain. -/
theorem write_in_place_of_lock :
    isInterfaceName lockName = true ∧
    (∃ book, newArchive.History newDisk book writtenDisk) ∧
    (newArchive.writeBlock [] lockName 6 [newFlow]).runOn writtenDisk =
      (.error (.lockTimeout (.ofSeconds 1)), blockedDisk) ∧
    (∀ token change, (newArchive.modify token change).runOn blockedDisk =
      (.error (.lockTimeout (.ofSeconds 1)), blockedDisk)) ∧
    ((newArchive.writeBlock [] "eth1" 7 [newFlow]).runOn writtenDisk).1 = .ok (describe 7 [newFlow]) ∧
    ((newArchive.writeBlock [] "eth1" 7 [newFlow]).runOn blockedDisk).1 = .error (.lockTimeout (.ofSeconds 1)) := by
  have leads : blockedDisk.LeadsTo newArchive.root ["data"] :=
    ⟨Action.toOption_eq_some.1 (by decide +kernel), by decide +kernel⟩
  refine ⟨by decide +kernel, ⟨_, .wrote .start writeBlock_newDisk⟩, Prod.ext (by decide +kernel) rfl, ?_, ?_,
    by decide +kernel⟩
  · exact modify_of_blocked leads (by decide +kernel) (by decide +kernel)
  · exact Action.toOption_eq_some.1 (by decide +kernel)

end Archive

end FlowArchive
