import FlowArchive.Proofs.Agreeing
import FlowArchive.Proofs.CleaningProgress
import FlowArchive.Proofs.TakingTurns
import FlowArchive.Query.Run

/-!
# Archives in order

An archive is in order if its ledger is free, its summary can be read, and no path of an interface or of a partition is
too long. What calls do to such an archive can be told without running them: a change of the summary comes to what the
change itself comes to, and a cleaning fails for want of a summary only. Every call leaves the archive in order, also
one that fails, as long as no directory takes a name of the ledger.
-/

namespace FlowArchive

open FlowArchive.Path (IsName)
open Disk (Edits Loses AgreesOn)

namespace Archive

variable {a : Archive} {token : LockToken} {b c d e : Disk} {l m : Location} {i j n : String} {t now cutoff : Timestamp}
  {fs : List Flow} {s : Summary} {M : Location → Prop}

structure InOrder (a : Archive) (l : Location) (d : Disk) : Prop where
  /-- The path of the archive does not lead through what is in the archive. -/
  firm : (d.emptied l).LeadsTo a.root l
  present : a.checkExists.runOn d = (.ok (), d)
  tree : d.IsTree l
  lock : d.at? (l ++ [lockName]) = none
  free : ∀ y ∈ ledgerNames, d.at? (l ++ [y]) ≠ some .directory
  readable : ∀ s, d.content? (l ++ [summaryName]) = some s →
    (Summary.read? s).isSome ∧ Disk.joinFault? a.root summaryDraftName = none
  interface : ∀ i, d.at? (l ++ [i]) = some .directory → Disk.joinFault? a.root i = none
  partition : ∀ i n, d.at? (l ++ [i, n]) = some .directory → Disk.joinFault? (a.interfacePath i) n = none

namespace InOrder

theorem leads (order : a.InOrder l d) : d.LeadsTo a.root l :=
  order.firm.mono (Disk.within_emptied d l).keepsDirectories

theorem unlocked (order : a.InOrder l d) : a.Unlocked l d :=
  ⟨order.leads, order.lock, order.free _ (by simp [ledgerNames]), order.free _ (by simp [ledgerNames])⟩

/-- A place is not in the directory of the archive. -/
def Outside (l m : Location) : Prop := ¬ (l <+: m ∧ m ≠ l)

theorem inside_of_below (below : l ++ [i] <+: m) : l <+: m ∧ m ≠ l := by
  refine ⟨(List.prefix_append _ _).trans below, ?_⟩
  rintro rfl
  have longer := below.length_le
  rw [List.length_append, List.length_singleton] at longer
  omega

theorem stays (order : a.InOrder l d) (same : AgreesOn (Outside l) d e) :
    (e.emptied l).LeadsTo a.root l ∧ a.checkExists.runOn e = (.ok (), e) := by
  have firm : (e.emptied l).LeadsTo a.root l := by
    refine order.firm.mono ⟨same.home, fun m there => ?_⟩
    rw [Disk.at?_emptied] at there ⊢
    split at there
    · cases there
    next outside =>
      rw [if_neg outside, same.same m outside]
      exact there
  have leads := firm.mono (Disk.within_emptied e l).keepsDirectories
  exact ⟨firm, checkExists_stays order.leads leads order.present⟩

/-- Without new directories, all that is left to see to is the lock and the summary. -/
theorem fewer (order : a.InOrder l d) (same : AgreesOn (Outside l) d e) (tree : e.IsTree l)
    (before : ∀ m, e.at? m = some .directory → d.at? m = some .directory) (lock : e.at? (l ++ [lockName]) = none)
    (readable : ∀ s, e.content? (l ++ [summaryName]) = some s →
      (Summary.read? s).isSome ∧ Disk.joinFault? a.root summaryDraftName = none) : a.InOrder l e := by
  obtain ⟨firm, present⟩ := order.stays same
  constructor
  case firm => exact firm
  case present => exact present
  case tree => exact tree
  case lock => exact lock
  case free => exact fun y listed there => order.free y listed (before _ there)
  case readable => exact readable
  case interface => exact fun i there => order.interface i (before _ there)
  case partition => exact fun i n there => order.partition i n (before _ there)

/-- Where nothing has changed but files that are none of the ledger, the archive is still in order. -/
theorem edits (order : a.InOrder l d) (edits : Edits M d e) (inside : ∀ m, M m → ¬ Outside l m)
    (apart : ∀ y ∈ ledgerNames, ¬ M (l ++ [y])) : a.InOrder l e := by
  have outside : AgreesOn (Outside l) d e :=
    ⟨edits.home, fun m outside => edits.rest m fun own => inside m own outside⟩
  refine order.fewer outside (edits.isTree order.tree) (fun m => edits.directory_iff.1) ?_ fun s held => ?_
  · rw [edits.rest _ (apart lockName (by simp [ledgerNames]))]
    exact order.lock
  · rw [edits.content? (apart summaryName (by simp [ledgerNames]))] at held
    exact order.readable s held

/-- Where nothing has been lost but things in the archive, it is still in order. -/
theorem loses {gone : Location → Prop} (order : a.InOrder l d) (loses : Loses d e gone)
    (inside : ∀ m, gone m → ¬ Outside l m) (tree : e.IsTree l) : a.InOrder l e := by
  have outside : AgreesOn (Outside l) d e :=
    ⟨loses.home, fun m outside => loses.rest m fun lost => inside m lost outside⟩
  have before : ∀ m entry, e.at? m = some entry → d.at? m = some entry := loses.within.held
  refine order.fewer outside tree (fun m => before m _) ?_ fun s held => ?_
  · cases there : e.at? (l ++ [lockName]) with
    | none => rfl
    | some entry =>
      have held := before _ _ there
      rw [order.lock] at held
      cases held
  · exact order.readable s (Disk.content?_eq_some.2 (before _ _ (Disk.content?_eq_some.1 held)))

theorem outside_ne (outside : Outside l m) (rest : List String) (i : String) : m ≠ l ++ i :: rest := by
  rintro rfl
  exact outside (by simp)

/-- The directories of a block can be made if the name of its interface is none of the ledger. -/
theorem makeDirectories (order : a.InOrder l d) (name : IsName i) (ordinary : i ∉ ledgerNames) (t : Timestamp) :
    a.InOrder l (d.makeDirectories (a.partitionPath i t)).2 := by
  have extended := Disk.makeDirectories_extends d (a.partitionPath i t)
  have name' := isName_partition t.startOfDay
  have same : ∀ m, m ≠ l ++ [i] → m ≠ l ++ [i, partitionName t.startOfDay] →
      (d.makeDirectories (a.partitionPath i t)).2.at? m = d.at? m := fun m =>
    Disk.at?_makeDirectories order.leads name name'
  have apart : ∀ y ∈ ledgerNames, (d.makeDirectories (a.partitionPath i t)).2.at? (l ++ [y]) = d.at? (l ++ [y]) := by
    intro y listed
    refine same _ (fun here => ordinary ?_) (by simp)
    exact (Disk.snoc_inj.1 here).2 ▸ listed
  have made : ∀ m, (d.makeDirectories (a.partitionPath i t)).2.at? m = some .directory → d.at? m = some .directory ∨
      m = l ++ [i] ∧ Disk.joinFault? a.root i = none ∨
      m = l ++ [i, partitionName t.startOfDay] ∧
        Disk.joinFault? (a.interfacePath i) (partitionName t.startOfDay) = none := by
    intro m there
    rw [partitionPath, interfacePath, Disk.makeDirectories_join_join order.leads name name'] at there
    split at there
    · exact .inl there
    next fine =>
      rcases Disk.directory_makeGrandchild there with before | ⟨here, short⟩ | ⟨here, short⟩
      · exact .inl before
      · exact .inr (.inl ⟨here, Disk.joinFault?_of_text name name' short fine⟩)
      · refine .inr (.inr ⟨by simpa using here, ?_⟩)
        rw [Disk.joinFault?, interfacePath, fine, Option.none_or, if_neg (by omega)]
  obtain ⟨firm, present⟩ := order.stays
    ⟨extended.home, fun m outside => same m (outside_ne outside _ _) (outside_ne outside _ _)⟩
  constructor
  case firm => exact firm
  case present => exact present
  case tree => exact extended.isTree order.tree
  case lock =>
    rw [apart lockName (by simp [ledgerNames])]
    exact order.lock
  case free =>
    intro y listed
    rw [apart y listed]
    exact order.free y listed
  case readable =>
    intro s held
    rw [extended.content?] at held
    exact order.readable s held
  case interface =>
    intro j there
    rcases made _ there with before | ⟨here, fine⟩ | ⟨here, -⟩
    · exact order.interface j before
    · rwa [(Disk.snoc_inj.1 here).2]
    · simp at here
  case partition =>
    intro j n there
    rcases made _ there with before | ⟨here, -⟩ | ⟨here, fine⟩
    · exact order.partition j n before
    · simp at here
    · simp only [List.append_cancel_left_eq, List.cons.injEq, and_true] at here
      rwa [here.1, here.2]

/-! ## Changes of the summary -/

theorem not_isLedgerFile_of_outside (outside : Outside l m) : ¬ IsLedgerFile l m := by
  rintro ⟨y, -, rfl⟩
  exact outside (by simp)

theorem stored (order : a.InOrder l d) (stored : a.Stored l s d e)
    (fine : Disk.joinFault? a.root summaryDraftName = none) : a.InOrder l e := by
  have outside : AgreesOn (Outside l) d e :=
    ⟨stored.home, fun m outside => stored.rest m (not_isLedgerFile_of_outside outside)⟩
  refine order.fewer outside (stored.tree l order.tree) (fun m => stored.directory_iff.1) stored.lock ?_
  intro content held
  rw [Disk.content?_eq_some.2 stored.summary] at held
  obtain rfl := Option.some.inj held
  exact ⟨by rw [Summary.read_write]; rfl, fine⟩

theorem alike (order : a.InOrder l d) (alike : Disk.Alike d e) : a.InOrder l e := by
  have nothing : Edits (fun _ => False) d e := ⟨alike.home, fun m _ => alike.same m, fun m => .inl (alike.same m)⟩
  exact order.edits nothing (fun _ => False.elim) fun _ _ => id

end InOrder

/-! ## Outcomes -/

/-- A call has left an archive in order. If it has succeeded there is a summary, and if it has failed the summary is as
it was. -/
structure Leaves {α : Type} (a : Archive) (l : Location) (d : Disk) (outcome : Except Failure α) (e : Disk) : Prop where
  order : a.InOrder l e
  summary : match outcome with
    | .ok _ => e.summaryAt l ≠ none
    | .error _ => e.summaryAt l = d.summaryAt l

theorem Leaves.map {α β : Type} {outcome : Except Failure α} (leaves : a.Leaves l d outcome e) (f : α → β) :
    a.Leaves l d (outcome.map f) e := by
  cases outcome with
  | ok v => exact ⟨leaves.order, leaves.summary⟩
  | error x => exact ⟨leaves.order, leaves.summary⟩

/-- A call may have done other things before, if they have left the summary alone. -/
theorem Leaves.after {α : Type} {outcome : Except Failure α} (leaves : a.Leaves l c outcome e)
    (same : c.summaryAt l = d.summaryAt l) : a.Leaves l d outcome e := by
  refine ⟨leaves.order, ?_⟩
  rw [← same]
  exact leaves.summary

/-- No call loses the summary. -/
theorem Leaves.summaryAt_ne_none {α : Type} {outcome : Except Failure α} (leaves : a.Leaves l d outcome e)
    (before : d.summaryAt l ≠ none) : e.summaryAt l ≠ none := by
  have summary := leaves.summary
  cases outcome with
  | ok v => exact summary
  | error x =>
    rw [summary]
    exact before

theorem Stored.summaryAt_ne_none (stored : a.Stored l s d e) : e.summaryAt l ≠ none := by
  simp [stored.summaryAt]

/-- A change that succeeds is short of no name. -/
theorem fine_of_outcomeOfChange {change : Option Summary → Except Failure Summary} {old : Option Summary}
    (outcome : a.outcomeOfChange change old = .ok s) : Disk.joinFault? a.root summaryDraftName = none := by
  unfold outcomeOfChange at outcome
  split at outcome
  case h_4 fine => exact fine
  all_goals cases outcome

theorem InOrder.modify (order : a.InOrder l d) (token : LockToken)
    (change : Option Summary → Except Failure Summary) :
    ∃ e, (a.modify token change).runOn d = (a.outcomeOfChange change (d.summaryAt l), e) ∧
      AgreesOn (fun m => ¬ IsLedgerFile l m) d e ∧ a.Leaves l d (a.outcomeOfChange change (d.summaryAt l)) e := by
  obtain ⟨e, ran, after⟩ := order.unlocked.runOn_modify token change
  cases outcome : a.outcomeOfChange change (d.summaryAt l) with
  | ok s =>
    rw [outcome] at ran after
    have order' := order.stored after (fine_of_outcomeOfChange outcome)
    exact ⟨e, ran, ⟨after.home, after.rest⟩, order', after.summaryAt_ne_none⟩
  | error f =>
    rw [outcome] at ran after
    refine ⟨e, ran, ⟨after.home, fun m _ => after.same m⟩, order.alike after, ?_⟩
    rw [Disk.summaryAt, Disk.summaryAt, Disk.content?_congr (after.same _)]

/-! ## Writing -/

/-- What writing does in the partition of a block. -/
def fileBlock (a : Archive) (i : String) (t : Timestamp) (fs : List Flow) : Action Unit := do
  match ← Action.kind (blockPath (a.partitionPath i t) t) with
  | some _ => Action.fail (.refused (.blockExists t i))
  | none => do
    storeBlock (a.partitionPath i t) t fs
    indexBlock (a.partitionPath i t) (describe t fs)

/-- What writing does before the summary is changed. -/
def enterBlock (a : Archive) (i : String) (t : Timestamp) (fs : List Flow) : Action Unit := do
  Action.ask (.makeDirectories (a.partitionPath i t))
  a.fileBlock i t fs

/-- Adds a block to the summary. -/
def addBlock (a : Archive) (token : LockToken) (i : String) (x : Descriptor) : Action Descriptor := do
  let _ ← a.modify token fun old => .ok (Summary.append old i x)
  return x

theorem runOn_writeBlock (valid : isInterfaceName i = true) (d : Disk) : (a.writeBlock token i t fs).runOn d =
    (a.enterBlock i t fs >>= fun _ => a.addBlock token i (describe t fs)).runOn d := by
  rw [writeBlock, if_pos valid]
  refine Eq.trans ?_ (Action.runOn_bind_assoc _ (fun _ => a.fileBlock i t fs) _ d).symm
  refine Action.runOn_bind_congr d fun made c => ?_
  rw [fileBlock, Action.runOn_bind_assoc]
  refine Action.runOn_bind_congr c fun found b => ?_
  cases found with
  | some k => rfl
  | none => exact (Action.runOn_bind_assoc _ _ _ b).symm

theorem runOn_enterBlock (a : Archive) (i : String) (t : Timestamp) (fs : List Flow) (d : Disk) :
    (a.enterBlock i t fs).runOn d = match d.makeDirectories (a.partitionPath i t) with
      | (.ok (), b) => (a.fileBlock i t fs).runOn b
      | (.error f, b) => (.error (.fault f), b) := by
  cases asked : d.perform (.makeDirectories (a.partitionPath i t)) with
  | mk answer b =>
    have made : d.makeDirectories (a.partitionPath i t) = (answer, b) := asked
    rw [made]
    cases answer with
    | error f => exact Action.runOn_bind_of_error (Action.runOn_ask_of_error asked)
    | ok => exact Action.runOn_bind_of_ok (Action.runOn_ask_ok_iff.2 asked)

theorem asks_fileBlock (a : Archive) (i : String) (t : Timestamp) (fs : List Flow) :
    (a.fileBlock i t fs).Asks (·.IsIn (a.partitionPath i t)) := by
  have block : ∃ y, IsName y ∧ blockPath (a.partitionPath i t) t = (a.partitionPath i t).join y :=
    ⟨_, isName_block t, rfl⟩
  have draft : ∃ y, IsName y ∧ (a.partitionPath i t).join (draftName t) = (a.partitionPath i t).join y :=
    ⟨_, isName_draft t, rfl⟩
  have index : ∃ y, IsName y ∧ indexPath (a.partitionPath i t) = (a.partitionPath i t).join y :=
    ⟨_, isName_index, rfl⟩
  refine Action.asks_bind ⟨block, fun answer => ?_⟩ fun found => ?_
  · cases answer <;> trivial
  · cases found with
    | some k => trivial
    | none =>
      refine Action.asks_bind (Action.asks_bind (Action.asks_ask draft) fun _ => ?_) fun _ => ?_
      · exact Action.asks_bind (Action.asks_ask draft) fun _ => Action.asks_ask ⟨draft, block⟩
      · exact Action.asks_bind (Action.asks_ask index) fun _ => Action.asks_ask index

/-- Outside of the directory of its interface, a block changes nothing until it is added to the summary. -/
theorem InOrder.enterBlock {outcome : Except Failure Unit} (order : a.InOrder l d) (name : IsName i)
    (ordinary : i ∉ ledgerNames) (entered : (a.enterBlock i t fs).runOn d = (outcome, c)) :
    a.InOrder l c ∧ AgreesOn (fun m => ¬ l ++ [i] <+: m) d c := by
  have name' := isName_partition t.startOfDay
  have order' := order.makeDirectories name ordinary t
  have before : AgreesOn (fun m => ¬ l ++ [i] <+: m) d (d.makeDirectories (a.partitionPath i t)).2 := by
    refine ⟨(Disk.makeDirectories_extends d _).home, fun m apart => ?_⟩
    refine Disk.at?_makeDirectories order.leads name name' ?_ ?_
    · rintro rfl
      exact apart List.prefix_rfl
    · rintro rfl
      exact apart (by simp)
  rw [runOn_enterBlock] at entered
  cases made : d.makeDirectories (a.partitionPath i t) with
  | mk answer b =>
    rw [made] at order' before entered
    cases answer with
    | error f =>
      cases entered
      exact ⟨order', before⟩
    | ok =>
      have filed : (a.fileBlock i t fs).runOn b = (outcome, c) := entered
      have edits := (asks_fileBlock a i t fs).edits (Disk.leadsTo_of_makeDirectories order.leads name name' made)
      change Edits _ b ((a.fileBlock i t fs).runOn b).2 at edits
      rw [filed] at edits
      constructor
      · refine order'.edits edits ?_ ?_
        · rintro m ⟨y, rfl⟩ outside
          exact outside (by simp)
        · rintro y - ⟨z, same⟩
          simp at same
      · refine ⟨edits.home.trans before.home, fun m apart => ?_⟩
        rw [edits.rest m, before.same m apart]
        rintro ⟨y, rfl⟩
        exact apart (by simp)

/-- A change that cannot fail comes to the same whatever the summary is. -/
theorem outcomeOfChange_ok {α : Type} (f : Option Summary → Summary) (old : Option Summary) (v : α) :
    (a.outcomeOfChange (fun s => .ok (f s)) old).map (fun _ => v) =
      (a.outcomeOfChange (fun s => .ok (f s)) none).map fun _ => v := by
  unfold outcomeOfChange
  cases Disk.joinFault? a.root lockName with
  | some x => rfl
  | none => cases Disk.joinFault? a.root summaryDraftName <;> rfl

/-- What adding a block to the summary of an archive that is in order comes to. -/
def outcomeOfAdding (a : Archive) (i : String) (x : Descriptor) : Except Failure Descriptor :=
  (a.outcomeOfChange (fun old => .ok (Summary.append old i x)) none).map fun _ => x

theorem InOrder.addBlock (order : a.InOrder l d) (token : LockToken) (i : String) (x : Descriptor) :
    ∃ e, (a.addBlock token i x).runOn d = (a.outcomeOfAdding i x, e) ∧
      AgreesOn (fun m => ¬ IsLedgerFile l m) d e ∧ a.Leaves l d (a.outcomeOfAdding i x) e := by
  obtain ⟨e, modified, agrees, leaves⟩ := order.modify token fun old => .ok (Summary.append old i x)
  have added := leaves.map fun _ => x
  rw [outcomeOfChange_ok] at added
  refine ⟨e, ?_, agrees, added⟩
  rw [Archive.addBlock, Action.runOn_bind, modified, outcomeOfAdding, ← outcomeOfChange_ok _ (d.summaryAt l)]
  cases a.outcomeOfChange _ (d.summaryAt l) <;> rfl

/-- A place is neither in the directory of an interface nor in the ledger. -/
def IsApart (l : Location) (i : String) (m : Location) : Prop := ¬ l ++ [i] <+: m ∧ ¬ IsLedgerFile l m

/-- A write leaves an archive in order, whatever it comes to, if its interface has no name of the ledger. -/
theorem InOrder.writeBlock {outcome : Except Failure Descriptor} (order : a.InOrder l d) (ordinary : i ∉ ledgerNames)
    (ran : (a.writeBlock token i t fs).runOn d = (outcome, e)) :
    AgreesOn (IsApart l i) d e ∧ a.Leaves l d outcome e := by
  by_cases valid : isInterfaceName i = true
  · rw [runOn_writeBlock valid] at ran
    cases entered : (a.enterBlock i t fs).runOn d with
    | mk first c =>
      obtain ⟨order', before⟩ := order.enterBlock (isName_of_isInterfaceName valid) ordinary entered
      have same : c.summaryAt l = d.summaryAt l := by
        have apart : ¬ l ++ [i] <+: l ++ [summaryName] := by
          intro below
          obtain rfl := Disk.eq_of_below below
          exact ordinary (by simp [ledgerNames])
        rw [Disk.summaryAt, Disk.summaryAt, Disk.content?_congr (before.same _ apart)]
      cases first with
      | error x =>
        rw [Action.runOn_bind_of_error entered] at ran
        cases ran
        exact ⟨⟨before.home, fun m apart => before.same m apart.1⟩, order', same⟩
      | ok =>
        obtain ⟨b, added, after, leaves⟩ := order'.addBlock token i (describe t fs)
        rw [Action.runOn_bind_of_ok entered, added] at ran
        cases ran
        exact ⟨⟨after.home.trans before.home, fun m apart => (after.same m apart.2).trans (before.same m apart.1)⟩,
          leaves.after same⟩
  · rw [Archive.writeBlock, if_neg valid] at ran
    cases ran
    exact ⟨⟨rfl, fun _ _ => rfl⟩, order, rfl⟩

/-! ## Cleaning and wiping -/

theorem InOrder.swept {names : List String} {report : SweepReport} {day : Timestamp} (order : a.InOrder l d)
    (swept : a.Swept l day names report d c) : a.InOrder l c := by
  refine order.loses swept.loses ?_ (swept.tree order.tree)
  rintro m ⟨i, lost⟩ outside
  exact outside (inside_of_below lost.below)

/-- A cleaning sweeps every interface, and its outcome is that of the change of the summary. -/
theorem InOrder.clean (order : a.InOrder l d) (past : cutoff < now) (token : LockToken) :
    ∃ names report c e, a.Swept l cutoff.startOfDay names report d c ∧
      (a.clean token now cutoff).runOn d =
        ((a.outcomeOfChange (summaryChange report) (d.summaryAt l)).map fun _ => report, e) ∧
      AgreesOn (fun m => ¬ IsLedgerFile l m) c e ∧
      a.Leaves l d (a.outcomeOfChange (summaryChange report) (d.summaryAt l)) e := by
  have reachable : ∀ i, d.at? (l ++ [i]) = some .directory → a.Reachable l cutoff.startOfDay d i := fun i there =>
    ⟨order.interface i there, fun n stale => order.partition i n stale.1⟩
  have spared : ∀ i m, d.IsSwept l cutoff.startOfDay i m → (d.emptied l).at? m = none := by
    intro i m lost
    rw [Disk.at?_emptied, if_pos (inside_of_below lost.below)]
  have lockable : Lockable l cutoff.startOfDay d := by
    refine ⟨?_, fun y listed there => absurd there (order.free y listed)⟩
    rw [Disk.content?, order.lock]
  obtain ⟨names, report, c, e, swept, ran, after⟩ := clean_runOn past order.present order.leads order.tree order.firm
    (Disk.within_emptied d l) reachable spared lockable token
  have order' := order.swept swept
  have same := swept.summaryAt
  refine ⟨names, report, c, e, swept, ran, ?_⟩
  cases outcome : a.outcomeOfChange (summaryChange report) (d.summaryAt l) with
  | ok s =>
    rw [outcome] at after
    have stored := order'.stored after (fine_of_outcomeOfChange outcome)
    exact ⟨⟨after.home, after.rest⟩, stored, after.summaryAt_ne_none⟩
  | error x =>
    rw [outcome] at after
    refine ⟨⟨after.home, fun m _ => after.same m⟩, order'.alike after, ?_⟩
    rw [← same, Disk.summaryAt, Disk.summaryAt, Disk.content?_congr (after.same _)]

theorem InOrder.wipe {count : Nat} (order : a.InOrder l d) (wiped : (a.wipe token).runOn d = (.ok count, e)) :
    a.InOrder l e := by
  obtain ⟨n, b, -, rest⟩ := Action.runOn_bind_ok_iff.1 wiped
  obtain ⟨s, b', reset, -⟩ := Action.runOn_bind_ok_iff.1 rest
  obtain ⟨k, leads', -⟩ := modify_ok reset
  have fine := (unlocked_of_modify leads' reset).2.2
  obtain ⟨c, loses, leads, stored⟩ := wipe_ok order.leads order.tree wiped
  refine (order.loses loses ?_ ?_).stored stored fine
  · rintro m ⟨i, -, below⟩ outside
    exact outside (inside_of_below below)
  · refine order.tree.loses loses ?_
    rintro m x ⟨i, there, below⟩ -
    exact ⟨i, there, below.trans (List.prefix_append _ _)⟩

/-! ## Reading -/

/-- What a look at the summary comes to in an archive that is in order. -/
def outcomeOfReading (a : Archive) (old : Option Summary) : Except Failure Summary :=
  match Disk.joinFault? a.root summaryName, old with
  | some f, _ => .error (.fault f)
  | none, none => .error (.absent (.summary a.summaryPath.text))
  | none, some s => .ok s

theorem InOrder.readSummary (order : a.InOrder l d) :
    a.readSummary.runOn d = (a.outcomeOfReading (d.summaryAt l), d) := by
  have asked : d.perform (.read a.summaryPath) = (d.read a.summaryPath, d) := rfl
  have found := Disk.find_join order.leads isName_summary
  have known := Disk.joinFault?_ne_missing a.root isName_summary
  unfold outcomeOfReading
  rw [Archive.readSummary, Action.runOn_bind, storedSummary, Action.runOn_asked, asked, Disk.read, summaryPath, found]
  cases fault : Disk.joinFault? a.root summaryName with
  | some f =>
    rw [fault] at known
    cases f <;> first | rfl | exact absurd rfl known
  | none =>
    cases there : d.at? (l ++ [summaryName]) with
    | none =>
      simp only [Disk.summaryAt, Disk.content?, there]
      rfl
    | some entry =>
      cases entry with
      | directory => exact absurd there (order.free _ (by simp [ledgerNames]))
      | file content =>
        obtain ⟨s, read⟩ := Option.isSome_iff_exists.1 (order.readable content (Disk.content?_eq_some.2 there)).1
        simp only [Disk.summaryAt, Disk.content?, there, Option.bind_some, read]
        rfl

/-- No path of the ledger is refused. -/
structure HasLedger (a : Archive) : Prop where
  summary : Disk.joinFault? a.root summaryName = none
  lock : Disk.joinFault? a.root lockName = none
  draft : Disk.joinFault? a.root summaryDraftName = none

/-- Where there is a summary, it has been stored by way of all files of the ledger. -/
theorem InOrder.hasLedger (order : a.InOrder l d) (some : d.summaryAt l ≠ none) : a.HasLedger := by
  obtain ⟨content, held⟩ : ∃ content, d.content? (l ++ [summaryName]) = .some content := by
    refine Option.ne_none_iff_exists'.1 fun absent => some ?_
    rw [Disk.summaryAt, absent]
    rfl
  have fine := (order.readable content held).2
  exact ⟨Disk.joinFault?_of_le isName_summaryDraft isName_summary (by decide +kernel) (by decide +kernel) fine,
    Disk.joinFault?_of_le isName_summaryDraft isName_lock (by decide +kernel) (by decide +kernel) fine, fine⟩

theorem HasLedger.outcomeOfChange (has : a.HasLedger) (change : Option Summary → Except Failure Summary)
    (old : Option Summary) : a.outcomeOfChange change old = change old := by
  unfold Archive.outcomeOfChange
  rw [has.lock, has.draft]
  cases change old <;> rfl

theorem HasLedger.outcomeOfReading (has : a.HasLedger) (old : Option Summary) :
    a.outcomeOfReading old = old.elim (.error (.absent (.summary a.summaryPath.text))) .ok := by
  unfold Archive.outcomeOfReading
  rw [has.summary]
  cases old <;> rfl

theorem InOrder.listInterfaces (order : a.InOrder l d) :
    a.listInterfaces.quiet.runOn d = ((a.outcomeOfReading (d.summaryAt l)).map fun _ => (), d) ∧
      a.Leaves l d ((a.outcomeOfReading (d.summaryAt l)).map fun _ => ()) d := by
  rw [Action.runOn_quiet, Archive.listInterfaces, Action.runOn_bind_of_ok order.present, Action.runOn_bind,
    order.readSummary]
  cases outcome : a.outcomeOfReading (d.summaryAt l) with
  | error x => exact ⟨rfl, order, rfl⟩
  | ok s =>
    refine ⟨rfl, order, fun absent => ?_⟩
    rw [absent] at outcome
    unfold outcomeOfReading at outcome
    split at outcome
    · cases outcome
    · cases outcome
    next some => cases some

/-- The names of the interfaces can be told whether there is a summary or not. -/
theorem InOrder.interfaceNames (order : a.InOrder l d) : a.interfaceNames.quiet.runOn d = (.ok (), d) := by
  have listed : d.list a.root = .ok (d.children l) := list_root order.leads (congrArg Prod.fst order.present)
  have found : ∃ names, a.interfaceNames.runOn d = (.ok names, d) :=
    ⟨_, Action.runOn_bind_of_ok (Action.runOn_ask_ok_iff.2 (Prod.ext listed rfl))⟩
  obtain ⟨names, found⟩ := found
  rw [Action.runOn_quiet, found]
  rfl

/-! ## Histories -/

theorem IsFresh.inOrder (fresh : a.IsFresh l d) (present : (a.checkExists.runOn d).1 = .ok ()) : a.InOrder l d := by
  have empty : ∀ i rest, d.at? (l ++ i :: rest) = none := fun i rest => fresh.empty _ (by simp)
  constructor
  case firm =>
    refine fresh.leads.mono ⟨rfl, fun m there => ?_⟩
    rw [Disk.at?_emptied, if_neg]
    · exact there
    · rintro ⟨⟨rest, rfl⟩, other⟩
      rw [fresh.empty rest (by simpa using other)] at there
      cases there
  case present => exact Prod.ext present (reads_checkExists a d)
  case tree => exact fresh.consistent.tree
  case lock => exact empty _ _
  case free => simp [empty]
  case readable => simp [Disk.content?, empty]
  case interface => simp [empty]
  case partition => simp [empty]

/-- After a history, an archive is in order. -/
theorem History.inOrder {book : List Written} (fresh : a.IsFresh l d)
    (present : (a.checkExists.runOn d).1 = .ok ()) (history : a.History d book e) : a.InOrder l e := by
  induction history with
  | start => exact fresh.inOrder present
  | wrote before wrote ih =>
    have entered := writeBlock_entered ih.leads ih.tree wrote
    have ordinary := fun listed => entered.ledger _ listed entered.interface
    exact (ih.writeBlock ordinary wrote).2.order
  | refused before refused ih =>
    obtain rfl := writeBlock_refused ih.leads ih.tree refused
    exact ih
  | cleaned before cleaned ih =>
    obtain ⟨past, -⟩ := clean_parts ih.leads ih.tree cleaned
    obtain ⟨names, report, c, b, -, ran, -, leaves⟩ := ih.clean past _
    obtain rfl : b = _ := congrArg Prod.snd (ran.symm.trans cleaned)
    exact leaves.order
  | wiped before wiped ih => exact ih.wipe wiped

end Archive

end FlowArchive
