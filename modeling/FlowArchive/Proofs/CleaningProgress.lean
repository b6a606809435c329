import FlowArchive.Proofs.Progress
import FlowArchive.Proofs.StoreConsistency

/-!
# Cleanings that succeed

A sweep fails only where the path of something is too long, or where the path of the archive leads through what is
removed. That the latter is not the case is told by a disk that holds no more than what the sweeps leave, and still
leads to the archive.
-/

namespace FlowArchive

open FlowArchive.Path (IsName)
open Disk (Within Loses IsSwept)

namespace Disk

variable {c d e floor : Disk} {l : Location} {gone : Location → Prop}

theorem loses_emptied (d : Disk) (l : Location) : Loses d (d.emptied l) fun m => l <+: m ∧ m ≠ l :=
  ⟨rfl, fun m below => by rw [at?_emptied, if_pos below], fun m other => by rw [at?_emptied, if_neg other]⟩

/-- What is held back is held after a loss of other things. -/
theorem Within.of_loses (within : Within floor d) (loses : Loses d e gone) (spared : ∀ m, gone m → floor.at? m = none) :
    Within floor e := by
  refine ⟨within.home.trans loses.home.symm, fun m x held => ?_⟩
  rw [loses.rest m fun lost => by rw [spared m lost] at held; cases held]
  exact within.held m x held

end Disk

namespace Archive

variable {a : Archive} {token : LockToken} {day cutoff now : Timestamp} {c d e floor : Disk} {l m : Location}
  {i n : String} {s : Sweep}

/-! ## One interface -/

theorem sweepEntry_of_stale {x : String × EntryKind} (stale : isStale day x = true)
    (removed : c.removeTree ((a.interfacePath i).join x.1) = (.ok (), e)) (s : Sweep) :
    ∃ s', (sweepEntry day s (a.classify i x)).runOn c = (.ok s', e) := by
  obtain ⟨name, k⟩ := x
  simp only [isStale, isEarlier, Bool.and_eq_true, beq_iff_eq, Option.any_eq_true_iff_get, decide_eq_true_eq] at stale
  obtain ⟨rfl, found, early⟩ := stale
  obtain ⟨t, found'⟩ := Option.isSome_iff_exists.1 found
  simp only [found', Option.get_some] at early
  simp only [classify, found', sweepEntry]
  rw [Action.runOn_bind_of_ok (runOn_readIndex _ c), if_pos early]
  exact ⟨_, Action.runOn_bind_of_ok (Action.runOn_ask_ok_iff.2 removed)⟩

theorem sweepEntry_of_fresh {x : String × EntryKind} (fresh : isStale day x = false) (s : Sweep) :
    ∃ s', (sweepEntry day s (a.classify i x)).runOn c = (.ok s', c) := by
  obtain ⟨name, k⟩ := x
  cases k with
  | file => exact ⟨_, rfl⟩
  | directory =>
    cases found : partitionDay? name with
    | none => exact ⟨s.keep, by simp only [classify, found, sweepEntry]; rfl⟩
    | some t =>
      have late : ¬ t < day := by simpa [isStale, isEarlier, found] using fresh
      simp only [classify, found, sweepEntry]
      rw [Action.runOn_bind_of_ok (runOn_readIndex _ c), if_neg late]
      exact ⟨_, rfl⟩

/-- The partitions of earlier days can be removed, and nothing of them is held back. -/
def Removable (a : Archive) (l : Location) (i : String) (floor c : Disk) (n : String) : Prop :=
  Disk.joinFault? (a.interfacePath i) n = none ∧ c.at? (l ++ [i, n]) = some .directory ∧
    ∀ m, l ++ [i, n] <+: m → floor.at? m = none

theorem Removable.exists_removed (removable : a.Removable l i floor c n) (leads : floor.LeadsTo a.root l)
    (within : Within floor c) (inside : c.LeadsTo (a.interfacePath i) (l ++ [i])) (name : IsName i) (name' : IsName n) :
    ∃ e, c.removeTree ((a.interfacePath i).join n) = (.ok (), e) ∧ Within floor e ∧
      Loses c e (fun m => l ++ [i, n] <+: m) ∧ e.LeadsTo (a.interfacePath i) (l ++ [i]) := by
  obtain ⟨fine, there, spared⟩ := removable
  have longer : ¬ l ++ [i, n] <+: l ++ [i] := fun below => by simpa using below.length_le
  have root := leads.mono within.keepsDirectories
  have short := (inside.of_join root name).2
  have emptied := within.of_loses (Disk.loses_emptied c (l ++ [i, n])) fun m below => spared m below.1
  have apart : (c.emptied (l ++ [i, n])).LeadsTo (a.interfacePath i) (l ++ [i]) := by
    refine (leads.mono emptied.keepsDirectories).join name short ?_
    rw [(Disk.loses_emptied c (l ++ [i, n])).rest _ fun below => longer below.1]
    exact inside.directory
  rw [List.append_cons] at there apart
  obtain ⟨e, removed, loses⟩ := Disk.removeTree_of_directory inside name' fine there apart
  rw [← List.append_cons] at loses
  have within' := within.of_loses loses spared
  obtain ⟨-, loses, inside'⟩ :=
    removePartition_ok root inside name name' (leads.mono within'.keepsDirectories) removed
  exact ⟨e, removed, within', loses, inside'⟩

theorem sweepEntries_succeed (name : IsName i) {es : List (String × EntryKind)} (distinct : (es.map (·.1)).Nodup)
    (names : ∀ x ∈ es, IsName x.1) (leads : floor.LeadsTo a.root l) (within : Within floor c)
    (inside : c.LeadsTo (a.interfacePath i) (l ++ [i]))
    (removable : ∀ x ∈ es, isStale day x = true → a.Removable l i floor c x.1) (s : Sweep) :
    ∃ s' e, (sweepEntries day s (es.map (a.classify i))).runOn c = (.ok s', e) ∧ Within floor e := by
  induction es generalizing c s with
  | nil => exact ⟨s, c, rfl, within⟩
  | cons x others ih =>
    obtain ⟨unseen, distinct⟩ := List.nodup_cons.1 distinct
    have names' : ∀ y ∈ others, IsName y.1 := fun y later => names y (List.mem_cons_of_mem _ later)
    cases stale : isStale day x with
    | true =>
      have own := removable x List.mem_cons_self stale
      obtain ⟨c', removed, within', loses, inside'⟩ :=
        own.exists_removed leads within inside name (names x List.mem_cons_self)
      obtain ⟨t, one⟩ := sweepEntry_of_stale stale removed s
      have still : ∀ y ∈ others, isStale day y = true → a.Removable l i floor c' y.1 := by
        intro y later stale'
        obtain ⟨fine, there, spared⟩ := removable y (List.mem_cons_of_mem _ later) stale'
        refine ⟨fine, ?_, spared⟩
        rw [loses.rest]
        · exact there
        · intro below
          have same : x.1 = y.1 := by simpa using below
          exact unseen (List.mem_map.2 ⟨y, later, same.symm⟩)
      obtain ⟨s', e, more, rest⟩ := ih distinct names' within' inside' still t
      exact ⟨s', e, Action.runOn_bind_ok_iff.2 ⟨t, c', one, more⟩, rest⟩
    | false =>
      obtain ⟨t, one⟩ := sweepEntry_of_fresh (a := a) (i := i) (c := c) stale s
      obtain ⟨s', e, more, rest⟩ :=
        ih distinct names' within inside (fun y later => removable y (List.mem_cons_of_mem _ later)) t
      exact ⟨s', e, Action.runOn_bind_ok_iff.2 ⟨t, c, one, more⟩, rest⟩

/-- The paths of a directory and of its partitions of earlier days are not refused. -/
structure Reachable (a : Archive) (l : Location) (day : Timestamp) (d : Disk) (i : String) : Prop where
  interface : Disk.joinFault? a.root i = none
  partition : ∀ n, d.IsStale l day i n → Disk.joinFault? (a.interfacePath i) n = none

theorem sweepInterface_succeeds (leads : floor.LeadsTo a.root l) (within : Within floor c) (tree : c.IsTree l)
    (there : c.at? (l ++ [i]) = some .directory) (reachable : a.Reachable l day c i)
    (spared : ∀ m, c.IsSwept l day i m → floor.at? m = none) :
    ∃ r e, (a.sweepInterface day i).runOn c = (.ok r, e) ∧ Within floor e := by
  have name := tree.isName there
  have root := leads.mono within.keepsDirectories
  have listed := Disk.list_join_ok root name reachable.interface there
  have answered : (a.entries i).runOn c =
      (.ok (((c.children (l ++ [i])).map (a.classify i)).mergeSort StoreEntry.le), c) :=
    Action.runOn_bind_of_ok (Action.runOn_ask_ok_iff.2 (Prod.ext listed rfl))
  obtain ⟨-, fine, inside, es, sorted, same⟩ := entries_ok root name answered
  rw [same] at answered
  have all : ∀ x, x ∈ es ↔ x ∈ c.children (l ++ [i]) := fun x => sorted.mem_iff
  have distinct : (es.map (·.1)).Nodup := (sorted.map _).nodup_iff.2 (Disk.nodup_children _ _)
  have names : ∀ x ∈ es, IsName x.1 := by
    intro x member
    obtain ⟨entry, present, -⟩ := Disk.mem_children.1 ((all x).1 member)
    exact (tree [i] x.1 (by rw [present]; simp)).1
  have removable : ∀ x ∈ es, isStale day x = true → a.Removable l i floor c x.1 := by
    intro x member stale
    have own := (Disk.isStale_child ((all x).1 member)).1 stale
    exact ⟨reachable.partition x.1 own, own.1, fun m below => spared m (.inl ⟨x.1, own, below⟩)⟩
  obtain ⟨s, b, swept, within'⟩ := sweepEntries_succeed name distinct names leads within inside removable .start
  have root' := leads.mono within'.keepsDirectories
  by_cases gone : s.allStale = true
  · -- All that was in the directory was stale, so nothing in it is held back, nor is the directory.
    obtain ⟨loses, allStale, -⟩ := sweepEntries_ok name distinct names root inside root' swept
    have stale : c.IsAllStale l day i := ⟨there, (Disk.forall_isStale_iff all).1 (allStale.1 gone).2⟩
    have nothing : ∀ m, l ++ [i] <+: m → floor.at? m = none := by
      intro m below
      by_contra held
      obtain ⟨entry, held⟩ := Option.ne_none_iff_exists'.1 held
      have present : c.at? m ≠ none := by rw [within.held m entry held]; simp
      rw [spared m ((tree.isSwept_iff present stale).2 below)] at held
      cases held
    have still : b.at? (l ++ [i]) = some .directory := by
      rw [loses.rest]
      · exact there
      · rintro ⟨x, -, -, below⟩
        simpa using below.length_le
    have emptied := within'.of_loses (Disk.loses_emptied b (l ++ [i])) fun m below => nothing m below.1
    obtain ⟨e, removed, loses'⟩ :=
      Disk.removeTree_of_directory root' name fine still (leads.mono emptied.keepsDirectories)
    refine ⟨(i, s), e, ?_, within'.of_loses loses' nothing⟩
    rw [sweepInterface, Action.runOn_bind_of_ok answered, Action.runOn_bind_of_ok swept, if_pos gone]
    exact Action.runOn_bind_of_ok (Action.runOn_ask_ok_iff.2 removed)
  · refine ⟨(i, s), b, ?_, within'⟩
    rw [sweepInterface, Action.runOn_bind_of_ok answered, Action.runOn_bind_of_ok swept, if_neg gone]
    rfl

/-! ## All interfaces -/

theorem sweepInterfaces_succeed {names : List String} (distinct : names.Nodup) (leads : floor.LeadsTo a.root l)
    (within : Within floor c) (tree : c.IsTree l) (there : ∀ i ∈ names, c.at? (l ++ [i]) = some .directory)
    (reachable : ∀ i ∈ names, a.Reachable l day c i)
    (spared : ∀ i ∈ names, ∀ m, c.IsSwept l day i m → floor.at? m = none) :
    ∃ rs e, (Action.forEach (a.sweepInterface day) names).runOn c = (.ok rs, e) ∧ Within floor e := by
  induction names generalizing c with
  | nil => exact ⟨[], c, rfl, within⟩
  | cons i others ih =>
    obtain ⟨unseen, distinct⟩ := List.nodup_cons.1 distinct
    have here := there i List.mem_cons_self
    obtain ⟨r, c', one, within'⟩ := sweepInterface_succeeds leads within tree here (reachable i List.mem_cons_self)
      (spared i List.mem_cons_self)
    have root := leads.mono within.keepsDirectories
    obtain ⟨loses, -⟩ := sweepInterface_ok root (leads.mono within'.keepsDirectories) tree (tree.isName here) one
    have same : ∀ j ∈ others, ∀ k, c'.at? (l ++ j :: k) = c.at? (l ++ j :: k) := by
      refine fun j later k => loses.rest _ fun lost => unseen ?_
      rw [Disk.eq_of_below lost.below]
      exact later
    have swept : ∀ j ∈ others, ∀ m, c'.IsSwept l day j m ↔ c.IsSwept l day j m := fun j later m =>
      Disk.isSwept_congr (by rw [same j later []]) fun n => same j later [n]
    have there' : ∀ j ∈ others, c'.at? (l ++ [j]) = some .directory := fun j later => by
      rw [same j later []]
      exact there j (List.mem_cons_of_mem _ later)
    have reachable' : ∀ j ∈ others, a.Reachable l day c' j := by
      intro j later
      obtain ⟨interface, partition⟩ := reachable j (List.mem_cons_of_mem _ later)
      refine ⟨interface, fun n stale => partition n ?_⟩
      rwa [Disk.IsStale, ← same j later [n]]
    obtain ⟨rs, e, rest, within''⟩ := ih distinct within' (tree.loses loses fun m x => IsSwept.snoc) there' reachable'
      fun j later m lost => spared j (List.mem_cons_of_mem _ later) m ((swept j later m).1 lost)
    refine ⟨r :: rs, e, ?_, within''⟩
    exact Action.runOn_bind_ok_iff.2 ⟨r, c', one, Action.runOn_bind_ok_iff.2 ⟨rs, e, rest, rfl⟩⟩

/-- The sweeps of all interfaces succeed. -/
theorem sweeps_succeed (leads : d.LeadsTo a.root l) (tree : d.IsTree l) (listed : d.list a.root = .ok (d.children l))
    (leads' : floor.LeadsTo a.root l) (within : Within floor d)
    (reachable : ∀ i, d.at? (l ++ [i]) = some .directory → a.Reachable l day d i)
    (spared : ∀ i m, d.IsSwept l day i m → floor.at? m = none) :
    ∃ names rs e, a.interfaceNames.runOn d = (.ok names, d) ∧
      (Action.forEach (a.sweepInterface day) names).runOn d = (.ok rs, e) ∧ a.Swept l day names ⟨rs⟩ d e := by
  have found : a.interfaceNames.runOn d =
      (.ok ((directoryNames (d.children l)).mergeSort fun x y => (compare x y).isLE), d) :=
    Action.runOn_bind_of_ok (Action.runOn_ask_ok_iff.2 (Prod.ext listed rfl))
  have there : ∀ i, i ∈ (directoryNames (d.children l)).mergeSort (fun x y => (compare x y).isLE) →
      d.at? (l ++ [i]) = some .directory := fun i member => by
    rwa [List.mem_mergeSort, mem_directoryNames] at member
  have distinct : ((directoryNames (d.children l)).mergeSort fun x y => (compare x y).isLE).Nodup := by
    rw [(List.mergeSort_perm _ _).nodup_iff]
    exact nodup_directoryNames _ l
  obtain ⟨rs, e, swept, within'⟩ := sweepInterfaces_succeed distinct leads' within tree there
    (fun i member => reachable i (there i member)) fun i _ => spared i
  exact ⟨_, rs, e, found, swept, (sweeps_ok leads tree found swept (leads'.mono within'.keepsDirectories)).2⟩

/-- No file is in the way of the lock, and a directory in the way of the ledger goes with the sweeps. -/
structure Lockable (l : Location) (day : Timestamp) (d : Disk) : Prop where
  lock : d.content? (l ++ [lockName]) = none
  ledger : ∀ x ∈ ledgerNames, d.at? (l ++ [x]) = some .directory → d.IsAllStale l day x

theorem Swept.unlocked {names : List String} {report : SweepReport} (swept : a.Swept l day names report d c)
    (lockable : Lockable l day d) : a.Unlocked l c := by
  have free : ∀ x ∈ ledgerNames, c.at? (l ++ [x]) ≠ some .directory := by
    intro x listed there
    have lost := swept.loses.away _ (Disk.exists_isSwept_interface_iff.2
      (lockable.ledger x listed (swept.loses.within.held _ _ there)))
    rw [there] at lost
    cases lost
  refine ⟨swept.leads, ?_, free _ (by simp [ledgerNames]), free _ (by simp [ledgerNames])⟩
  have noDirectory := free lockName (by simp [ledgerNames])
  cases held : c.at? (l ++ [lockName]) with
  | none => rfl
  | some entry =>
    cases entry with
    | directory => exact absurd held noDirectory
    | file s =>
      have file := Disk.content?_eq_some.2 (swept.loses.within.held _ _ held)
      rw [lockable.lock] at file
      cases file

/-- What a cleaning comes to once all interfaces have been swept. -/
theorem clean_runOn (past : cutoff < now) (present : a.checkExists.runOn d = (.ok (), d)) (leads : d.LeadsTo a.root l)
    (tree : d.IsTree l) (leads' : floor.LeadsTo a.root l) (within : Within floor d)
    (reachable : ∀ i, d.at? (l ++ [i]) = some .directory → a.Reachable l cutoff.startOfDay d i)
    (spared : ∀ i m, d.IsSwept l cutoff.startOfDay i m → floor.at? m = none)
    (lockable : Lockable l cutoff.startOfDay d) (token : LockToken) :
    ∃ names report c e, a.Swept l cutoff.startOfDay names report d c ∧
      (a.clean token now cutoff).runOn d =
        ((a.outcomeOfChange (summaryChange report) (d.summaryAt l)).map fun _ => report, e) ∧
      match a.outcomeOfChange (summaryChange report) (d.summaryAt l) with
      | .ok s => a.Stored l s c e
      | .error _ => Disk.Alike c e := by
  have listed : d.list a.root = .ok (d.children l) := list_root leads (congrArg Prod.fst present)
  obtain ⟨names, rs, c, found, sweeping, swept⟩ := sweeps_succeed leads tree listed leads' within reachable spared
  obtain ⟨e, modified, after⟩ := (swept.unlocked lockable).runOn_modify token (summaryChange ⟨rs⟩)
  rw [swept.summaryAt] at modified after
  refine ⟨names, ⟨rs⟩, c, e, swept, ?_, after⟩
  rw [clean, if_pos past, Action.runOn_bind_of_ok present, Action.runOn_bind_of_ok found,
    Action.runOn_bind_of_ok sweeping]
  change (a.modify token (summaryChange ⟨rs⟩) >>= fun _ => pure (⟨rs⟩ : SweepReport)).runOn c = _
  cases outcome : a.outcomeOfChange (summaryChange ⟨rs⟩) (d.summaryAt l) with
  | ok s =>
    rw [outcome] at modified
    exact Action.runOn_bind_of_ok modified
  | error x =>
    rw [outcome] at modified
    exact Action.runOn_bind_of_error modified

end Archive

end FlowArchive
