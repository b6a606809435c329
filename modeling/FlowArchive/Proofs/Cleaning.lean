import FlowArchive.Proofs.Ledger
import FlowArchive.Proofs.Sweeping

/-!
# Cleaning and wiping a disk

A cleaning that succeeds takes away what its sweeps do, stores the summary that the reports of the sweeps lead to,
and does nothing else. Wiping takes away every directory of an archive and stores an empty summary.
-/

namespace FlowArchive

open FlowArchive.Path (IsName)
open Disk (IsSwept Loses)

namespace Archive

variable {a : Archive} {token : LockToken} {day : Timestamp} {c d e : Disk} {l m : Location} {i n : String}

/-! ## All interfaces -/

/-- What a sweep reports depends on the directory of the interface alone. -/
theorem reports_congr {r : String × Sweep} (leads : d.LeadsTo a.root l) (also : e.LeadsTo a.root l)
    (name : IsName i) (same : ∀ k, e.at? (l ++ i :: k) = d.at? (l ++ i :: k)) (reports : a.Reports e l day i r) :
    a.Reports d l day i r := by
  have names : (e.partitionNames l i).Perm (d.partitionNames l i) := by
    refine (List.perm_ext_iff_of_nodup (Disk.nodup_partitionNames e l i) (Disk.nodup_partitionNames d l i)).2 fun n => ?_
    rw [Disk.mem_partitionNames, Disk.mem_partitionNames, same [n]]
  have blocks : ∀ p, (a.blocksOf e i ((e.partitionNames l i).filter p)).Perm
      (a.blocksOf d i ((d.partitionNames l i).filter p)) := by
    intro p
    have own : a.blocksOf e i ((e.partitionNames l i).filter p) = a.blocksOf d i ((e.partitionNames l i).filter p) := by
      have listed : ∀ n ∈ (e.partitionNames l i).filter p, IsName n := fun n member =>
        Disk.isName_of_mem_partitionNames (List.mem_of_mem_filter member)
      refine blocksOf_congr leads also name listed fun n _ k front => ?_
      cases k with
      | nil => rw [List.append_nil, also.directory, leads.directory]
      | cons j k =>
        obtain ⟨rfl, -⟩ := List.cons_prefix_cons.1 front
        exact same k
    rw [own]
    exact (names.filter p).flatMap_right _
  refine ⟨reports.name, reports.counts.perm (blocks _) (blocks _), reports.fine, fun n stale => ?_⟩
  exact reports.finePartition n (by rwa [Disk.IsStale, same [n]])

/-- The sweeps of several interfaces do not get in each other's way. -/
theorem sweepInterfaces_ok {names : List String} {rs : List (String × Sweep)} (distinct : names.Nodup)
    (are : ∀ i ∈ names, IsName i) (leads : c.LeadsTo a.root l) (after : e.LeadsTo a.root l) (tree : c.IsTree l)
    (swept : (Action.forEach (a.sweepInterface day) names).runOn c = (.ok rs, e)) :
    Loses c e (fun m => ∃ i ∈ names, c.IsSwept l day i m) ∧ List.Forall₂ (a.Reports c l day) names rs := by
  induction names generalizing c rs with
  | nil =>
    cases swept
    exact ⟨(Loses.refl e).congr fun m _ => by simp, .nil⟩
  | cons i others ih =>
    obtain ⟨r, c', one, more⟩ := Action.runOn_bind_ok_iff.1 swept
    obtain ⟨rs', c'', rest, last⟩ := Action.runOn_bind_ok_iff.1 more
    cases last
    obtain ⟨unseen, distinct⟩ := List.nodup_cons.1 distinct
    have name := are i List.mem_cons_self
    have are' : ∀ j ∈ others, IsName j := fun j later => are j (List.mem_cons_of_mem _ later)
    have later := (Action.shrinks_forEach (sweepInterface_shrinks a day) others).within rest
    have leads' : c'.LeadsTo a.root l := after.mono later.keepsDirectories
    obtain ⟨loses, report⟩ := sweepInterface_ok leads leads' tree name one
    obtain ⟨losesMore, reports⟩ := ih distinct are' leads' (tree.loses loses fun m x => IsSwept.snoc) rest
    have same : ∀ j ∈ others, ∀ k, c'.at? (l ++ j :: k) = c.at? (l ++ j :: k) := by
      refine fun j listed k => loses.rest _ fun lost => unseen ?_
      rw [Disk.eq_of_below lost.below]
      exact listed
    have listedReports : List.Forall₂ (fun j r => j ∈ others ∧ a.Reports c' l day j r) others rs' :=
      (List.forall₂_and_left _ _).2 ⟨fun j listed => listed, reports⟩
    refine ⟨(loses.trans losesMore).congr fun m _ => ?_, .cons report (listedReports.imp ?_)⟩
    · simp only [List.mem_cons, exists_eq_or_imp]
      refine or_congr_right (exists_congr fun j => and_congr_right fun listed => ?_)
      exact Disk.isSwept_congr (by rw [same j listed []]) fun n => same j listed [n]
    · rintro j r ⟨listed, reports⟩
      exact reports_congr leads leads' (are' j listed) (same j listed) reports

/-- The interfaces of an archive have been swept. -/
structure Swept (a : Archive) (l : Location) (day : Timestamp) (names : List String) (report : SweepReport)
    (d e : Disk) : Prop where
  leads : e.LeadsTo a.root l
  listed : d.list a.root = .ok (d.children l)
  distinct : names.Nodup
  all : ∀ i, i ∈ names ↔ d.at? (l ++ [i]) = some .directory
  reports : List.Forall₂ (a.Reports d l day) names report.interfaces
  loses : d.Loses e fun m => ∃ i, d.IsSwept l day i m

theorem Swept.exists_reports {names : List String} {report : SweepReport} (swept : a.Swept l day names report d e)
    (there : d.at? (l ++ [i]) = some .directory) : ∃ r, a.Reports d l day i r := by
  have paired : List.Forall₂ (fun i r => (∃ r, a.Reports d l day i r) ∧ a.Reports d l day i r) names
      report.interfaces := swept.reports.imp fun i r reports => ⟨⟨r, reports⟩, reports⟩
  exact ((List.forall₂_and_left _ _).1 paired).1 i ((swept.all i).2 there)

/-- A sweep lists the directory of every interface, so its path is not refused. -/
theorem Swept.fine {names : List String} {report : SweepReport} (swept : a.Swept l day names report d e)
    (there : d.at? (l ++ [i]) = some .directory) : Disk.joinFault? a.root i = none := by
  obtain ⟨r, reports⟩ := swept.exists_reports there
  exact reports.fine

theorem Swept.tree {names : List String} {report : SweepReport} (swept : a.Swept l day names report d e)
    (tree : d.IsTree l) : e.IsTree l := by
  refine tree.loses swept.loses ?_
  rintro m x ⟨i, gone⟩ there
  exact ⟨i, gone.snoc there⟩

/-- The sweeps leave the summary alone. -/
theorem Swept.summaryAt {names : List String} {report : SweepReport} (swept : a.Swept l day names report d e) :
    e.summaryAt l = d.summaryAt l := by
  have content : e.content? (l ++ [summaryName]) = d.content? (l ++ [summaryName]) := by
    by_cases gone : d.IsAllStale l day summaryName
    · rw [Disk.content?, Disk.content?, swept.loses.away _ (Disk.exists_isSwept_interface_iff.2 gone), gone.1]
    · exact Disk.content?_congr (swept.loses.rest _ fun lost => gone (Disk.exists_isSwept_interface_iff.1 lost))
  rw [Disk.summaryAt, Disk.summaryAt, content]

/-- The sweeps of all interfaces, if the archive stays where it is. -/
theorem sweeps_ok {l' : Location} {names : List String} {rs : List (String × Sweep)} (leads : d.LeadsTo a.root l)
    (tree : d.IsTree l) (found : a.interfaceNames.runOn d = (.ok names, c))
    (swept : (Action.forEach (a.sweepInterface day) names).runOn c = (.ok rs, e)) (after : e.LeadsTo a.root l') :
    l' = l ∧ a.Swept l day names ⟨rs⟩ d e := by
  obtain ⟨rfl, listed, sorted⟩ := interfaceNames_ok leads found
  have all : ∀ i, i ∈ names ↔ c.at? (l ++ [i]) = some .directory := by
    intro i
    rw [sorted, List.mem_mergeSort, mem_directoryNames]
  have distinct : names.Nodup := by
    rw [sorted, (List.mergeSort_perm _ _).nodup_iff]
    exact nodup_directoryNames _ l
  have are : ∀ i ∈ names, IsName i := fun i listed => tree.isName ((all i).1 listed)
  have within := (Action.shrinks_forEach (sweepInterface_shrinks a day) names).within swept
  obtain rfl := leads.unique (after.mono within.keepsDirectories)
  obtain ⟨loses, reports⟩ := sweepInterfaces_ok distinct are leads after tree swept
  refine ⟨rfl, after, listed, distinct, all, reports, loses.congr fun m _ => exists_congr fun i => ?_⟩
  exact and_iff_right_of_imp fun swept => (all i).2 (swept.directory tree)

/-- How a cleaning changes the summary, which has to be there. -/
def summaryChange (report : SweepReport) : Option Summary → Except Failure Summary
  | none => .error (.absent .summaryToUpdate)
  | some s => .ok (report.reconcile s)

theorem clean_parts {now cutoff : Timestamp} {report : SweepReport} (leads : d.LeadsTo a.root l)
    (tree : d.IsTree l) (cleaned : (a.clean token now cutoff).runOn d = (.ok report, e)) :
    cutoff < now ∧ a.checkExists.runOn d = (.ok (), d) ∧ ∃ names c s, a.Swept l cutoff.startOfDay names report d c ∧
      (a.modify token (summaryChange report)).runOn c = (.ok s, e) := by
  unfold clean at cleaned
  split at cleaned
  next past =>
    obtain ⟨⟨⟩, d', checked, rest⟩ := Action.runOn_bind_ok_iff.1 cleaned
    obtain rfl := (reads_checkExists a).unchanged checked
    obtain ⟨names, d'', found, more⟩ := Action.runOn_bind_ok_iff.1 rest
    obtain ⟨rs, c, swept, more⟩ := Action.runOn_bind_ok_iff.1 more
    obtain ⟨new, e', modified, last⟩ := Action.runOn_bind_ok_iff.1 more
    cases last
    obtain ⟨l', after, -, -⟩ := modify_ok modified
    obtain ⟨rfl, swept⟩ := sweeps_ok leads tree found swept after
    exact ⟨past, checked, names, c, new, swept, modified⟩
  · cases cleaned

/-- A cleaning that succeeds sweeps the directories of all interfaces, then takes what is gone from the summary, and
does nothing else. -/
theorem clean_ok {now cutoff : Timestamp} {report : SweepReport} (leads : d.LeadsTo a.root l)
    (tree : d.IsTree l) (cleaned : (a.clean token now cutoff).runOn d = (.ok report, e)) :
    ∃ names c old, a.Swept l cutoff.startOfDay names report d c ∧ c.summaryAt l = some old ∧
      a.Stored l (report.reconcile old) c e := by
  obtain ⟨-, -, names, c, new, swept, modified⟩ := clean_parts leads tree cleaned
  obtain ⟨l', after, changed, stored⟩ := modify_ok modified
  obtain rfl := after.unique swept.leads
  cases old : c.summaryAt l' with
  | none => rw [old] at changed; cases changed
  | some s =>
    rw [old] at changed
    cases changed
    exact ⟨names, c, s, swept, old, stored⟩

theorem clean_isTree {now cutoff : Timestamp} {report : SweepReport} (leads : d.LeadsTo a.root l)
    (tree : d.IsTree l) (cleaned : (a.clean token now cutoff).runOn d = (.ok report, e)) : e.IsTree l := by
  obtain ⟨names, c, old, swept, -, stored⟩ := clean_ok leads tree cleaned
  exact stored.tree l (swept.tree tree)

theorem Stored.at?_of_isStale {s : Summary} (stored : a.Stored l s c e)
    (loses : d.Loses c fun m => ∃ i, d.IsSwept l day i m) (stale : d.IsStale l day i n) (rest : List String) :
    e.at? (l ++ i :: n :: rest) = none := by
  rw [stored.rest _ (not_isLedgerFile l i n rest)]
  exact loses.away _ (Disk.exists_isSwept_iff.2 stale)

theorem Stored.at?_of_not_isStale {s : Summary} (stored : a.Stored l s c e)
    (loses : d.Loses c fun m => ∃ i, d.IsSwept l day i m) (fresh : ¬ d.IsStale l day i n) (rest : List String) :
    e.at? (l ++ i :: n :: rest) = d.at? (l ++ i :: n :: rest) := by
  rw [stored.rest _ (not_isLedgerFile l i n rest)]
  exact loses.rest _ fun swept => fresh (Disk.exists_isSwept_iff.1 swept)

/-- No file in the directory of an interface is new. -/
theorem Stored.content?_before {s : Summary} {content : Bytes} {rest : List String} (stored : a.Stored l s c e)
    (loses : d.Loses c fun m => ∃ i, d.IsSwept l day i m)
    (held : e.content? (l ++ i :: n :: rest) = some content) : d.content? (l ++ i :: n :: rest) = some content := by
  by_cases stale : d.IsStale l day i n
  · have gone := stored.at?_of_isStale loses stale rest
    simp [Disk.content?, gone] at held
  · rwa [Disk.content?_congr (stored.at?_of_not_isStale loses stale rest)] at held

/-- The partitions that remain are those of the day of the cutoff and later. -/
theorem Stored.mem_partitionNames {s : Summary} (stored : a.Stored l s c e)
    (loses : d.Loses c fun m => ∃ i, d.IsSwept l day i m) (i n : String) :
    n ∈ e.partitionNames l i ↔ n ∈ d.partitionNames l i ∧ (!isEarlier day n) = true := by
  rw [Disk.mem_partitionNames, Disk.mem_partitionNames]
  by_cases stale : d.IsStale l day i n
  · rw [stored.at?_of_isStale loses stale []]
    simp [stale.2]
  · rw [stored.at?_of_not_isStale loses stale [], and_assoc]
    refine and_congr_right fun there => (and_iff_left_of_imp fun _ => ?_).symm
    simpa [Disk.IsStale, there] using stale

/-! ## Wiping -/

/-- Removing some directories takes away what is in them. -/
theorem removeTrees_ok {names : List String} {done : List Unit} (are : ∀ i ∈ names, IsName i)
    (leads : c.LeadsTo a.root l) (after : e.LeadsTo a.root l)
    (removed : (Action.forEach (fun name => Action.ask (.removeTree (a.root.join name))) names).runOn c =
      (.ok done, e)) : Loses c e fun m => ∃ i ∈ names, l ++ [i] <+: m := by
  induction names generalizing c done with
  | nil =>
    cases removed
    exact (Loses.refl e).congr fun m _ => by simp
  | cons i others ih =>
    obtain ⟨⟨⟩, c', one, more⟩ := Action.runOn_bind_ok_iff.1 removed
    obtain ⟨done', c'', rest, last⟩ := Action.runOn_bind_ok_iff.1 more
    cases last
    have shrinks := Action.shrinks_forEach (fun name => Action.shrinks_removeTree (a.root.join name)) others
    have leads' : c'.LeadsTo a.root l := after.mono (shrinks.within rest).keepsDirectories
    obtain ⟨-, -, loses⟩ :=
      Disk.removeTree_join leads (are i List.mem_cons_self) (Action.runOn_ask_ok_iff.1 one) leads'.walked
    have losesMore := ih (fun j later => are j (List.mem_cons_of_mem _ later)) leads' rest
    exact (loses.trans losesMore).congr fun m _ => by simp

/-- A wipe that succeeds takes away every directory of the archive, then empties the summary, and does nothing
else. -/
theorem wipe_ok {count : Nat} (leads : d.LeadsTo a.root l) (tree : d.IsTree l)
    (wiped : (a.wipe token).runOn d = (.ok count, e)) :
    ∃ c, d.Loses c (fun m => ∃ i, d.at? (l ++ [i]) = some .directory ∧ l ++ [i] <+: m) ∧ c.LeadsTo a.root l ∧
      a.Stored l .empty c e := by
  obtain ⟨n, c, removed, rest⟩ := Action.runOn_bind_ok_iff.1 wiped
  obtain ⟨s, e', reset, last⟩ := Action.runOn_bind_ok_iff.1 rest
  cases last
  obtain ⟨l', leads', changed, stored⟩ := modify_ok reset
  cases changed
  obtain ⟨⟨⟩, d', checked, more⟩ := Action.runOn_bind_ok_iff.1 removed
  obtain ⟨found, d'', asked, more⟩ := Action.runOn_bind_ok_iff.1 more
  obtain ⟨done, c', gone, last⟩ := Action.runOn_bind_ok_iff.1 more
  cases last
  obtain rfl := (reads_checkExists a).unchanged checked
  have answered := Action.runOn_ask_ok_iff.1 asked
  obtain rfl : d' = d'' := congrArg Prod.snd answered
  obtain rfl := Disk.list_of_leadsTo leads (congrArg Prod.fst answered)
  have shrinks := Action.shrinks_forEach (fun name => Action.shrinks_removeTree (a.root.join name))
    (directoryNames (d'.children l))
  obtain rfl := leads.unique (leads'.mono (shrinks.within gone).keepsDirectories)
  have are : ∀ i ∈ directoryNames (d'.children l), IsName i := fun i listed =>
    tree.isName (mem_directoryNames.1 listed)
  refine ⟨c, (removeTrees_ok are leads leads' gone).congr fun m _ => ?_, leads', stored⟩
  simp only [mem_directoryNames]

/-- Nothing is left in the directories of interfaces after a wipe. -/
theorem Stored.at?_of_wiped {s : Summary} (stored : a.Stored l s c e) (tree : d.IsTree l)
    (loses : d.Loses c fun m => ∃ i, d.at? (l ++ [i]) = some .directory ∧ l ++ [i] <+: m) (i n : String)
    (rest : List String) : e.at? (l ++ i :: n :: rest) = none := by
  rw [stored.rest _ (not_isLedgerFile l i n rest)]
  by_contra present
  obtain ⟨entry, held⟩ := Option.ne_none_iff_exists'.1 present
  have parts : l ++ [i, n] ++ rest = l ++ i :: n :: rest := by simp
  have above := tree.present (m := [i, n]) rest (by rw [parts, loses.within.held _ _ held]; simp)
  have there := tree.parent above
  exact present (loses.away _ ⟨i, there, by simp⟩)

end Archive

end FlowArchive
