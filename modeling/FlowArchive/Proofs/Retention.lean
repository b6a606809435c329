import FlowArchive.Proofs.Days
import FlowArchive.Proofs.LedgerAgreement
import FlowArchive.Proofs.QueryReference
import FlowArchive.Proofs.Selection

/-!
# What cleaning keeps

Cleaning takes away the partitions of the days before the day of the cutoff, the directories that held nothing
else, and nothing more. Since every block stands in the partition of its day, no block from the cutoff on is lost,
and a query that starts at the cutoff or later has the same answer before and after.
-/

namespace FlowArchive

open FlowArchive.Path (IsName)

/-! ## Blocks and their days -/

/-- Blocks are listed and stored in the partitions of their days. -/
structure Disk.Dated (d : Disk) (l : Location) : Prop where
  listed : ∀ i t x, x ∈ d.indexAt l i (Archive.partitionName t) → x.time.startOfDay = t
  stored : ∀ i t u, d.content? (l ++ [i, Archive.partitionName t, Archive.blockName u]) ≠ none → u.startOfDay = t

namespace Archive

variable {a : Archive} {token : LockToken} {c d e : Disk} {l m : Location} {i n : String} {t u : Timestamp}
  {cutoff now : Timestamp} {report : SweepReport} {p : Path} {range : TimeRange}

theorem dated_of_fewer (dated : d.Dated l)
    (fewer : ∀ i n x s, e.content? (l ++ [i, n, x]) = some s → d.content? (l ++ [i, n, x]) = some s) : e.Dated l := by
  constructor
  · intro i t x member
    refine dated.listed i t x ?_
    rw [Disk.indexAt] at member ⊢
    cases held : e.content? (l ++ [i, partitionName t, indexName]) with
    | none => simp [held] at member
    | some s => rwa [fewer _ _ _ s held, ← held]
  · intro i t u present
    obtain ⟨s, held⟩ := Option.ne_none_iff_exists'.1 present
    exact dated.stored i t u (by rw [fewer _ _ _ s held]; simp)

/-- A block is written to the partition of its day. -/
theorem Consistent.dated_write {i : String} {fs : List Flow} {x : Descriptor} (before : a.Consistent l d)
    (dated : d.Dated l) (wrote : (a.writeBlock token i t fs).runOn d = (.ok x, e)) : e.Dated l := by
  have indexes := before.indexAt_write wrote
  obtain ⟨-, rfl, -, b, c, extended, -, -, filed, stored⟩ := writeBlock_ok before.leads wrote
  constructor
  · intro j u y member
    by_cases here : j = i ∧ partitionName u = partitionName t.startOfDay
    · rw [indexes, if_pos here, List.mem_append, List.mem_singleton] at member
      rcases member with listed | rfl
      · exact dated.listed j u y listed
      · exact (partitionName_inj here.2).symm
    · rw [indexes, if_neg here] at member
      exact dated.listed j u y member
  · intro j u v present
    have unchanged := stored.rest _ (not_isLedgerFile l j (partitionName u) [blockName v])
    by_cases here : j = i ∧ partitionName u = partitionName t.startOfDay ∧ blockName v = blockName t
    · rw [blockName_inj here.2.2, partitionName_inj here.2.1]
    · have same : c.at? (l ++ [j, partitionName u, blockName v]) = b.at? (l ++ [j, partitionName u, blockName v]) := by
        refine filed.rest _ (fun written => ?_) (fun indexed => ?_) fun drafted => ?_
        · simp only [List.append_assoc, List.cons_append, List.nil_append, List.append_cancel_left_eq,
            List.cons.injEq, and_true] at written
          exact here written
        · simp [blockName_ne_index] at indexed
        · simp [blockName_ne_draftName] at drafted
      rw [Disk.content?_congr (unchanged.trans same), extended.content?] at present
      exact dated.stored j u v present

/-- Whatever calls succeed on a new archive, blocks are in the partitions of their days. -/
theorem Runs.dated {calls : List Call} (fresh : a.IsFresh l d) (runs : a.Runs l d calls e) : e.Dated l := by
  induction runs with
  | start =>
    have none : ∀ i n x, d.content? (l ++ [i, n, x]) = .none := by
      intro i n x
      rw [Disk.content?, fresh.empty _ (by simp)]
    constructor
    · intro i t x member
      rw [Disk.indexAt, none] at member
      cases member
    · exact fun i t u present => absurd (none _ _ _) present
  | @call calls c e call before succeeds fits ih =>
    have consistent := (before.consistent fresh).1
    cases call with
    | write token interface time flows =>
      obtain ⟨x, wrote⟩ := succeeds
      exact consistent.dated_write ih wrote
    | clean token now cutoff =>
      obtain ⟨report, cleaned⟩ := succeeds
      obtain ⟨names, c', old, swept, -, stored⟩ := clean_ok consistent.leads consistent.tree cleaned
      exact dated_of_fewer ih fun i n x s held => stored.content?_before swept.loses held
    | wipe token =>
      obtain ⟨count, wiped⟩ := succeeds
      obtain ⟨c', loses, -, stored⟩ := wipe_ok consistent.leads consistent.tree wiped
      refine dated_of_fewer ih fun i n x s held => ?_
      simp [Disk.content?, stored.at?_of_wiped consistent.tree loses i n [x]] at held

theorem isEarlier_partitionName (day t : Timestamp) : isEarlier day (partitionName t) = decide (t < day) := by
  rw [isEarlier, partitionDay?_partitionName, Option.any_some]

theorem isStale_partitionName {day : Timestamp} : d.IsStale l day i (partitionName t) ↔
    d.at? (l ++ [i, partitionName t]) = some .directory ∧ t < day := by
  rw [Disk.IsStale, isEarlier_partitionName, decide_eq_true_iff]

theorem isEarlier_iff {day : Timestamp} : isEarlier day n = true ↔ ∃ t, n = partitionName t ∧ t < day := by
  constructor
  · intro earlier
    obtain ⟨t, found, early⟩ := (Option.any_eq_true _ _).1 earlier
    exact ⟨t, (partitionName_of_partitionDay? found).symm, of_decide_eq_true early⟩
  · rintro ⟨t, rfl, early⟩
    rw [isEarlier_partitionName, decide_eq_true_iff]
    exact early

/-- What cleaning up to a cutoff makes of a disk. -/
structure CleansExactly (a : Archive) (l : Location) (cutoff : Timestamp) (d e : Disk) : Prop where
  /-- The partitions that remain are those of the day of the cutoff and later. -/
  partitions : ∀ i t, e.at? (l ++ [i, partitionName t]) = some .directory ↔
    d.at? (l ++ [i, partitionName t]) = some .directory ∧ cutoff.startOfDay ≤ t
  /-- What is not in an earlier partition stays as it is, whatever it is; only the files of the ledger and the
  directories of interfaces may not. -/
  rest : ∀ m, (∀ i t, d.at? (l ++ [i, partitionName t]) = some .directory → t < cutoff.startOfDay →
    ¬ l ++ [i, partitionName t] <+: m) → ¬ IsLedgerFile l m → (∀ i, m = l ++ [i] → d.at? m ≠ some .directory) →
    e.at? m = d.at? m
  /-- The directory of an interface goes if and only if nothing but earlier partitions is in it. -/
  interfaces : ∀ i, d.at? (l ++ [i]) = some .directory → (e.at? (l ++ [i]) ≠ some .directory ↔
    ∀ n, d.at? (l ++ [i, n]) ≠ none →
      d.at? (l ++ [i, n]) = some .directory ∧ ∃ t, n = partitionName t ∧ t < cutoff.startOfDay)
  /-- No block from the cutoff on is lost. -/
  stored : ∀ i t u, cutoff ≤ u →
    e.content? (l ++ [i, partitionName t, blockName u]) = d.content? (l ++ [i, partitionName t, blockName u])
  listed : ∀ i t x, cutoff ≤ x.time →
    (x ∈ e.indexAt l i (partitionName t) ↔ x ∈ d.indexAt l i (partitionName t))
  /-- A query for all interfaces from the cutoff on has the same answer. -/
  queries : ∀ hosts q, q.interfaces = .any → cutoff ≤ q.range.first →
    ((a.query hosts q).runOn e).1 = ((a.query hosts q).runOn d).1

section

variable {names : List String} {s : Summary} {day : Timestamp}

/-! ## What remains of the disk -/

theorem Swept.leadsAfter (swept : a.Swept l day names report d c) (stored : a.Stored l s c e) : e.LeadsTo a.root l :=
  swept.leads.mono stored.keepsDirectories

theorem Swept.directoryBefore (swept : a.Swept l day names report d c) (stored : a.Stored l s c e)
    (there : e.at? m = some .directory) : d.at? m = some .directory :=
  swept.loses.within.held _ _ (stored.directory_iff.1 there)

theorem Swept.partition_iff (swept : a.Swept l day names report d c) (stored : a.Stored l s c e) (i : String)
    (t : Timestamp) : e.at? (l ++ [i, partitionName t]) = some .directory ↔
      d.at? (l ++ [i, partitionName t]) = some .directory ∧ day ≤ t := by
  by_cases stale : d.IsStale l day i (partitionName t)
  · rw [stored.at?_of_isStale swept.loses stale []]
    have early := (isStale_partitionName.1 stale).2
    simp [Int64.not_le.2 early]
  · rw [stored.at?_of_not_isStale swept.loses stale []]
    refine (and_iff_left_of_imp fun there => ?_).symm
    rw [isStale_partitionName, not_and] at stale
    exact Int64.not_lt.1 (stale there)

theorem Swept.at?_rest (swept : a.Swept l day names report d c) (stored : a.Stored l s c e)
    (outside : ∀ i t, d.at? (l ++ [i, partitionName t]) = some .directory → t < day → ¬ l ++ [i, partitionName t] <+: m)
    (notLedger : ¬ IsLedgerFile l m) (notInterface : ∀ i, m = l ++ [i] → d.at? m ≠ some .directory) :
    e.at? m = d.at? m := by
  rw [stored.rest m notLedger]
  refine swept.loses.rest m ?_
  rintro ⟨i, ⟨n, ⟨there, earlier⟩, below⟩ | ⟨⟨there, -⟩, rfl⟩⟩
  · obtain ⟨t, rfl, early⟩ := isEarlier_iff.1 earlier
    exact outside i t there early below
  · exact notInterface i rfl there

theorem Swept.interface_iff (swept : a.Swept l day names report d c) (stored : a.Stored l s c e)
    (there : d.at? (l ++ [i]) = some .directory) : e.at? (l ++ [i]) ≠ some .directory ↔ d.IsAllStale l day i := by
  rw [Ne, stored.directory_iff, ← Disk.exists_isSwept_interface_iff]
  constructor
  · intro gone
    by_contra kept
    rw [swept.loses.rest _ kept] at gone
    exact gone there
  · intro gone
    rw [swept.loses.away _ gone]
    simp

/-- A partition of an earlier day has no block from a later time on. -/
theorem not_early (early : t < cutoff.startOfDay) (later : cutoff ≤ u) : u.startOfDay ≠ t := by
  rintro rfl
  exact absurd early (Int64.not_lt.2 (Timestamp.startOfDay_mono later))

theorem Swept.block_eq (swept : a.Swept l cutoff.startOfDay names report d c) (stored : a.Stored l s c e)
    (dated : d.Dated l) (later : cutoff ≤ u) (i : String) (t : Timestamp) :
    e.content? (l ++ [i, partitionName t, blockName u]) = d.content? (l ++ [i, partitionName t, blockName u]) := by
  by_cases stale : d.IsStale l cutoff.startOfDay i (partitionName t)
  · rw [Disk.content?, stored.at?_of_isStale swept.loses stale [blockName u]]
    by_contra lost
    exact not_early (isStale_partitionName.1 stale).2 later (dated.stored i t u (Ne.symm lost))
  · exact Disk.content?_congr (stored.at?_of_not_isStale swept.loses stale [blockName u])

theorem Swept.listed_iff {x : Descriptor} (swept : a.Swept l cutoff.startOfDay names report d c)
    (stored : a.Stored l s c e) (dated : d.Dated l) (later : cutoff ≤ x.time) (i : String) (t : Timestamp) :
    x ∈ e.indexAt l i (partitionName t) ↔ x ∈ d.indexAt l i (partitionName t) := by
  by_cases stale : d.IsStale l cutoff.startOfDay i (partitionName t)
  · rw [Disk.indexAt_of_absent (stored.at?_of_isStale swept.loses stale [indexName])]
    refine ⟨fun member => absurd member List.not_mem_nil, fun member => ?_⟩
    exact absurd (dated.listed i t x member) (not_early (isStale_partitionName.1 stale).2 later)
  · rw [Disk.indexAt_congr (stored.at?_of_not_isStale swept.loses stale [indexName])]

/-! ## What queries find -/

/-- An archive is there wherever its path leads to the same directory. -/
theorem checkExists_congr (leads : d.LeadsTo a.root l) (also : e.LeadsTo a.root l) :
    (a.checkExists.runOn e).1 = (a.checkExists.runOn d).1 := by
  unfold checkExists
  split
  · rfl
  · refine Action.outcome_bind (Action.reads_kind a.root) ?_ fun k _ => ?_
    · rw [Action.runOn_kind, Action.runOn_kind, Disk.kind_congr (leads.find_congr also)]
    · cases k with
      | none => rfl
      | some k => cases k <;> rfl

theorem checkExists_stays (leads : d.LeadsTo a.root l) (also : e.LeadsTo a.root l)
    (present : a.checkExists.runOn d = (.ok (), d)) : a.checkExists.runOn e = (.ok (), e) := by
  have found := checkExists_congr leads also
  rw [present] at found
  exact Prod.ext found (reads_checkExists a e)

/-- What is on the way to something in a partition that remains is the same before and after. -/
theorem Swept.way_eq (swept : a.Swept l day names report d c) (stored : a.Stored l s c e)
    (leads : d.LeadsTo a.root l) (there : e.at? (l ++ [i]) = some .directory) (fresh : ¬ d.IsStale l day i n)
    {rest k : List String} (front : k <+: i :: n :: rest) : e.at? (l ++ k) = d.at? (l ++ k) := by
  match k with
  | [] => rw [List.append_nil, leads.directory, (swept.leadsAfter stored).directory]
  | [j] =>
    obtain ⟨rfl, -⟩ := List.cons_prefix_cons.1 front
    rw [there, swept.directoryBefore stored there]
  | j :: o :: rest' =>
    obtain ⟨rfl, inner⟩ := List.cons_prefix_cons.1 front
    obtain ⟨rfl, -⟩ := List.cons_prefix_cons.1 inner
    exact stored.at?_of_not_isStale swept.loses fresh rest'

/-- A partition of an earlier day has no block in a range from the cutoff on. -/
theorem refsOf_eq_nil (dated : d.Dated l) (leads : d.LeadsTo a.root l) (name : IsName i)
    (early : t < cutoff.startOfDay) (later : cutoff ≤ range.first) :
    refsOf d range i (t, (a.interfacePath i).join (partitionName t)) = [] := by
  unfold refsOf
  split
  · have none : (d.indexOf ((a.interfacePath i).join (partitionName t))).filter (fun y => range.contains y.time) = [] := by
      refine List.filter_eq_nil_iff.2 fun y member inside => ?_
      have day := dated.listed i t y (indexOf_subset leads name (isName_partition t) member)
      simp only [TimeRange.contains, Bool.and_eq_true, decide_eq_true_iff] at inside
      exact not_early early (Int64.le_trans later inside.1) day
    rw [none, List.map_nil]
  · rfl

/-- After cleaning, the same blocks from the cutoff on are selected. -/
theorem Swept.blocksAt_eq (swept : a.Swept l cutoff.startOfDay names report d c) (stored : a.Stored l s c e)
    (leads : d.LeadsTo a.root l) (tree : d.IsTree l) (dated : d.Dated l) (later : cutoff ≤ range.first) :
    a.blocksAt e l range = a.blocksAt d l range := by
  have kept : ∀ i, e.at? (l ++ [i]) = some .directory ↔
      d.at? (l ++ [i]) = some .directory ∧ decide (e.at? (l ++ [i]) = some .directory) = true := by
    intro i
    rw [decide_eq_true_iff]
    refine (and_iff_right_of_imp fun there => ?_).symm
    exact swept.directoryBefore stored there
  have names : ∀ i ∈ interfacesOf d l, IsName i := fun i member => tree.isName (mem_interfacesOf.1 member)
  unfold blocksAt
  rw [interfacesOf_eq_filter _ kept]
  refine flatMap_filter_eq (fun i member remains => ?_) fun i member gone => ?_
  · have there := of_decide_eq_true remains
    have days : ∀ t, e.at? (l ++ [i, partitionName t]) = some .directory ↔
        d.at? (l ++ [i, partitionName t]) = some .directory ∧ decide (cutoff.startOfDay ≤ t) = true := by
      intro t
      rw [swept.partition_iff stored, decide_eq_true_iff]
    rw [partitionsOf_eq_filter _ days]
    refine flatMap_filter_eq ?_ ?_
    · rintro ⟨t, p⟩ listed remains
      obtain ⟨-, rfl⟩ := mem_partitionsOf.1 listed
      have fresh : ¬ d.IsStale l cutoff.startOfDay i (partitionName t) := fun stale =>
        absurd (isStale_partitionName.1 stale).2 (Int64.not_lt.2 (of_decide_eq_true remains))
      have same := indexOf_congr leads (swept.leadsAfter stored) (names i member)
        (isName_partition t) fun k front => swept.way_eq stored leads there fresh front
      rw [refsOf, refsOf, same]
    · rintro ⟨t, p⟩ listed gone
      obtain ⟨-, rfl⟩ := mem_partitionsOf.1 listed
      exact refsOf_eq_nil dated leads (names i member) (Int64.not_le.1 (of_decide_eq_false gone)) later
  · have allStale := (swept.interface_iff stored (mem_interfacesOf.1 member)).1 (of_decide_eq_false gone)
    refine List.flatMap_eq_nil_iff.2 ?_
    rintro ⟨t, p⟩ listed
    obtain ⟨there, rfl⟩ := mem_partitionsOf.1 listed
    have stale := allStale.2 (partitionName t) (by rw [there]; simp)
    exact refsOf_eq_nil dated leads (names i member) (isStale_partitionName.1 stale).2 later

theorem partition_of_mem_refsOf {b : BlockRef} {x : Timestamp × Path} (member : b ∈ refsOf d range i x) :
    b.partition = x.2 := by
  unfold refsOf at member
  split at member
  · obtain ⟨y, -, rfl⟩ := List.mem_map.1 member
    rfl
  · cases member

/-- The blocks that are selected after cleaning are read as before. -/
theorem Swept.flowsOf_eq (swept : a.Swept l day names report d c) (stored : a.Stored l s c e)
    (leads : d.LeadsTo a.root l) (tree : d.IsTree l) {b : BlockRef} (selected : b ∈ a.blocksAt e l range) :
    e.flowsOf b = d.flowsOf b := by
  obtain ⟨i, interface, selected⟩ := List.mem_flatMap.1 selected
  obtain ⟨⟨t, p⟩, partition, selected⟩ := List.mem_flatMap.1 selected
  have there := mem_interfacesOf.1 interface
  obtain ⟨remains, rfl⟩ := mem_partitionsOf.1 partition
  have name := tree.isName (swept.directoryBefore stored there)
  have fresh : ¬ d.IsStale l day i (partitionName t) := fun stale =>
    absurd (isStale_partitionName.1 stale).2 (Int64.not_lt.2 ((swept.partition_iff stored i t).1 remains).2)
  have path : b.path = Disk.joins a.root [i, partitionName t, blockName b.descriptor.time] := by
    rw [BlockRef.path, partition_of_mem_refsOf selected]
    rfl
  have are : ∀ x ∈ [i, partitionName t, blockName b.descriptor.time], IsName x := by
    simp only [List.forall_mem_cons, List.not_mem_nil, false_implies, implies_true, and_true]
    exact ⟨name, isName_partition t, isName_block _⟩
  have found := Disk.find_joins_congr leads (swept.leadsAfter stored) are fun k front =>
    swept.way_eq stored leads there fresh front
  rw [← path] at found
  rw [Disk.flowsOf, Disk.flowsOf, Disk.read_congr found]

/-- A query that starts at the cutoff or later has the same answer after cleaning. -/
theorem Swept.query_eq (swept : a.Swept l cutoff.startOfDay names report d c) (stored : a.Stored l s c e)
    (leads : d.LeadsTo a.root l) (tree : d.IsTree l) (dated : d.Dated l) (hosts : Resolver) {q : Query}
    (any : q.interfaces = .any) (later : cutoff ≤ q.range.first) :
    ((a.query hosts q).runOn e).1 = ((a.query hosts q).runOn d).1 := by
  have leads' : e.LeadsTo a.root l := swept.leadsAfter stored
  have present := checkExists_congr leads leads'
  have are : ∀ i, d.at? (l ++ [i]) = some .directory → IsName i ∧ Disk.joinFault? a.root i = none := fun i there =>
    ⟨tree.isName there, swept.fine there⟩
  have are' : ∀ i, e.at? (l ++ [i]) = some .directory → IsName i ∧ Disk.joinFault? a.root i = none := fun i there =>
    are i (swept.directoryBefore stored there)
  have before : (a.blocksInRange q.interfaces q.range).runOn d = (.ok (a.blocksAt d l q.range), d) := by
    rw [any, runOn_blocksInRange leads swept.listed are]
  have same := swept.blocksAt_eq stored leads tree dated later
  have after : (a.blocksInRange q.interfaces q.range).runOn e = (.ok (a.blocksAt d l q.range), e) := by
    rw [any, runOn_blocksInRange leads' (leads.list_congr leads' swept.listed) are', same]
  unfold query
  refine Action.outcome_bind (fun _ => rfl) rfl fun start _ => ?_
  refine Action.outcome_bind (reads_checkExists a) present fun _ _ => ?_
  refine Action.outcome_bind (fun _ => rfl) rfl fun _ _ => ?_
  refine Action.outcome_bind (fun _ => rfl) rfl fun p _ => ?_
  refine Action.outcome_bind (reads_blocksInRange a _ _) (by rw [before, after]) fun bs selected => ?_
  rw [before] at selected
  cases selected
  refine Action.outcome_bind (fun d => by rw [runOn_scanAll]) ?_ fun outcomes _ => ?_
  · have outcomes : (a.blocksAt d l q.range).map (outcomeAt e p q.grouping) =
        (a.blocksAt d l q.range).map (outcomeAt d p q.grouping) := by
      refine List.map_congr_left fun b member => ?_
      rw [outcomeAt, outcomeAt, swept.flowsOf_eq stored leads tree (same ▸ member)]
    rw [runOn_scanAll, runOn_scanAll, outcomes]
  · cases Pipeline.collect outcomes with
    | ok aggregate => rfl
    | error f => cases f <;> rfl

end

/-- Cleaning removes exactly what is of the days before the cutoff. -/
theorem cleans_exactly (leads : d.LeadsTo a.root l) (tree : d.IsTree l) (dated : d.Dated l)
    (cleaned : (a.clean token now cutoff).runOn d = (.ok report, e)) : a.CleansExactly l cutoff d e := by
  obtain ⟨names, c, old, swept, -, stored⟩ := clean_ok leads tree cleaned
  constructor
  case partitions => exact swept.partition_iff stored
  case rest => exact fun m outside notLedger notInterface => swept.at?_rest stored outside notLedger notInterface
  case interfaces =>
    intro i there
    rw [swept.interface_iff stored there, Disk.IsAllStale, and_iff_right there]
    simp only [Disk.IsStale, isEarlier_iff]
  case stored => exact fun i t u later => swept.block_eq stored dated later i t
  case listed => exact fun i t x later => swept.listed_iff stored dated later i t
  case queries => exact fun hosts q any later => swept.query_eq stored leads tree dated hosts any later

/-- The disk after the one block was cleaned away. -/
def cleanedDisk : Disk := ((newArchive.clean [] 200000 100000).runOn writtenDisk).2

theorem cleans_exactly_one_block : newArchive.CleansExactly ["data"] 100000 writtenDisk cleanedDisk := by
  have consistent := (runs_writtenDisk.consistent isFresh_newDisk).1
  have cleaned : (newArchive.clean [] 200000 100000).runOn writtenDisk =
      (.ok ⟨[("eth0", ⟨1, 7, none, true, 1⟩)]⟩, cleanedDisk) := Prod.ext (Action.toOption_eq_some.1 (by decide +kernel)) rfl
  exact cleans_exactly consistent.leads consistent.tree (runs_writtenDisk.dated isFresh_newDisk) cleaned

end Archive

end FlowArchive
