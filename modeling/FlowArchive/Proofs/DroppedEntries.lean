import FlowArchive.Proofs.CleaningsCompose
import FlowArchive.Proofs.IndexEntries
import FlowArchive.Proofs.StoreConsistency

/-!
# Entries that cleaning drops

An interface without a retained partition has no entry after cleaning. The converse holds only if an index tells of
what is retained: the sweep of an interface takes it for gone if it has read no time of a block, so an entry is dropped
beside a partition that stays, if the index of that partition is missing or empty or cannot be read, or if its first
entry is damaged. Such a partition is none that a call has left that succeeded.
-/

namespace FlowArchive

namespace Disk

variable {d : Disk} {p : Path}

/-- The index of a partition can be read, and its first entry is sound. -/
def IndexBegins (d : Disk) (p : Path) : Prop :=
  ∃ s x n, d.read (Archive.indexPath p) = .ok s ∧ Index.readEntry s = .ok (x, n)

theorem indexBegins_iff : d.IndexBegins p ↔ d.indexOf p ≠ [] := by
  unfold IndexBegins indexOf
  cases d.read (Archive.indexPath p) with
  | error f => simp
  | ok s =>
    cases entry : Index.readEntry s with
    | ok found =>
      obtain ⟨x, n⟩ := found
      simp [Index.readPrefix_of_entry entry, entry]
    | error flaw =>
      by_cases empty : s = []
      · simp [empty ▸ entry, empty, Index.readPrefix_nil]
      · simp [Index.readPrefix_of_flaw empty entry, entry]

/-- The directory of an interface has a partition of a day or later. -/
def Retains (d : Disk) (l : Location) (day : Timestamp) (i : String) : Prop :=
  ∃ t, day ≤ t ∧ d.at? (l ++ [i, Archive.partitionName t]) = some .directory

end Disk

namespace Archive

variable {a : Archive} {token : LockToken} {d e : Disk} {l : Location} {i n : String} {day now cutoff : Timestamp}
  {report : SweepReport} {book : List Written}

/-- One of the partitions of a day or later has an index that tells of it. -/
def TellsRetained (a : Archive) (d : Disk) (l : Location) (day : Timestamp) (i : String) : Prop :=
  ∃ t, day ≤ t ∧ d.at? (l ++ [i, partitionName t]) = some .directory ∧
    d.IndexBegins ((a.interfacePath i).join (partitionName t))

theorem TellsRetained.retains (tells : a.TellsRetained d l day i) : d.Retains l day i := by
  obtain ⟨t, late, there, -⟩ := tells
  exact ⟨t, late, there⟩

/-- The partitions that a sweep retains are those of a day or later. -/
theorem retained_iff : n ∈ d.partitionNames l i ∧ (!isEarlier day n) = true ↔
    ∃ t, day ≤ t ∧ n = partitionName t ∧ d.at? (l ++ [i, partitionName t]) = some .directory := by
  rw [Disk.mem_partitionNames]
  constructor
  · rintro ⟨⟨there, isDay⟩, fresh⟩
    obtain ⟨t, found⟩ := Option.isSome_iff_exists.1 isDay
    obtain rfl := partitionName_of_partitionDay? found
    simp only [isEarlier_partitionName, Bool.not_eq_true', decide_eq_false_iff_not, Int64.not_lt] at fresh
    exact ⟨t, fresh, rfl, there⟩
  · rintro ⟨t, late, rfl, there⟩
    have fresh : (!isEarlier day (partitionName t)) = true := by
      simpa [isEarlier_partitionName, Int64.not_lt] using late
    exact ⟨⟨there, by rw [partitionDay?_partitionName, Option.isSome_some]⟩, fresh⟩

theorem retains_iff_names : d.Retains l day i ↔ ∃ n ∈ d.partitionNames l i, (!isEarlier day n) = true := by
  simp only [retained_iff]
  constructor
  · rintro ⟨t, late, there⟩
    exact ⟨_, t, late, rfl, there⟩
  · rintro ⟨n, t, late, rfl, there⟩
    exact ⟨t, late, there⟩

/-- An index tells of what is retained if and only if a sweep reads a block in it. -/
theorem tellsRetained_iff_blocks :
    a.TellsRetained d l day i ↔ a.blocksOf d i ((d.partitionNames l i).filter fun n => !isEarlier day n) ≠ [] := by
  simp only [blocksOf, Ne, List.flatMap_eq_nil_iff, not_forall, List.mem_filter, retained_iff]
  constructor
  · rintro ⟨t, late, there, begins⟩
    exact ⟨_, ⟨t, late, rfl, there⟩, Disk.indexBegins_iff.1 begins⟩
  · rintro ⟨n, ⟨t, late, rfl, there⟩, listed⟩
    exact ⟨t, late, there, Disk.indexBegins_iff.2 listed⟩

/-- What cleaning does to the entries of a summary. -/
structure DropsEntries (a : Archive) (l : Location) (day : Timestamp) (d e : Disk) : Prop where
  summary : e.summaryAt l ≠ none
  /-- Where no interface has its directory, nothing changes. -/
  elsewhere : ∀ i, d.at? (l ++ [i]) ≠ some .directory → entryAt e l i = entryAt d l i
  /-- No entry stands for an interface of which nothing is retained. -/
  cleared : ∀ i, d.at? (l ++ [i]) = some .directory → ¬ e.Retains l day i → entryAt e l i = none
  /-- An entry is dropped if and only if no index tells of a retained partition. -/
  dropped : ∀ i, d.at? (l ++ [i]) = some .directory → entryAt d l i ≠ none →
    (entryAt e l i = none ↔ ¬ a.TellsRetained e l day i)
  /-- So it is dropped rightly if and only if an index tells of what is retained, if anything is. -/
  right : ∀ i, d.at? (l ++ [i]) = some .directory → entryAt d l i ≠ none →
    ((entryAt e l i = none ↔ ¬ e.Retains l day i) ↔ (e.Retains l day i → a.TellsRetained e l day i))

namespace Pruned

theorem retains_iff (pruned : a.Pruned l day d e) : e.Retains l day i ↔ d.Retains l day i := by
  simp only [retains_iff_names, pruned.mem_partitionNames, Bool.not_eq_true', and_assoc, and_self]

/-- The directory of an interface stays for what is retained in it. -/
theorem stays (pruned : a.Pruned l day d e) (tree : d.IsTree l) (retains : d.Retains l day i) :
    e.at? (l ++ [i]) = some .directory := by
  obtain ⟨t, late, there⟩ := retains
  refine (pruned.directory_iff i).2 ⟨tree.parent (by rw [there]; simp), fun allStale => ?_⟩
  have stale := allStale.2 (partitionName t) (by rw [there]; simp)
  exact absurd (isStale_partitionName.1 stale).2 (Int64.not_lt.2 late)

/-- Cleaning leaves the indexes of what it retains. -/
theorem tellsRetained_iff (pruned : a.Pruned l day d e) (leads : d.LeadsTo a.root l) (tree : d.IsTree l) :
    a.TellsRetained e l day i ↔ a.TellsRetained d l day i := by
  -- Paths lead to the same indexes as long as the directory of the interface stays.
  by_cases retains : d.Retains l day i
  · have stays := pruned.stays tree retains
    have name := tree.isName ((pruned.directory_iff i).1 stays).1
    have same := pruned.blocksOf_perm leads name stays fun n => !isEarlier day n
    simp only [Bool.and_self] at same
    rw [tellsRetained_iff_blocks, tellsRetained_iff_blocks]
    exact not_congr ⟨fun empty => (empty ▸ same).nil_eq.symm, fun empty => (empty ▸ same).eq_nil⟩
  · exact iff_of_false (fun tells => retains (pruned.retains_iff.1 tells.retains)) fun tells => retains tells.retains

/-- A sweep that has read no block in what it retains leaves no entry. -/
theorem entryAt_eq_none_iff (pruned : a.Pruned l day d e) (leads : d.LeadsTo a.root l) (tree : d.IsTree l)
    (there : d.at? (l ++ [i]) = some .directory) :
    entryAt e l i = none ↔ entryAt d l i = none ∨ ¬ a.TellsRetained e l day i := by
  obtain ⟨old, new, before, reduced, stored⟩ := pruned.summary
  rw [entryAt_of_summaryAt before, entryAt_of_summaryAt (summaryAt_of_written stored)]
  rcases reduced i with ⟨absent, -⟩ | ⟨-, w, reports, changed⟩
  · exact absurd there absent
  · rw [changed, reports.counts.reduced_eq_none_iff, pruned.tellsRetained_iff leads tree, tellsRetained_iff_blocks,
      not_not]

theorem entryAt_elsewhere (pruned : a.Pruned l day d e) (absent : d.at? (l ++ [i]) ≠ some .directory) :
    entryAt e l i = entryAt d l i := by
  obtain ⟨old, new, before, reduced, stored⟩ := pruned.summary
  rw [entryAt_of_summaryAt before, entryAt_of_summaryAt (summaryAt_of_written stored)]
  rcases reduced i with ⟨-, same⟩ | ⟨there, -⟩
  · exact same
  · exact absurd there absent

end Pruned

/-- Cleaning drops the entry of an interface if and only if no index tells of what it retains. -/
theorem drops_entries (leads : d.LeadsTo a.root l) (tree : d.IsTree l)
    (cleaned : (a.clean token now cutoff).runOn d = (.ok report, e)) : a.DropsEntries l cutoff.startOfDay d e := by
  have pruned := clean_pruned leads tree cleaned
  have dropped : ∀ i, d.at? (l ++ [i]) = some .directory → entryAt d l i ≠ none →
      (entryAt e l i = none ↔ ¬ a.TellsRetained e l cutoff.startOfDay i) :=
    fun i there entered => (pruned.entryAt_eq_none_iff leads tree there).trans (or_iff_right entered)
  constructor
  case summary =>
    obtain ⟨-, new, -, -, stored⟩ := pruned.summary
    simp [summaryAt_of_written stored]
  case elsewhere => exact fun i absent => pruned.entryAt_elsewhere absent
  case cleared =>
    intro i there nothing
    exact (pruned.entryAt_eq_none_iff leads tree there).2 (.inr fun tells => nothing tells.retains)
  case dropped => exact dropped
  case right =>
    intro i there entered
    rw [dropped i there entered]
    constructor
    · exact fun right retains => not_not.1 fun silent => right.1 silent retains
    · exact fun tells => not_congr ⟨TellsRetained.retains, tells⟩

/-! ### An index that was emptied -/

/-- The written disk with nothing in the index of its partition. -/
def emptiedDisk : Disk := writtenDisk.put ["data", "eth0", "0", indexName] (.file [])

/-- What a cleaning up to the only block leaves. -/
def forgottenDisk : Disk := ((newArchive.clean [] 200000 5).runOn emptiedDisk).2

theorem clean_emptied : (newArchive.clean [] 200000 5).runOn emptiedDisk =
    (.ok ⟨[("eth0", ⟨0, 0, none, false, 0⟩)]⟩, forgottenDisk) := Prod.ext (Action.toOption_eq_some.1 (by decide +kernel)) rfl

theorem drops_entries_emptied :
    newArchive.DropsEntries ["data"] (5 : Timestamp).startOfDay emptiedDisk forgottenDisk := by
  have written := (runs_writtenDisk.consistent isFresh_newDisk).1
  have emptied : Disk.Edits (fun _ => True) writtenDisk emptiedDisk :=
    Disk.edits_put (k := ["data", "eth0", "0"]) trivial isName_index (by decide +kernel) (by decide +kernel) []
  exact drops_entries (emptied.leadsTo_iff.2 written.leads) (emptied.isTree written.tree) clean_emptied

/-- A cleaning that removes nothing drops the entry of an interface whose only block it retains. -/
theorem retained_loses_entry :
    (newArchive.clean [] 200000 5).runOn emptiedDisk = (.ok ⟨[("eth0", ⟨0, 0, none, false, 0⟩)]⟩, forgottenDisk) ∧
    forgottenDisk.Retains ["data"] (5 : Timestamp).startOfDay "eth0" ∧
    forgottenDisk.content? (blockPlace ["data"] "eth0" 5) ≠ none ∧
    entryAt emptiedDisk ["data"] "eth0" = some ⟨1, 7, 5⟩ ∧ entryAt forgottenDisk ["data"] "eth0" = none :=
  ⟨clean_emptied, ⟨0, by decide +kernel, by decide +kernel⟩, by decide +kernel⟩

/-! ## Archives that only calls have changed -/

/-- By the book, the index of every partition lists a block. -/
theorem Keeps.tellsRetained_iff (keeps : a.Keeps l book d) : a.TellsRetained d l day i ↔ d.Retains l day i := by
  refine ⟨TellsRetained.retains, fun ⟨t, late, there⟩ => ⟨t, late, there, Disk.indexBegins_iff.2 ?_⟩⟩
  obtain ⟨w, member, ⟨rfl, same⟩, -⟩ := keeps.inside i (partitionName t) [] (by rw [there]; simp)
  have name := keeps.tree.isName (keeps.tree.parent (by rw [there]; simp))
  have readable := same ▸ keeps.readable w member
  rw [indexOf_eq_indexAt keeps.leads keeps.tree name (isName_partition t) fun _ => readable]
  exact List.ne_nil_of_mem (keeps.mem_indexAt.2 ⟨w, member, ⟨rfl, same⟩, rfl⟩)

/-- Where writes, cleanings and wipes that succeeded have left an archive, cleaning drops the entries of exactly the
interfaces of which nothing is retained. -/
theorem Keeps.dropped_iff (keeps : a.Keeps l book d) (cleaned : (a.clean token now cutoff).runOn d = (.ok report, e))
    (there : d.at? (l ++ [i]) = some .directory) (entered : entryAt d l i ≠ none) :
    entryAt e l i = none ↔ ¬ e.Retains l cutoff.startOfDay i :=
  ((drops_entries keeps.leads keeps.tree cleaned).right i there entered).2 (keeps.clean cleaned).tellsRetained_iff.2

end Archive

end FlowArchive
