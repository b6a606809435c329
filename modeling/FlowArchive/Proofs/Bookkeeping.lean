import FlowArchive.Proofs.FailedWrite
import FlowArchive.Proofs.Retention

/-!
# An archive by the book

A book lists the blocks that were written and have not been cleaned or wiped away since. It tells the whole of what
stands below the interfaces of an archive: the file of each block, the index of each partition, and nothing else.
Each call that succeeds does to the disk what it does to the book, and a write that is refused does nothing.
-/

namespace FlowArchive

open FlowArchive.Path (IsName)
open Disk (Extends snoc_ne_nil)

namespace Archive

variable {a : Archive} {token : LockToken} {b c d e : Disk} {l m : Location} {i j n : String} {t : Timestamp}
  {fs : List Flow} {x : Descriptor}

/-! ## Writes that are refused -/

/-- Something was refused by the archive itself. -/
def IsRefusal (x : Failure) : Prop := ∃ r, x = .refused r

theorem not_isRefusal_fault (g : Fault) : ¬ IsRefusal (.fault g) := by simp [IsRefusal]

/-- A file that is found once the directories on its way are made was there before. -/
theorem block_of_made (leads : d.LeadsTo a.root l) (name : IsName i)
    (made : (d.makeDirectories (a.partitionPath i t)).2 = b)
    (present : b.kind (blockPath (a.partitionPath i t) t) ≠ none) :
    i.utf8ByteSize ≤ Path.longestName ∧ (partitionName t.startOfDay).utf8ByteSize ≤ Path.longestName ∧
      Disk.joinFault? (a.partitionPath i t) (blockName t) = none ∧
      d.at? (l ++ [i, partitionName t.startOfDay, blockName t]) ≠ none := by
  have leads' := leads.mono (made ▸ Disk.makeDirectories_extends d (a.partitionPath i t)).keepsDirectories
  cases found : b.find (blockPath (a.partitionPath i t) t) with
  | error g => simp [Disk.kind, found] at present
  | ok place =>
    obtain ⟨k, inside, fine, rfl⟩ := Disk.find_join_inv (isName_block t) found
    obtain ⟨rfl, short, short'⟩ := leadsTo_partition leads' name (isName_partition _) inside
    refine ⟨short, short', fine, fun absent => present ?_⟩
    have same := Disk.at?_makeDirectories (x := i) (y := partitionName t.startOfDay)
      (m := l ++ [i, partitionName t.startOfDay, blockName t]) leads name (isName_partition _) (by simp) (by simp)
    have unmade : b.at? (l ++ [i, partitionName t.startOfDay, blockName t]) = none := by
      rw [← made, ← absent]
      exact same
    simp [Disk.kind, found, unmade]

/-- A write that is refused changes nothing: the name is no name, or the block is there. -/
theorem writeBlock_refused {r : Refusal} (leads : d.LeadsTo a.root l) (tree : d.IsTree l)
    (refused : (a.writeBlock token i t fs).runOn d = (.error (.refused r), e)) : e = d := by
  have isRefusal : IsRefusal (.refused r) := ⟨r, rfl⟩
  have faults := not_isRefusal_fault
  by_cases valid : isInterfaceName i = true
  · have steps := refused
    rw [writeBlock, if_pos valid] at steps
    rcases Action.runOn_bind_error_iff.1 steps with unmade | ⟨⟨⟩, b, made, rest⟩
    · exact absurd isRefusal (Action.avoids_ask faults _ _ _ _ unmade)
    rcases Action.runOn_bind_error_iff.1 rest with unseen | ⟨k, c, seen, rest⟩
    · exact absurd isRefusal (Action.avoids_kind _ _ _ _ unseen)
    rw [Action.runOn_kind] at seen
    cases seen
    split at rest
    next k present =>
      have made' := congrArg Prod.snd (Action.runOn_ask_ok_iff.1 made)
      obtain ⟨short, short', fine, there⟩ :=
        block_of_made leads (isName_of_isInterfaceName valid) made' (by rw [present]; simp)
      obtain ⟨entry, there⟩ := Option.ne_none_iff_exists'.1 there
      rw [writeBlock_blocked valid leads tree short short' fine there] at refused
      cases refused
      rfl
    next absent =>
      -- From here on requests fail, or the lock is not had in time.
      refine absurd isRefusal (Action.avoids_bind (avoids_replaceFile faults _ _ _ _) (fun _ => ?_) _ _ _ rest)
      refine Action.avoids_bind (Action.avoids_bind (Action.avoids_ask faults _) fun _ => Action.avoids_ask faults _)
        fun _ => ?_
      exact Action.avoids_bind (avoids_modify faults (by simp [IsRefusal]) (by simp)) fun _ => Action.avoids_pure _
  · rw [writeBlock, if_neg valid] at refused
    cases refused
    rfl

/-! ## Writes that succeed -/

/-- A block has been written: its file stands and its entry is in the index. Apart from the directories on the way,
the draft and the files of the ledger, nothing else has changed. -/
structure Entered (a : Archive) (l : Location) (i : String) (t : Timestamp) (fs : List Flow) (d e : Disk) : Prop where
  readable : a.Readable i (partitionName t.startOfDay)
  fine : Disk.joinFault? (a.partitionPath i t) (blockName t) = none
  before : d.at? (blockPlace l i t) = none
  keeps : Disk.KeepsDirectories d e
  tree : e.IsTree l
  interface : e.at? (l ++ [i]) = some .directory
  block : e.at? (blockPlace l i t) = some (.file (Block.encode fs))
  index : e.content? (l ++ [i, partitionName t.startOfDay, indexName]) =
    some ((d.content? (l ++ [i, partitionName t.startOfDay, indexName])).getD [] ++ Index.writeEntry (describe t fs))
  draft : e.at? (draftPlace l i t) = none
  rest : ∀ m, m ≠ l ++ [i] → m ≠ l ++ [i, partitionName t.startOfDay] → m ≠ blockPlace l i t →
    m ≠ l ++ [i, partitionName t.startOfDay, indexName] → m ≠ draftPlace l i t → ¬ IsLedgerFile l m → e.at? m = d.at? m
  /-- The ledger has no directories. -/
  ledger : ∀ y ∈ ledgerNames, e.at? (l ++ [y]) ≠ some .directory

theorem writeBlock_entered (leads : d.LeadsTo a.root l) (tree : d.IsTree l)
    (wrote : (a.writeBlock token i t fs).runOn d = (.ok x, e)) : a.Entered l i t fs d e := by
  have fine := fine_of_writeBlock wrote
  obtain ⟨name, rfl, readable, b, c, made, there, absent, filed, stored⟩ := writeBlock_parts leads wrote
  have extended : Extends d b := made ▸ Disk.makeDirectories_extends d _
  have tree' := stored.tree l (filed.tree l (extended.isTree tree))
  have place : ∀ y, l ++ [i, partitionName t.startOfDay] ++ [y] = l ++ [i, partitionName t.startOfDay, y] := by simp
  have unmade : ∀ m, m ≠ l ++ [i] → m ≠ l ++ [i, partitionName t.startOfDay] → b.at? m = d.at? m := by
    intro m other other'
    rw [← made]
    exact Disk.at?_makeDirectories leads name (isName_partition _) other other'
  have below : ∀ y, e.at? (l ++ [i, partitionName t.startOfDay, y]) = c.at? (l ++ [i, partitionName t.startOfDay] ++ [y]) :=
    fun y => by rw [place, stored.rest _ (not_isLedgerFile l i _ _)]
  have partition : e.at? (l ++ [i, partitionName t.startOfDay]) = some .directory :=
    stored.keepsDirectories.kept _ (filed.keeps.kept _ there)
  constructor
  case readable => exact readable
  case fine => exact fine
  case before => rwa [blockPlace, ← unmade _ (by simp) (by simp)]
  case keeps => exact (extended.keepsDirectories.trans filed.keeps).trans stored.keepsDirectories
  case tree => exact tree'
  case interface => exact tree'.parent (by rw [partition]; simp)
  case block => rw [blockPlace, below, filed.block]
  case index =>
    rw [← extended.content?, ← place, Disk.content?_congr (stored.rest _ (place _ ▸ not_isLedgerFile l i _ _))]
    exact Disk.content?_eq_some.2 filed.index
  case draft => rw [draftPlace, below, filed.draft]
  case rest =>
    intro m notInterface notPartition notBlock notIndex notDraft notLedger
    rw [stored.rest m notLedger, filed.rest m (place _ ▸ notBlock) (place _ ▸ notIndex) (place _ ▸ notDraft),
      unmade m notInterface notPartition]
  case ledger =>
    intro y listed there'
    rw [stored.directory_iff] at there'
    exact stored.free y listed there'

theorem blockPlace_inj {u : Timestamp} : blockPlace l i t = blockPlace l j u ↔ i = j ∧ t = u := by
  constructor
  · intro same
    simp only [blockPlace, List.append_cancel_left_eq, List.cons.injEq, and_true] at same
    exact ⟨same.1, blockName_inj same.2.2⟩
  · rintro ⟨rfl, rfl⟩
    rfl

theorem isLedgerFile_iff {y : String} : IsLedgerFile l (l ++ [y]) ↔ y ∈ ledgerNames := by
  simp [IsLedgerFile]

namespace Entered

variable (entered : a.Entered l i t fs d e)
include entered

/-- The files of other blocks stay. -/
theorem at?_block {u : Timestamp} (other : ¬ (j = i ∧ u = t)) : e.at? (blockPlace l j u) = d.at? (blockPlace l j u) := by
  rw [entered.rest]
  · simp [blockPlace]
  · simp [blockPlace]
  · exact fun same => other (blockPlace_inj.1 same)
  · simp [blockPlace, blockName_ne_index]
  · simp [blockPlace, draftPlace, blockName_ne_draftName]
  · exact not_isLedgerFile l _ _ _

/-- The indexes of other partitions stay. -/
theorem content?_index (other : ¬ (i = j ∧ partitionName t.startOfDay = n)) :
    e.content? (l ++ [j, n, indexName]) = d.content? (l ++ [j, n, indexName]) := by
  rw [Disk.content?_congr (entered.rest _ _ _ _ _ _ _)]
  · simp
  · simp
  · simp [blockPlace, (blockName_ne_index t).symm]
  · intro same
    simp only [List.append_cancel_left_eq, List.cons.injEq, and_true] at same
    exact other ⟨same.1.symm, same.2.symm⟩
  · simp [draftPlace, (draftName_ne_index t).symm]
  · exact not_isLedgerFile l _ _ _

/-- What is new below the interfaces is the partition, its index and the block. -/
theorem inside {rest : List String} (there : e.at? (l ++ j :: n :: rest) ≠ none) :
    d.at? (l ++ j :: n :: rest) ≠ none ∨ (i = j ∧ partitionName t.startOfDay = n) ∧
      (rest = [] ∨ rest = [indexName] ∨ rest = [blockName t]) := by
  by_cases partition : l ++ j :: n :: rest = l ++ [i, partitionName t.startOfDay]
  · simp only [List.append_cancel_left_eq, List.cons.injEq] at partition
    exact .inr ⟨⟨partition.1.symm, partition.2.1.symm⟩, .inl partition.2.2⟩
  by_cases block : l ++ j :: n :: rest = blockPlace l i t
  · simp only [blockPlace, List.append_cancel_left_eq, List.cons.injEq] at block
    exact .inr ⟨⟨block.1.symm, block.2.1.symm⟩, .inr (.inr block.2.2)⟩
  by_cases index : l ++ j :: n :: rest = l ++ [i, partitionName t.startOfDay, indexName]
  · simp only [List.append_cancel_left_eq, List.cons.injEq] at index
    exact .inr ⟨⟨index.1.symm, index.2.1.symm⟩, .inr (.inl index.2.2)⟩
  have draft : l ++ j :: n :: rest ≠ draftPlace l i t := by
    intro same
    rw [same, entered.draft] at there
    exact there rfl
  rw [entered.rest _ (by simp) partition block index draft (not_isLedgerFile l j n rest)] at there
  exact .inl there

/-- In the directory of the archive itself, all but the interface and the files of the ledger stays. -/
theorem beside {y : String} (other : y ≠ i) (unlisted : y ∉ ledgerNames) : e.at? (l ++ [y]) = d.at? (l ++ [y]) :=
  entered.rest _ (by simpa using other) (by simp) (by simp [blockPlace]) (by simp) (by simp [draftPlace])
    (isLedgerFile_iff.not.2 unlisted)

end Entered

/-! ## Books -/

/-- A block that was written. -/
structure Written where
  interface : String
  time : Timestamp
  flows : List Flow

namespace Written

def day (w : Written) : Timestamp := w.time.startOfDay

def descriptor (w : Written) : Descriptor := describe w.time w.flows

/-- A block belongs to a partition of an interface. -/
def IsIn (w : Written) (i n : String) : Prop := w.interface = i ∧ partitionName w.day = n

instance (w : Written) (i n : String) : Decidable (w.IsIn i n) := inferInstanceAs (Decidable (_ ∧ _))

end Written

/-- The entries of a partition of an interface, in the order in which they were written. -/
def entriesOf (book : List Written) (i n : String) : List Descriptor :=
  (book.filter fun w => decide (w.IsIn i n)).map Written.descriptor

variable {book : List Written} {w : Written}

theorem mem_entriesOf : x ∈ entriesOf book i n ↔ ∃ w ∈ book, w.IsIn i n ∧ w.descriptor = x := by
  simp [entriesOf, and_assoc]

theorem entriesOf_append (book : List Written) (w : Written) (i n : String) :
    entriesOf (book ++ [w]) i n = if w.IsIn i n then entriesOf book i n ++ [w.descriptor] else entriesOf book i n := by
  by_cases here : w.IsIn i n <;> simp [entriesOf, List.filter_append, here]

/-- Blocks that stay are entered as before where all of a partition stay. -/
theorem entriesOf_filter {keeps : Written → Bool} (all : ∀ w ∈ book, w.IsIn i n → keeps w = true) :
    entriesOf (book.filter keeps) i n = entriesOf book i n := by
  rw [entriesOf, entriesOf, List.filter_filter]
  congr 1
  refine List.filter_congr fun w member => ?_
  by_cases here : w.IsIn i n
  · simp [here, all w member here]
  · simp [here]

theorem entriesOf_eq_nil (none : ∀ w ∈ book, ¬ w.IsIn i n) : entriesOf book i n = [] := by
  simpa [entriesOf] using none

/-- A disk holds the blocks of a book and, below the interfaces of an archive, nothing else. -/
structure Keeps (a : Archive) (l : Location) (book : List Written) (d : Disk) : Prop where
  leads : d.LeadsTo a.root l
  tree : d.IsTree l
  distinct : (book.map fun w => (w.interface, w.time)).Nodup
  readable : ∀ w ∈ book, a.Readable w.interface (partitionName w.day)
  fine : ∀ w ∈ book, Disk.joinFault? (a.partitionPath w.interface w.time) (blockName w.time) = none
  block : ∀ w ∈ book, d.at? (blockPlace l w.interface w.time) = some (.file (Block.encode w.flows))
  index : ∀ i n, (d.content? (l ++ [i, n, indexName])).getD [] = Index.write (entriesOf book i n)
  inside : ∀ i n rest, d.at? (l ++ i :: n :: rest) ≠ none →
    ∃ w ∈ book, w.IsIn i n ∧ (rest = [] ∨ rest = [indexName] ∨ rest = [blockName w.time])
  interface : ∀ i, d.at? (l ++ [i]) = some .directory → ∃ w ∈ book, w.interface = i
  file : ∀ y s, d.at? (l ++ [y]) = some (.file s) → y ∈ ledgerNames

theorem IsFresh.keeps (fresh : a.IsFresh l d) : a.Keeps l [] d := by
  have consistent := fresh.consistent
  constructor
  case leads => exact consistent.leads
  case tree => exact consistent.tree
  case distinct => exact List.nodup_nil
  case readable => exact fun w member => absurd member List.not_mem_nil
  case fine => exact fun w member => absurd member List.not_mem_nil
  case block => exact fun w member => absurd member List.not_mem_nil
  case index =>
    intro i n
    rw [Disk.content?, fresh.empty _ (by simp)]
    rfl
  case inside => exact fun i n rest there => absurd (fresh.empty _ (by simp)) there
  case interface =>
    intro i there
    rw [fresh.empty _ (by simp)] at there
    cases there
  case file =>
    intro y s there
    rw [fresh.empty _ (by simp)] at there
    cases there

/-- The partition of a block is there. -/
theorem Keeps.partition (keeps : a.Keeps l book d) (member : w ∈ book) :
    d.at? (l ++ [w.interface, partitionName w.day]) = some .directory := by
  refine (keeps.tree [w.interface, partitionName w.day] (blockName w.time) ?_).2
  have place : l ++ [w.interface, partitionName w.day] ++ [blockName w.time] = blockPlace l w.interface w.time := by
    simp [blockPlace, Written.day]
  rw [place, keeps.block w member]
  simp

/-- Storing a summary makes no other file. -/
theorem Keeps.file_stored {s : Summary} {y : String} {content : Bytes} (keeps : a.Keeps l book d)
    (within : Disk.Within c d) (stored : a.Stored l s c e) (there : e.at? (l ++ [y]) = some (.file content)) :
    y ∈ ledgerNames := by
  by_contra unlisted
  rw [stored.rest _ (isLedgerFile_iff.not.2 unlisted)] at there
  exact unlisted (keeps.file y content (within.held _ _ there))

/-! ## What calls do to the book -/

theorem Keeps.write (keeps : a.Keeps l book d) (wrote : (a.writeBlock token i t fs).runOn d = (.ok x, e)) :
    a.Keeps l (book ++ [⟨i, t, fs⟩]) e := by
  have entered := writeBlock_entered keeps.leads keeps.tree wrote
  have new : ∀ w ∈ book, ¬ (w.interface = i ∧ w.time = t) := by
    rintro w member ⟨rfl, rfl⟩
    have there := keeps.block w member
    rw [entered.before] at there
    cases there
  constructor
  case leads => exact keeps.leads.mono entered.keeps
  case tree => exact entered.tree
  case distinct =>
    rw [List.map_append, List.nodup_append]
    refine ⟨keeps.distinct, List.nodup_singleton _, ?_⟩
    rintro p listed q added rfl
    obtain ⟨w, member, rfl⟩ := List.mem_map.1 listed
    simp only [List.map_cons, List.map_nil, List.mem_singleton, Prod.mk.injEq] at added
    exact new w member added
  case readable => exact List.forall_mem_append.2 ⟨keeps.readable, List.forall_mem_singleton.2 entered.readable⟩
  case fine => exact List.forall_mem_append.2 ⟨keeps.fine, List.forall_mem_singleton.2 entered.fine⟩
  case block =>
    refine List.forall_mem_append.2 ⟨fun w old => ?_, List.forall_mem_singleton.2 entered.block⟩
    rw [entered.at?_block (new w old), keeps.block w old]
  case index =>
    intro j m
    rw [entriesOf_append]
    by_cases here : i = j ∧ partitionName t.startOfDay = m
    · obtain ⟨rfl, rfl⟩ := here
      have own : (⟨i, t, fs⟩ : Written).IsIn i (partitionName t.startOfDay) := ⟨rfl, rfl⟩
      rw [if_pos own, entered.index, Option.getD_some, keeps.index, Index.write_append]
      rfl
    · have other : ¬ (⟨i, t, fs⟩ : Written).IsIn j m := here
      rw [if_neg other, ← keeps.index j m, entered.content?_index here]
  case inside =>
    intro j m rest there
    rcases entered.inside there with before | ⟨here, found⟩
    · obtain ⟨w, member, found⟩ := keeps.inside j m rest before
      exact ⟨w, List.mem_append_left _ member, found⟩
    · exact ⟨⟨i, t, fs⟩, by simp, here, found⟩
  case interface =>
    intro j there
    by_cases here : j = i
    · exact ⟨⟨i, t, fs⟩, by simp, here.symm⟩
    · rw [entered.beside here fun listed => entered.ledger j listed there] at there
      obtain ⟨w, member, found⟩ := keeps.interface j there
      exact ⟨w, List.mem_append_left _ member, found⟩
  case file =>
    intro y s there
    by_contra unlisted
    have other : y ≠ i := by
      rintro rfl
      rw [entered.interface] at there
      cases there
    rw [entered.beside other unlisted] at there
    exact unlisted (keeps.file y s there)

/-- The blocks of the day of a cutoff and later. -/
def keptFrom (cutoff : Timestamp) (book : List Written) : List Written :=
  book.filter fun w => decide (cutoff.startOfDay ≤ w.day)

theorem Keeps.clean {now cutoff : Timestamp} {report : SweepReport} (keeps : a.Keeps l book d)
    (cleaned : (a.clean token now cutoff).runOn d = (.ok report, e)) : a.Keeps l (keptFrom cutoff book) e := by
  obtain ⟨names, c, old, swept, -, stored⟩ := clean_ok keeps.leads keeps.tree cleaned
  -- A block stays if and only if its partition is not stale.
  have stays : ∀ w ∈ book, w ∈ keptFrom cutoff book ↔
      ¬ d.IsStale l cutoff.startOfDay w.interface (partitionName w.day) := by
    intro w member
    rw [keptFrom, List.mem_filter, isStale_partitionName, and_iff_right member, and_iff_right (keeps.partition member),
      decide_eq_true_iff, Int64.not_lt]
  have kept : ∀ w ∈ keptFrom cutoff book, w ∈ book := fun w member => List.mem_of_mem_filter member
  have below : ∀ w ∈ keptFrom cutoff book, ∀ rest,
      e.at? (l ++ w.interface :: partitionName w.day :: rest) = d.at? (l ++ w.interface :: partitionName w.day :: rest) :=
    fun w member => stored.at?_of_not_isStale swept.loses ((stays w (kept w member)).1 member)
  constructor
  case leads => exact swept.leadsAfter stored
  case tree => exact clean_isTree keeps.leads keeps.tree cleaned
  case distinct => exact keeps.distinct.sublist (List.filter_sublist.map _)
  case readable => exact fun w member => keeps.readable w (kept w member)
  case fine => exact fun w member => keeps.fine w (kept w member)
  case block =>
    intro w member
    rw [← keeps.block w (kept w member)]
    exact below w member [blockName w.time]
  case index =>
    intro i n
    by_cases stale : d.IsStale l cutoff.startOfDay i n
    · have gone : entriesOf (keptFrom cutoff book) i n = [] := by
        refine entriesOf_eq_nil fun w member here => ?_
        obtain ⟨rfl, rfl⟩ := here
        exact (stays w (kept w member)).1 member stale
      rw [Disk.content?, stored.at?_of_isStale swept.loses stale, gone]
      rfl
    · have same : entriesOf (keptFrom cutoff book) i n = entriesOf book i n := by
        refine entriesOf_filter fun w member here => ?_
        obtain ⟨rfl, rfl⟩ := here
        exact (List.mem_filter.1 ((stays w member).2 stale)).2
      rw [Disk.content?_congr (stored.at?_of_not_isStale swept.loses stale [indexName]), keeps.index, same]
  case inside =>
    intro i n rest there
    have fresh : ¬ d.IsStale l cutoff.startOfDay i n := by
      intro stale
      exact there (stored.at?_of_isStale swept.loses stale rest)
    rw [stored.at?_of_not_isStale swept.loses fresh] at there
    obtain ⟨w, member, ⟨rfl, rfl⟩, found⟩ := keeps.inside i n rest there
    exact ⟨w, (stays w member).2 fresh, ⟨rfl, rfl⟩, found⟩
  case interface =>
    intro i there
    have before := swept.directoryBefore stored there
    have notAll : ¬ d.IsAllStale l cutoff.startOfDay i := fun all => (swept.interface_iff stored before).2 all there
    simp only [Disk.IsAllStale, before, true_and, not_forall] at notAll
    obtain ⟨n, present, fresh⟩ := notAll
    obtain ⟨w, member, ⟨rfl, rfl⟩, -⟩ := keeps.inside i n [] present
    exact ⟨w, (stays w member).2 fresh, rfl⟩
  case file => exact fun y s there => keeps.file_stored swept.loses.within stored there

theorem Keeps.wipe {count : Nat} (keeps : a.Keeps l book d) (wiped : (a.wipe token).runOn d = (.ok count, e)) :
    a.Keeps l [] e := by
  obtain ⟨c, loses, leads, stored⟩ := wipe_ok keeps.leads keeps.tree wiped
  have gone := stored.at?_of_wiped keeps.tree loses
  have treeC : c.IsTree l := by
    refine keeps.tree.loses loses ?_
    rintro m x ⟨i, there, below⟩ -
    exact ⟨i, there, below.trans (List.prefix_append _ _)⟩
  constructor
  case leads => exact leads.mono stored.keepsDirectories
  case tree => exact stored.tree l treeC
  case distinct => exact List.nodup_nil
  case readable => exact fun w member => absurd member List.not_mem_nil
  case fine => exact fun w member => absurd member List.not_mem_nil
  case block => exact fun w member => absurd member List.not_mem_nil
  case index =>
    intro i n
    rw [Disk.content?, gone]
    rfl
  case inside => exact fun i n rest there => absurd (gone i n rest) there
  case interface =>
    intro i there
    have before := stored.directory_iff.1 there
    rw [loses.away _ ⟨i, loses.within.held _ _ before, List.prefix_rfl⟩] at before
    cases before
  case file => exact fun y s there => keeps.file_stored loses.within stored there

end Archive

end FlowArchive
