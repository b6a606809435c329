import FlowArchive.Proofs.BlockRoundTrip
import FlowArchive.Proofs.NamedInterfaces
import FlowArchive.Proofs.Retention
import FlowArchive.Proofs.Writing

/-!
# Seeing what was written

A block that was written can be read if its sizes fit, but a query sees only what the index of its partition lists.
The entry of the block is appended whatever stands there already, while a reader stops at the first flaw. So the block
is seen if the index could be read to its end, and behind a flaw it may stay hidden for good.
-/

namespace FlowArchive

open FlowArchive.Path (IsName)
open Disk (Extends)

namespace Archive

variable {a : Archive} {token : LockToken} {b c d e : Disk} {l : Location} {i n : String} {t : Timestamp}
  {fs : List Flow} {x : Descriptor} {range : TimeRange}

/-- The blocks of one interface are selected by its name. -/
theorem runOn_oneInterface (leads : d.LeadsTo a.root l) (name : IsName i) (fine : Disk.joinFault? a.root i = none)
    (there : d.at? (l ++ [i]) = some .directory) (range : TimeRange) :
    (a.blocksInRange (.named [i]) range).runOn d = (.ok (a.blocksOn d l range i), d) := by
  have are : ∀ n ∈ [i], IsName n ∧ Disk.joinFault? a.root n = none := by simp [name, fine]
  have selected := runOn_named leads are (by simp [mem_interfacesOf, there]) range
  rwa [List.flatMap_singleton] at selected

/-- A block is selected if and only if the index of its partition lists it. -/
theorem mem_blocksOn_iff (there : d.at? (l ++ [i, partitionName t.startOfDay]) = some .directory)
    (inside : range.contains t = true) (flows traffic : UInt64) :
    (⟨i, a.partitionPath i t, ⟨t, flows, traffic⟩⟩ : BlockRef) ∈ a.blocksOn d l range i ↔
      (⟨t, flows, traffic⟩ : Descriptor) ∈ d.indexOf (a.partitionPath i t) := by
  rw [mem_blocksOn]
  constructor
  · rintro ⟨u, x, -, -, listed, -, same⟩
    obtain ⟨-, path, rfl⟩ := BlockRef.mk.injEq .. ▸ same
    exact path ▸ listed
  · intro listed
    exact ⟨t.startOfDay, _, there, TimeRange.overlapsDay_of_contains inside, listed, inside, rfl⟩

/-- The index of the partition of a block, before the block is written. -/
def indexBefore (d : Disk) (l : Location) (i : String) (t : Timestamp) : Bytes :=
  (d.content? (l ++ [i, partitionName t.startOfDay, indexName])).getD []

/-- A block that was written can be read, if its sizes fit. A query for its interface and a range around its time
selects it if and only if its entry is read behind what stood in the index; so it does if the index could be read to
its end. -/
theorem written_block_selected (leads : d.LeadsTo a.root l) (tree : d.IsTree l)
    (wrote : (a.writeBlock token i t fs).runOn d = (.ok x, e)) (inside : range.contains t = true) :
    (Block.SizesFit fs → (readBlock ⟨i, a.partitionPath i t, x⟩).runOn e = (.ok fs, e)) ∧
    ∃ bs, (a.blocksInRange (.named [i]) range).runOn e = (.ok bs, e) ∧
      ((⟨i, a.partitionPath i t, x⟩ : BlockRef) ∈ bs ↔
        x ∈ (Index.readPrefix (indexBefore d l i t ++ Index.writeEntry x)).1) ∧
      ((Index.readPrefix (indexBefore d l i t)).2 = false → (⟨i, a.partitionPath i t, x⟩ : BlockRef) ∈ bs) := by
  have fineBlock := fine_of_writeBlock wrote
  obtain ⟨name, rfl, readable, b, c, extended, there, -, filed, stored⟩ := writeBlock_ok leads wrote
  have keeps := (extended.keepsDirectories.trans filed.keeps).trans stored.keepsDirectories
  have leads' := leads.mono keeps
  have tree' := stored.tree l (filed.tree l (extended.isTree tree))
  have there' : e.at? (l ++ [i, partitionName t.startOfDay]) = some .directory :=
    stored.keepsDirectories.kept _ (filed.keeps.kept _ there)
  obtain ⟨interface, inPartition⟩ := leadsTo_partitionPath leads' tree' name readable.short readable.short' there'
  have place : ∀ y, l ++ [i, partitionName t.startOfDay] ++ [y] = l ++ [i, partitionName t.startOfDay, y] := by simp
  -- What is in the files of the partition after the ledger was changed.
  have block : e.at? (l ++ [i, partitionName t.startOfDay] ++ [blockName t]) = some (.file (Block.encode fs)) := by
    rw [place, stored.rest _ (not_isLedgerFile l _ _ _), ← place]
    exact filed.block
  have index : e.content? (l ++ [i, partitionName t.startOfDay, indexName]) =
      some (indexBefore d l i t ++ Index.writeEntry (describe t fs)) := by
    have held := filed.index
    rw [place, ← stored.rest _ (not_isLedgerFile l _ _ _), extended.content?] at held
    exact Disk.content?_eq_some.2 held
  have listed : e.indexOf (a.partitionPath i t) =
      (Index.readPrefix (indexBefore d l i t ++ Index.writeEntry (describe t fs))).1 := by
    have own := indexOf_eq_indexAt leads' tree' name (isName_partition t.startOfDay) fun _ => readable
    rw [Disk.indexAt, index] at own
    exact own
  have fine := Disk.joinFault?_of_join name (isName_partition t.startOfDay) readable.short
    (Disk.joinFault?_of_join (isName_partition t.startOfDay) isName_index readable.short' readable.fine)
  have selected := mem_blocksOn_iff (a := a) there' inside (.ofNat fs.length) (Flow.traffic fs)
  refine ⟨fun sizes => ?_, a.blocksOn e l range i, runOn_oneInterface leads' name fine interface range, ?_, ?_⟩
  · have read : e.read (blockPath (a.partitionPath i t) t) = .ok (Block.encode fs) :=
      Disk.read_join inPartition (isName_block t) fineBlock block
    have path : BlockRef.path ⟨i, a.partitionPath i t, describe t fs⟩ = blockPath (a.partitionPath i t) t := rfl
    simp only [runOn_readBlock, Disk.flowsOf, path, read, Block.decode_encode sizes]
    rfl
  · rw [← listed]
    exact selected
  · intro whole
    refine selected.2 ?_
    have behind := Index.readPrefix_writeEntry (describe t fs) []
    rw [List.append_nil] at behind
    rw [listed, Index.readPrefix_append whole, behind]
    exact List.mem_append_right _ List.mem_cons_self

/-! ### The first block of a new archive, and one behind an entry that was cut off -/

theorem written_block_selected_first :
    (Block.SizesFit [newFlow] →
      (readBlock ⟨"eth0", newArchive.partitionPath "eth0" 5, describe 5 [newFlow]⟩).runOn writtenDisk =
        (.ok [newFlow], writtenDisk)) ∧
    ∃ bs, (newArchive.blocksInRange (.named ["eth0"]) .sinceEpoch).runOn writtenDisk = (.ok bs, writtenDisk) ∧
      ((⟨"eth0", newArchive.partitionPath "eth0" 5, describe 5 [newFlow]⟩ : BlockRef) ∈ bs ↔ describe 5 [newFlow] ∈
        (Index.readPrefix (indexBefore newDisk ["data"] "eth0" 5 ++ Index.writeEntry (describe 5 [newFlow]))).1) ∧
      ((Index.readPrefix (indexBefore newDisk ["data"] "eth0" 5)).2 = false →
        (⟨"eth0", newArchive.partitionPath "eth0" 5, describe 5 [newFlow]⟩ : BlockRef) ∈ bs) :=
  written_block_selected isFresh_newDisk.leads isFresh_newDisk.consistent.tree writeBlock_newDisk (by decide +kernel)

/-- The first bytes of an entry: its length, and one byte of its time. -/
def tornEntry : Bytes := [28, 0, 0, 0, 200]

/-- The written disk after an append to the index that broke off. -/
def tornDisk : Disk := (writtenDisk.change (indexPath (newArchive.partitionPath "eth0" 5)) (· ++ tornEntry)).2

/-- Behind the entry that was cut off, a second block is written and counted, but no query selects it. -/
theorem written_block_hidden :
    ∃ e, (newArchive.writeBlock [] "eth0" 6 [newFlow]).runOn tornDisk = (.ok (describe 6 [newFlow]), e) ∧
      (newArchive.blocksInRange (.named ["eth0"]) .sinceEpoch).runOn e = (.ok [writtenBlock "eth0" "/data"], e) ∧
      (newArchive.readSummary.runOn e).1.toOption.bind (·.get? "eth0") = some ⟨2, 14, 5⟩ := by
  refine ⟨((newArchive.writeBlock [] "eth0" 6 [newFlow]).runOn tornDisk).2, ?_, ?_, by decide +kernel⟩
  · exact Prod.ext (Action.toOption_eq_some.1 (by decide +kernel)) rfl
  · exact Prod.ext (Action.toOption_eq_some.1 (by decide +kernel)) (reads_blocksInRange _ _ _ _)

end Archive

end FlowArchive
