import FlowArchive.Archive.Writing
import FlowArchive.Proofs.Ledger
import FlowArchive.Proofs.Listing

/-!
# What writing a block leaves

A block that is written is a new file in the partition of its day, one more entry of the index there and one more
block in the summary. Apart from these, nothing but directories is new.
-/

namespace FlowArchive

open FlowArchive.Path (IsName)
open Disk (snoc_ne_nil Extends)

namespace Archive

variable {a : Archive} {token : LockToken} {c d e : Disk} {k l m : Location} {i n : String} {t : Timestamp}
  {fs : List Flow} {x : Descriptor}

theorem isName_of_isInterfaceName (valid : isInterfaceName i = true) : IsName i := by
  simp only [isInterfaceName, Bool.and_eq_true, Bool.not_eq_true', bne_iff_ne, ne_eq] at valid
  obtain ⟨⟨⟨filled, notDot⟩, notDots⟩, plain⟩ := valid
  refine ⟨fun empty => ?_, notDot, notDots, fun stroke => ?_⟩
  · rw [empty] at filled
    exact absurd filled (by decide)
  · rw [List.any_eq_false] at plain
    exact plain '/' stroke (by decide)

/-- A block has been filed in a partition: its file and its entry of the index are there. -/
structure Filed (k : Location) (t : Timestamp) (fs : List Flow) (d e : Disk) : Prop where
  keeps : Disk.KeepsDirectories d e
  tree : ∀ l, d.IsTree l → e.IsTree l
  block : e.at? (k ++ [blockName t]) = some (.file (Block.encode fs))
  index : e.at? (k ++ [indexName]) =
    some (.file ((d.content? (k ++ [indexName])).getD [] ++ Index.writeEntry (describe t fs)))
  draft : e.at? (k ++ [draftName t]) = none
  rest : ∀ m, m ≠ k ++ [blockName t] → m ≠ k ++ [indexName] → m ≠ k ++ [draftName t] → e.at? m = d.at? m
  /-- No directory was in the way. -/
  free : ∀ x ∈ [blockName t, indexName, draftName t], d.at? (k ++ [x]) ≠ some .directory

theorem leadsTo_of_storeBlock {p : Path} (stored : (storeBlock p t fs).runOn d = (.ok (), c)) :
    ∃ k, d.LeadsTo p k := by
  obtain ⟨⟨⟩, _, drafted, -⟩ := Action.runOn_bind_ok_iff.1 stored
  exact Disk.leadsTo_of_change (isName_draft t) (Action.runOn_ask_ok_iff.1 drafted)

theorem file_ok {p : Path} (leads : d.LeadsTo p k) (stored : (storeBlock p t fs).runOn d = (.ok (), c))
    (indexed : (indexBlock p (describe t fs)).runOn c = (.ok (), e)) :
    Disk.joinFault? p (blockName t) = none ∧ Disk.joinFault? p indexName = none ∧ Filed k t fs d e := by
  obtain ⟨⟨⟩, c', appended, synced⟩ := Action.runOn_bind_ok_iff.1 indexed
  obtain ⟨fineBlock, freeDraft, freeBlock, keeps, tree, entries⟩ :=
    replaceFile_ok leads (isName_draft t) (isName_block t) stored
  obtain rfl : c' = e := congrArg Prod.snd (Action.runOn_ask_ok_iff.1 synced)
  have changed : c.change (p.join indexName) (· ++ Index.writeEntry (describe t fs)) = (.ok (), c') :=
    Action.runOn_ask_ok_iff.1 appended
  have leads' := leads.mono keeps
  obtain ⟨fine, freeIndex, rfl⟩ := Disk.change_join leads' isName_index changed
  have final : ∀ m, (c.put (k ++ [indexName])
      (.file ((c.content? (k ++ [indexName])).getD [] ++ Index.writeEntry (describe t fs)))).at? m =
      if m = k ++ [indexName] then
        some (.file ((c.content? (k ++ [indexName])).getD [] ++ Index.writeEntry (describe t fs)))
      else if m = k ++ [blockName t] then some (.file (Block.encode fs))
      else if m = k ++ [draftName t] then none else d.at? m := by
    intro m
    rw [Disk.at?_put _ (snoc_ne_nil _ _), entries]
  have apart : ∀ y z, y ≠ z → k ++ [y] ≠ k ++ [z] := fun y z different same => different (Disk.snoc_inj.1 same).2
  have block_index := apart _ _ (blockName_ne_index t)
  have draft_index := apart _ _ (draftName_ne_index t)
  have block_draft := apart _ _ (blockName_ne_draftName t t)
  refine ⟨fineBlock, fine, ?_⟩
  constructor
  case keeps => exact keeps.trans (Disk.keepsDirectories_put freeIndex _)
  case tree => exact fun l tree' => (tree l tree').put leads'.directory isName_index (.inr freeIndex)
  case block => rw [final, if_neg block_index, if_pos rfl]
  case index =>
    have old : c.content? (k ++ [indexName]) = d.content? (k ++ [indexName]) := by
      refine Disk.content?_congr ?_
      rw [entries, if_neg block_index.symm, if_neg draft_index.symm]
    rw [final, if_pos rfl, old]
  case draft => rw [final, if_neg draft_index, if_neg block_draft.symm, if_pos rfl]
  case rest =>
    intro m notBlock notIndex notDraft
    rw [final, if_neg notIndex, if_neg notBlock, if_neg notDraft]
  case free =>
    intro x listed
    simp only [List.mem_cons, List.not_mem_nil, or_false] at listed
    rcases listed with rfl | rfl | rfl
    · exact freeBlock
    · rwa [entries, if_neg block_index.symm, if_neg draft_index.symm] at freeIndex
    · exact freeDraft

/-- The steps of a write that succeeds. -/
theorem writeBlock_steps (wrote : (a.writeBlock token i t fs).runOn d = (.ok x, e)) :
    isInterfaceName i = true ∧ x = describe t fs ∧ ∃ b b' c s, d.makeDirectories (a.partitionPath i t) = (.ok (), b) ∧
      b.kind (blockPath (a.partitionPath i t) t) = none ∧
      (storeBlock (a.partitionPath i t) t fs).runOn b = (.ok (), b') ∧
      (indexBlock (a.partitionPath i t) (describe t fs)).runOn b' = (.ok (), c) ∧
      (a.modify token fun old => .ok (Summary.append old i (describe t fs))).runOn c = (.ok s, e) := by
  unfold writeBlock at wrote
  split at wrote
  next valid =>
    obtain ⟨⟨⟩, b, made, rest⟩ := Action.runOn_bind_ok_iff.1 wrote
    obtain ⟨found, b', asked, rest⟩ := Action.runOn_bind_ok_iff.1 rest
    rw [Action.runOn_kind] at asked
    cases asked
    split at rest
    · cases rest
    next absent =>
      obtain ⟨⟨⟩, b', stored, rest⟩ := Action.runOn_bind_ok_iff.1 rest
      obtain ⟨⟨⟩, c, indexed, rest⟩ := Action.runOn_bind_ok_iff.1 rest
      obtain ⟨s, e', modified, last⟩ := Action.runOn_bind_ok_iff.1 rest
      cases last
      exact ⟨valid, rfl, b, b', c, s, Action.runOn_ask_ok_iff.1 made, absent, stored, indexed, modified⟩
  · cases wrote

/-- A write whose steps succeed does. -/
theorem writeBlock_of_steps {b b' : Disk} {s : Summary} (valid : isInterfaceName i = true)
    (made : d.makeDirectories (a.partitionPath i t) = (.ok (), b))
    (absent : b.kind (blockPath (a.partitionPath i t) t) = none)
    (stored : (storeBlock (a.partitionPath i t) t fs).runOn b = (.ok (), b'))
    (indexed : (indexBlock (a.partitionPath i t) (describe t fs)).runOn b' = (.ok (), c))
    (modified : (a.modify token fun old => .ok (Summary.append old i (describe t fs))).runOn c = (.ok s, e)) :
    (a.writeBlock token i t fs).runOn d = (.ok (describe t fs), e) := by
  have asked : (Action.ask (.makeDirectories (a.partitionPath i t))).runOn d = (.ok (), b) :=
    Action.runOn_ask_ok_iff.2 made
  rw [writeBlock, if_pos valid]
  refine (Action.runOn_bind_of_ok asked).trans ?_
  rw [Action.runOn_bind_of_ok (Action.runOn_kind _ b), absent]
  dsimp only
  rw [Action.runOn_bind_of_ok stored, Action.runOn_bind_of_ok indexed, Action.runOn_bind_of_ok modified]
  rfl

/-- The parts of a write that succeeds: directories are made, the block is filed, and the summary is stored. -/
theorem writeBlock_parts (leads : d.LeadsTo a.root l) (wrote : (a.writeBlock token i t fs).runOn d = (.ok x, e)) :
    IsName i ∧ x = describe t fs ∧ a.Readable i (partitionName t.startOfDay) ∧
      ∃ b c, (d.makeDirectories (a.partitionPath i t)).2 = b ∧
        b.at? (l ++ [i, partitionName t.startOfDay]) = some .directory ∧
        b.at? (l ++ [i, partitionName t.startOfDay, blockName t]) = none ∧
        Filed (l ++ [i, partitionName t.startOfDay]) t fs b c ∧
        a.Stored l (Summary.append (c.summaryAt l) i x) c e := by
  obtain ⟨valid, rfl, b, b', c, s, added, absent, stored, indexed, modified⟩ := writeBlock_steps wrote
  have name := isName_of_isInterfaceName valid
  have extended : Extends d b := by
    have extends_ := Disk.makeDirectories_extends d (a.partitionPath i t)
    rwa [added] at extends_
  obtain ⟨k, inside⟩ := leadsTo_of_storeBlock stored
  obtain ⟨fineBlock, fine, filed⟩ := file_ok inside stored indexed
  have leadsB := leads.mono extended.keepsDirectories
  obtain ⟨rfl, short, short'⟩ := leadsTo_partition leadsB name (isName_partition _) inside
  obtain ⟨l', leads', changed, stored⟩ := modify_ok modified
  obtain rfl := (leadsB.mono filed.keeps).unique leads'
  cases changed
  have unwritten : b.at? (l ++ [i, partitionName t.startOfDay, blockName t]) = none := by
    have place : l ++ [i, partitionName t.startOfDay] ++ [blockName t] =
        l ++ [i, partitionName t.startOfDay, blockName t] := by simp
    rw [blockPath, Disk.kind, Disk.find_join_ok inside (isName_block t) fineBlock, place] at absent
    simpa using absent
  exact ⟨name, rfl, ⟨short, short', fine⟩, b, c, congrArg Prod.snd added, inside.directory, unwritten, filed, stored⟩

/-- A block that is written goes to the partition of its day and into the summary. -/
theorem writeBlock_ok (leads : d.LeadsTo a.root l) (wrote : (a.writeBlock token i t fs).runOn d = (.ok x, e)) :
    IsName i ∧ x = describe t fs ∧ a.Readable i (partitionName t.startOfDay) ∧
      ∃ b c, Extends d b ∧ b.at? (l ++ [i, partitionName t.startOfDay]) = some .directory ∧
        b.at? (l ++ [i, partitionName t.startOfDay, blockName t]) = none ∧
        Filed (l ++ [i, partitionName t.startOfDay]) t fs b c ∧
        a.Stored l (Summary.append (c.summaryAt l) i x) c e := by
  obtain ⟨name, same, readable, b, c, made, there, absent, filed, stored⟩ := writeBlock_parts leads wrote
  have extended : Extends d b := made ▸ Disk.makeDirectories_extends d _
  exact ⟨name, same, readable, b, c, extended, there, absent, filed, stored⟩

/-- The path of a block that was written is not refused. -/
theorem fine_of_writeBlock (wrote : (a.writeBlock token i t fs).runOn d = (.ok x, e)) :
    Disk.joinFault? (a.partitionPath i t) (blockName t) = none := by
  obtain ⟨-, -, b, b', c, s, -, -, stored, indexed, -⟩ := writeBlock_steps wrote
  obtain ⟨k, inside⟩ := leadsTo_of_storeBlock stored
  exact (file_ok inside stored indexed).1

end Archive

end FlowArchive
