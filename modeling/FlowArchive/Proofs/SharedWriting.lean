import FlowArchive.Proofs.SharedLedger

/-!
# Writing beside a cleaning

A write that meets a cleaning finds its partition as it left it: the cleaning takes away nothing of that day and not
the directory of the interface. So a write that succeeds has put its block and its entry in place, and has told the
summary, as it does by itself.
-/

namespace FlowArchive.Archive

open Disk (Edits Extends snoc_ne_nil)

namespace Meeting

variable {a : Archive} {g : a.Meeting}

theorem fits_counted (g : a.Meeting) (swept : Bool) :
    Index.Fits ((if swept then g.retained g.interface else g.removed g.interface ++ g.retained g.interface) ++
      [g.block]) := by
  have all : Index.Fits (g.removed g.interface ++ g.retained g.interface ++ [g.block]) :=
    g.fits.perm ((g.listed_perm g.interface).append_right _)
  cases swept with
  | false => exact all
  | true =>
    rw [List.append_assoc] at all
    exact all.right

theorem index_not_isBlockFile (g : a.Meeting) : ¬ IsBlockFile g.place g.interface g.time g.index := by
  simp [IsBlockFile, blockPlace, draftPlace, index, partition, (blockName_ne_index g.time).symm,
    (draftName_ne_index g.time).symm]

end Meeting

namespace Moment

variable {a : Archive} {g : a.Meeting} {s t u : Moment g} {e : Disk} {token : LockToken}

/-- Adding the block to a summary counts what the writer did. -/
theorem counts_append (g : a.Meeting) :
    Counts g .writer fun old => .ok (Summary.append old g.interface g.block) := by
  intro s new untold changed j early
  cases changed
  have agrees := s.agrees j early
  have swept : Function.update s.told .writer true .cleaner = s.told .cleaner :=
    Function.update_of_ne (by decide) true s.told
  rw [get?_append, Meeting.counted, swept, Function.update_self (β := fun _ => Bool) .writer true s.told]
  rw [Meeting.counted, untold] at agrees
  simp only [Bool.false_eq_true, false_and, if_false, List.append_nil, true_and] at agrees ⊢
  split
  next here =>
    subst here
    exact agrees.add g.block (g.fits_counted _)
  · rwa [List.append_nil]

/-! ## The partition -/

/-- The write has not yet entered its block. -/
def Opens (s : Moment g) : Prop := s.told .writer = false ∧ s.disk.content? g.index = g.before.content? g.index

/-- The partition is there, and its path leads to it. -/
def Stands (s : Moment g) : Prop :=
  s.disk.at? g.partition = some .directory ∧ g.interface.utf8ByteSize ≤ Path.longestName ∧
    (partitionName g.time.startOfDay).utf8ByteSize ≤ Path.longestName

theorem stable_opens : (terms g .writer).Stable Opens :=
  Terms.stable_and (stable_told false) (stable_content (p := .writer) g.index_own _)

theorem stable_stands : (terms g .writer).Stable Stands := fun _ _ turn stands =>
  ⟨(turn.owned g.partition List.prefix_rfl).trans stands.1, stands.2⟩

theorem Stands.leads (stands : Stands s) : s.disk.LeadsTo (a.partitionPath g.interface g.time) g.partition :=
  (leadsTo_partitionPath s.leads s.tree g.isName stands.2.1 stands.2.2 stands.1).2

theorem stands_of_leads {k : Location} (leads : s.disk.LeadsTo (a.partitionPath g.interface g.time) k) :
    k = g.partition ∧ Stands s := by
  obtain ⟨rfl, short, short'⟩ := leadsTo_partition s.leads g.isName (isName_partition _) leads
  exact ⟨rfl, leads.directory, short, short'⟩

theorem keeps_makeDirectories (opens : Opens s) :
    (Action.ask (.makeDirectories (a.partitionPath g.interface g.time))).Keeps (terms g .writer)
      (Action.Success fun _ => Opens) s := by
  refine Action.keeps_ask stable_opens (Action.stable_success fun _ => stable_opens) opens ?_
  intro u answer e opens made
  obtain rfl : (u.disk.makeDirectories (a.partitionPath g.interface g.time)).2 = e := congrArg Prod.snd made
  have extended := Disk.makeDirectories_extends u.disk (a.partitionPath g.interface g.time)
  have same : ∀ m, ¬ g.partition <+: m →
      (u.disk.makeDirectories (a.partitionPath g.interface g.time)).2.at? m = u.disk.at? m := by
    intro m outside
    -- The directory of the interface is there already, so it is not made anew.
    by_cases interface : m = g.place ++ [g.interface]
    · rw [interface, u.interface_there, extended.keepsDirectories.kept _ u.interface_there]
    · exact Disk.at?_makeDirectories u.leads g.isName (isName_partition _) interface fun same =>
        outside (same ▸ List.prefix_rfl)
  have partition := (extended.added g.partition).imp_right fun new => new.2.1
  have index := extended.content? g.index
  refine ⟨u.inPartition _ extended.home (extended.isTree u.tree) same partition (.inl index) ?_, rfl,
    spares_inPartition, fun _ _ => ⟨opens.1, index.trans opens.2⟩⟩
  rw [index]
  exact u.readable

/-! ## The file of the block -/

theorem exists_filed (s : Moment g) (edits : Edits (IsBlockFile g.place g.interface g.time) s.disk e) :
    ∃ t : Moment g, t.disk = e ∧ t.told = s.told ∧ Spares .cleaner s t := by
  have index := g.index_not_isBlockFile
  have partition : ¬ IsBlockFile g.place g.interface g.time g.partition := by
    simp [IsBlockFile, blockPlace, draftPlace, Meeting.partition]
  refine ⟨s.inPartition e edits.home (edits.isTree s.tree) (fun m outside => edits.rest m ?_)
    (.inl (edits.rest _ partition)) (.inl (edits.content? index)) ?_, rfl, rfl, spares_inPartition⟩
  · rintro (rfl | rfl)
    · exact outside ⟨[blockName g.time], by simp [blockPlace, Meeting.partition]⟩
    · exact outside ⟨[draftName g.time], by simp [draftPlace, Meeting.partition]⟩
  · rw [edits.content? index]
    exact s.readable

theorem place_snoc (g : a.Meeting) (x : String) :
    g.partition ++ [x] = g.place ++ [g.interface, partitionName g.time.startOfDay, x] := by
  simp [Meeting.partition]

/-- The block is written, but not yet in place. -/
def HasDraft (s : Moment g) : Prop :=
  Opens s ∧ Stands s ∧ s.disk.at? (g.partition ++ [draftName g.time]) = some (.file (Block.encode g.flows))

def HasBlock (s : Moment g) : Prop :=
  Opens s ∧ Stands s ∧ s.disk.at? (g.partition ++ [blockName g.time]) = some (.file (Block.encode g.flows))

theorem stable_file (x : String) (entry : Option Entry) :
    (terms g .writer).Stable fun s => s.disk.at? (g.partition ++ [x]) = entry :=
  stable_owned (p := .writer) (List.prefix_append _ _) entry

theorem stable_hasDraft : (terms g .writer).Stable HasDraft :=
  Terms.stable_and stable_opens (Terms.stable_and stable_stands (stable_file _ _))

theorem stable_hasBlock : (terms g .writer).Stable HasBlock :=
  Terms.stable_and stable_opens (Terms.stable_and stable_stands (stable_file _ _))

theorem leadsInto_block (s : Moment g) {x : String} (name : Path.IsName x)
    (inside : IsBlockFile g.place g.interface g.time (g.partition ++ [x])) :
    s.disk.LeadsInto (IsBlockFile g.place g.interface g.time) ((a.partitionPath g.interface g.time).join x) :=
  leadsInto_partition s.leads g.isName name (by rwa [← place_snoc])

theorem Opens.edits (opens : Opens s) (told : t.told = s.told)
    (edits : Edits (IsBlockFile g.place g.interface g.time) s.disk t.disk) : Opens t :=
  ⟨by rw [told]; exact opens.1, (edits.content? g.index_not_isBlockFile).trans opens.2⟩

theorem Stands.edits (stands : Stands s) (edits : Edits (IsBlockFile g.place g.interface g.time) s.disk t.disk) :
    Stands t := ⟨edits.directory_iff.2 stands.1, stands.2⟩

theorem exists_drafted_block (opens : Opens s) (changed : s.disk.change ((a.partitionPath g.interface g.time).join
    (draftName g.time)) (fun _ => Block.encode g.flows) = (.ok (), e)) :
    ∃ t : Moment g, t.disk = e ∧ Spares .cleaner s t ∧ HasDraft t := by
  have edits := Disk.edits_change (s.leadsInto_block (isName_draft _) (.inr (place_snoc g _)))
    fun _ => Block.encode g.flows
  rw [changed] at edits
  obtain ⟨k, leads⟩ := Disk.leadsTo_of_change (isName_draft _) changed
  obtain ⟨rfl, stands⟩ := stands_of_leads leads
  obtain ⟨-, -, same⟩ := Disk.change_join leads (isName_draft _) changed
  obtain ⟨t, rfl, told, spares⟩ := s.exists_filed edits
  refine ⟨t, rfl, spares, opens.edits told edits, stands.edits edits, ?_⟩
  rw [same, Disk.at?_put _ (snoc_ne_nil _ _), if_pos rfl]

theorem exists_placed (drafted : HasDraft s) (renamed : s.disk.rename ((a.partitionPath g.interface g.time).join
    (draftName g.time)) ((a.partitionPath g.interface g.time).join (blockName g.time)) = (.ok (), e)) :
    ∃ t : Moment g, t.disk = e ∧ Spares .cleaner s t ∧ HasBlock t := by
  obtain ⟨opens, stands, content⟩ := drafted
  have edits := Disk.edits_rename (s.leadsInto_block (isName_draft _) (.inr (place_snoc g _)))
    (s.leadsInto_block (isName_block _) (.inl (place_snoc g _)))
  rw [renamed] at edits
  obtain ⟨-, -, written, source, same⟩ := Disk.rename_join stands.leads (isName_draft _) (isName_block _) renamed
  obtain rfl : Block.encode g.flows = written := by
    rw [content] at source
    cases source
    rfl
  obtain ⟨t, rfl, told, spares⟩ := s.exists_filed edits
  refine ⟨t, rfl, spares, opens.edits told edits, stands.edits edits, ?_⟩
  rw [same]
  refine (Disk.at?_renamed s.disk g.partition (Block.encode g.flows) _).trans ?_
  rw [if_pos rfl]

theorem keeps_storeBlock (opens : Opens s) :
    (storeBlock (a.partitionPath g.interface g.time) g.time g.flows).Keeps (terms g .writer)
      (Action.Success fun _ => HasBlock) s := by
  unfold storeBlock
  refine Action.Keeps.bind (P := fun _ => HasDraft) ?write fun _ t drafted => ?_
  case write =>
    refine Action.keeps_ask stable_opens (Action.stable_success fun _ => stable_hasDraft) opens ?_
    intro u answer e opens changed
    change u.disk.change ((a.partitionPath g.interface g.time).join (draftName g.time))
      (fun _ => Block.encode g.flows) = (answer, e) at changed
    cases answer with
    | error f => exact ⟨u, (Disk.change_error changed).symm, spares_refl _ u, Action.success_error _⟩
    | ok =>
      obtain ⟨v, same, spares, drafted⟩ := exists_drafted_block opens changed
      exact ⟨v, same, spares, Action.success_ok.2 drafted⟩
  refine Action.Keeps.bind (P := fun _ => HasDraft) ?sync fun _ t drafted => ?_
  case sync =>
    exact Action.keeps_looking (Action.looks_ask fun _ => rfl) stable_hasDraft drafted
  refine Action.keeps_ask stable_hasDraft (Action.stable_success fun _ => stable_hasBlock) drafted ?_
  intro u answer e drafted renamed
  change u.disk.rename ((a.partitionPath g.interface g.time).join (draftName g.time))
    ((a.partitionPath g.interface g.time).join (blockName g.time)) = (answer, e) at renamed
  cases answer with
  | error f => exact ⟨u, (Disk.rename_error renamed).symm, spares_refl _ u, Action.success_error _⟩
  | ok =>
    obtain ⟨v, same, spares, stored⟩ := exists_placed drafted renamed
    exact ⟨v, same, spares, Action.success_ok.2 stored⟩

/-! ## The entry -/

/-- The block is in place and entered. -/
def Entered (s : Moment g) : Prop :=
  s.disk.at? g.partition = some .directory ∧
    s.disk.at? (g.partition ++ [blockName g.time]) = some (.file (Block.encode g.flows)) ∧
    s.disk.content? g.index = some ((g.before.content? g.index).getD [] ++ Index.writeEntry g.block)

theorem ofOwn_entered (g : a.Meeting) : OfOwn .writer (Entered (g := g)) := by
  rintro s t owned ⟨stands, block, entry⟩
  exact ⟨(owned _ List.prefix_rfl).trans stands, (owned _ (List.prefix_append _ _)).trans block,
    (Disk.content?_congr (owned _ g.index_own)).trans entry⟩

theorem stable_entered : (terms g .writer).Stable fun s => s.told .writer = false ∧ Entered s :=
  Terms.stable_and (stable_told false) (ofOwn_entered g).stable

theorem exists_entered (stored : HasBlock s) (changed : s.disk.change ((a.partitionPath g.interface g.time).join
    indexName) (· ++ Index.writeEntry g.block) = (.ok (), e)) :
    ∃ t : Moment g, t.disk = e ∧ Spares .cleaner s t ∧ t.told .writer = false ∧ Entered t := by
  obtain ⟨opens, stands, block⟩ := stored
  have edits := Disk.edits_change (M := (· = g.index)) ⟨_, _, rfl, isName_index, fun k leads => by
    rw [(stands_of_leads (s := s) leads).1, Meeting.index]⟩ (· ++ Index.writeEntry g.block)
  rw [changed] at edits
  obtain ⟨fine, -, same⟩ := Disk.change_join stands.leads isName_index changed
  have entry : e.content? g.index = some ((g.before.content? g.index).getD [] ++ Index.writeEntry g.block) := by
    rw [← opens.2, same, Disk.content?_eq_some, Meeting.index, Disk.at?_put _ (snoc_ne_nil _ _), if_pos rfl]
  have apart : ∀ m, m ≠ g.index → e.at? m = s.disk.at? m := edits.rest
  have partition : g.partition ≠ g.index := by simp [Meeting.index]
  have other : g.partition ++ [blockName g.time] ≠ g.index := fun same =>
    blockName_ne_index _ (Disk.snoc_inj.1 same).2
  refine ⟨s.inPartition e edits.home (edits.isTree s.tree) (fun m outside => apart m ?_) (.inl (apart _ partition))
    (.inr entry) (fun _ => ⟨stands.2.1, stands.2.2, fine⟩), rfl, spares_inPartition, opens.1, ?_⟩
  · rintro rfl
    exact outside g.index_own
  · exact ⟨(apart _ partition).trans stands.1, (apart _ other).trans block, entry⟩

theorem keeps_indexBlock (stored : HasBlock s) :
    (indexBlock (a.partitionPath g.interface g.time) g.block).Keeps (terms g .writer)
      (Action.Success fun _ s => s.told .writer = false ∧ Entered s) s := by
  unfold indexBlock
  refine Action.Keeps.bind (P := fun _ s => s.told .writer = false ∧ Entered s) ?append fun _ t entered => ?_
  case append =>
    refine Action.keeps_ask stable_hasBlock (Action.stable_success fun _ => stable_entered) stored ?_
    intro u answer e stored changed
    change u.disk.change ((a.partitionPath g.interface g.time).join indexName) (· ++ Index.writeEntry g.block) =
      (answer, e) at changed
    cases answer with
    | error f => exact ⟨u, (Disk.change_error changed).symm, spares_refl _ u, Action.success_error _⟩
    | ok =>
      obtain ⟨v, same, spares, entered⟩ := exists_entered stored changed
      exact ⟨v, same, spares, Action.success_ok.2 entered⟩
  exact Action.keeps_looking (Action.looks_ask fun _ => rfl) stable_entered entered

/-- A write that succeeds beside a cleaning has its whole effect on the partition, and has told the summary. -/
theorem keeps_writeBlock (s : Moment g) (opens : Opens s) :
    (a.writeBlock token g.interface g.time g.flows).Keeps (terms g .writer)
      (Action.Success fun _ s => Entered s ∧ s.told .writer = true) s := by
  unfold writeBlock
  split
  · refine (keeps_makeDirectories opens).bind fun _ t opens => ?_
    refine Action.Keeps.bind (P := fun _ => Opens) ?_ fun found t opens => ?_
    · exact Action.keeps_looking (Action.looks_kind _) stable_opens opens
    cases found with
    | some _ => exact Action.keeps_fail _
    | none =>
      refine (keeps_storeBlock opens).bind fun _ t stored => ?_
      refine (keeps_indexBlock stored).bind fun _ t entered => ?_
      refine (keeps_modify (ofOwn_entered g) (counts_append g) entered.1 entered.2).bind fun _ t done => ?_
      exact Action.keeps_pure (Terms.stable_and (ofOwn_entered g).stable (stable_told true)) done
  · exact Action.keeps_fail _

end Moment

end FlowArchive.Archive
