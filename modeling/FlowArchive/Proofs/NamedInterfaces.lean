import FlowArchive.Proofs.LedgerAgreement
import FlowArchive.Proofs.Selection

/-!
# Choosing interfaces by name

Interfaces that are named are looked up one by one, as often and in the spelling in which they are named. What is
selected is what the selection of all interfaces has of each, once for every time it is named.
-/

namespace FlowArchive

open FlowArchive.Path (IsName)

/-! ## Loops that only read -/

namespace Action

variable {α β : Type}

/-- Each round of a loop that succeeds and only reads succeeds by itself. -/
theorem forEach_round {f : α → Action β} (reads : ∀ a, (f a).Reads) {l : List α} {bs : List β} {d e : Disk}
    (looped : (forEach f l).runOn d = (.ok bs, e)) : ∀ a ∈ l, ∃ b, (f a).runOn d = (.ok b, d) := by
  induction l generalizing bs e with
  | nil => exact fun a member => absurd member List.not_mem_nil
  | cons first rest ih =>
    obtain ⟨b, c, one, more⟩ := runOn_bind_ok_iff.1 looped
    obtain rfl := (reads first).unchanged one
    obtain ⟨bs', c', others, last⟩ := runOn_bind_ok_iff.1 more
    intro a member
    rcases List.mem_cons.1 member with rfl | later
    · exact ⟨b, one⟩
    · exact ih others a later

end Action

/-! ## Blocks by their interface -/

/-- Lists that are gathered by owner have a member as often as its owner is asked. -/
theorem count_flatMap_owner {α κ : Type} [DecidableEq α] [DecidableEq κ] (owner : α → κ) {g : κ → List α}
    (own : ∀ k, ∀ x ∈ g k, owner x = k) (ks : List κ) (x : α) :
    (ks.flatMap g).count x = ks.count (owner x) * (g (owner x)).count x := by
  induction ks with
  | nil => simp
  | cons k rest ih =>
    rw [List.flatMap_cons, List.count_append, ih, List.count_cons]
    by_cases here : k = owner x
    · subst here
      rw [beq_self_eq_true, if_pos rfl, Nat.add_mul, Nat.one_mul, Nat.add_comm]
    · have none : (g k).count x = 0 := List.count_eq_zero.2 fun member => here (own k x member).symm
      rw [none, if_neg (by simpa using here), Nat.zero_add, Nat.add_zero]

/-- A list that has the members of another, each as often as its owner is asked, is the other without the members
that nobody asks if and only if no owner of a member is asked twice. -/
theorem perm_filter_iff {α κ : Type} [DecidableEq α] [DecidableEq κ] {owner : α → κ} {asked : List κ}
    {gathered all : List α} (counts : ∀ x, gathered.count x = asked.count (owner x) * all.count x) :
    gathered.Perm (all.filter fun x => decide (owner x ∈ asked)) ↔ ∀ x ∈ all, asked.count (owner x) ≤ 1 := by
  rw [List.perm_iff_count]
  constructor
  · intro same x member
    by_cases wanted : owner x ∈ asked
    · have present : 0 < all.count x := List.count_pos_iff.2 member
      have often := same x
      rw [counts, List.count_filter (by simpa using wanted)] at often
      exact Nat.le_of_mul_le_mul_right (Nat.le_of_eq (often.trans (Nat.one_mul _).symm)) present
    · rw [List.count_eq_zero.2 wanted]
      exact Nat.zero_le 1
  · intro once x
    rw [counts]
    by_cases wanted : owner x ∈ asked
    · rw [List.count_filter (by simpa using wanted)]
      by_cases member : x ∈ all
      · have positive := List.count_pos_iff.2 wanted
        have single := once x member
        rw [show asked.count (owner x) = 1 by omega, Nat.one_mul]
      · rw [List.count_eq_zero.2 member, Nat.mul_zero]
    · have dropped : (all.filter fun x => decide (owner x ∈ asked)).count x = 0 :=
        List.count_eq_zero.2 fun kept => wanted (by simpa using (List.mem_filter.1 kept).2)
      rw [List.count_eq_zero.2 wanted, Nat.zero_mul, dropped]

namespace Archive

variable {a : Archive} {d e : Disk} {l : Location} {i : String} {range : TimeRange} {names interfaces : List String}
  {all : List BlockRef}

/-- The blocks of an interface in a range. -/
def blocksOn (a : Archive) (d : Disk) (l : Location) (range : TimeRange) (i : String) : List BlockRef :=
  (a.partitionsOf d l i).flatMap (refsOf d range i)

/-- The index of a partition around the range lists the block. -/
theorem mem_blocksOn {b : BlockRef} : b ∈ a.blocksOn d l range i ↔
    ∃ u x, d.at? (l ++ [i, partitionName u]) = some .directory ∧ range.overlapsDay u = true ∧
      x ∈ d.indexOf ((a.interfacePath i).join (partitionName u)) ∧ range.contains x.time = true ∧
      b = ⟨i, (a.interfacePath i).join (partitionName u), x⟩ := by
  constructor
  · intro member
    obtain ⟨⟨u, p⟩, partition, listed⟩ := List.mem_flatMap.1 member
    obtain ⟨there, rfl⟩ := mem_partitionsOf.1 partition
    rw [refsOf] at listed
    split at listed
    next around =>
      obtain ⟨x, kept, rfl⟩ := List.mem_map.1 listed
      obtain ⟨entered, inside⟩ := List.mem_filter.1 kept
      exact ⟨u, x, there, around, entered, inside, rfl⟩
    · exact absurd listed List.not_mem_nil
  · rintro ⟨u, x, there, around, entered, inside, rfl⟩
    refine List.mem_flatMap.2 ⟨(u, _), mem_partitionsOf.2 ⟨there, rfl⟩, ?_⟩
    rw [refsOf, if_pos around]
    exact List.mem_map.2 ⟨x, List.mem_filter.2 ⟨entered, inside⟩, rfl⟩

theorem interface_of_mem_blocksOn {b : BlockRef} (member : b ∈ a.blocksOn d l range i) : b.interface = i := by
  obtain ⟨u, x, -, -, -, -, rfl⟩ := mem_blocksOn.1 member
  rfl

theorem nodup_interfacesOf (d : Disk) (l : Location) : (interfacesOf d l).Nodup :=
  (List.mergeSort_perm _ _).nodup_iff.2 (nodup_directoryNames d l)

/-- A block is selected from all interfaces as often as from its own. -/
theorem count_blocksAt (b : BlockRef) : (a.blocksAt d l range).count b =
    if b.interface ∈ interfacesOf d l then (a.blocksOn d l range b.interface).count b else 0 := by
  have owned := count_flatMap_owner BlockRef.interface (g := a.blocksOn d l range)
    (fun i b member => interface_of_mem_blocksOn member) (interfacesOf d l) b
  show ((interfacesOf d l).flatMap (a.blocksOn d l range)).count b = _
  rw [owned]
  split
  next there => rw [List.count_eq_one_of_mem (nodup_interfacesOf d l) there, Nat.one_mul]
  next absent => rw [List.count_eq_zero.2 absent, Nat.zero_mul]

/-! ## Names -/

/-- The first name that leads to no directory is reported. -/
theorem runOn_checkInterfaces (a : Archive) (names : List String) (d : Disk) : (a.checkInterfaces names).runOn d =
    (match names.find? fun n => d.kind (a.interfacePath n) != some .directory with
      | none => .ok ()
      | some n => .error (.absent (.interface n)), d) := by
  induction names with
  | nil => rfl
  | cons n rest ih =>
    rw [checkInterfaces, Action.runOn_bind_of_ok (Action.runOn_kind _ d), List.find?_cons]
    cases found : d.kind (a.interfacePath n) with
    | none => rfl
    | some k =>
      cases k with
      | directory => exact ih
      | file => rfl

/-- A name that leads to a directory is that of an interface, if interfaces can be reached by their names. -/
theorem kind_interfacePath (leads : d.LeadsTo a.root l) (name : IsName i)
    (fine : d.at? (l ++ [i]) = some .directory → Disk.joinFault? a.root i = none) :
    d.kind (a.interfacePath i) = some .directory ↔ i ∈ interfacesOf d l := by
  rw [mem_interfacesOf, interfacePath, Disk.kind, Disk.find_join leads name]
  cases refused : Disk.joinFault? a.root i with
  | some f =>
    simp only [reduceCtorEq, false_iff]
    intro there
    rw [fine there] at refused
    cases refused
  | none =>
    cases d.at? (l ++ [i]) with
    | none => simp
    | some entry => cases entry <;> simp [Entry.kind]

theorem reads_interfaceNames (a : Archive) : a.interfaceNames.Reads :=
  Action.reads_bind (Action.reads_ask_list _) fun _ => Action.reads_pure _

/-- Where all interfaces can be selected, each can be reached by its name. -/
theorem fine_of_selected (leads : d.LeadsTo a.root l) (tree : d.IsTree l)
    (selected : (a.blocksInRange .any range).runOn d = (.ok all, e)) :
    d.list a.root = .ok (d.children l) ∧
      ∀ i, d.at? (l ++ [i]) = some .directory → IsName i ∧ Disk.joinFault? a.root i = none := by
  obtain ⟨names, c, chosen, rest⟩ := Action.runOn_bind_ok_iff.1 selected
  obtain ⟨rfl, listed, sorted⟩ := interfaceNames_ok leads chosen
  obtain ⟨found, c', each, -⟩ := Action.runOn_bind_ok_iff.1 rest
  refine ⟨listed, fun i there => ⟨tree.isName there, ?_⟩⟩
  have member : i ∈ names := by
    rw [sorted]
    exact mem_interfacesOf.2 there
  obtain ⟨bs, one⟩ := Action.forEach_round (reads_interfaceBlocks a range) each i member
  obtain ⟨ps, c'', partitions, -⟩ := Action.runOn_bind_ok_iff.1 one
  obtain ⟨entries, c''', entered, -⟩ := Action.runOn_bind_ok_iff.1 partitions
  exact (entries_ok leads (tree.isName there) entered).2.1

theorem runOn_named (leads : d.LeadsTo a.root l)
    (are : ∀ n ∈ names, IsName n ∧ Disk.joinFault? a.root n = none)
    (known : ∀ n ∈ names, n ∈ interfacesOf d l) (range : TimeRange) :
    (a.blocksInRange (.named names) range).runOn d = (.ok (names.flatMap (a.blocksOn d l range)), d) := by
  have unrefused : names.find? (fun n => d.kind (a.interfacePath n) != some .directory) = none := by
    refine List.find?_eq_none.2 fun n member => ?_
    simp [(kind_interfacePath leads (are n member).1 fun _ => (are n member).2).2 (known n member)]
  have checked : (a.checkInterfaces names).runOn d = (.ok (), d) := by
    rw [runOn_checkInterfaces, unrefused]
  have found : (a.chosen (.named names)).runOn d = (.ok names, d) := by
    rw [chosen, Action.runOn_bind_of_ok checked]
    rfl
  have each := Action.runOn_forEach (l := names) fun i member =>
    runOn_interfaceBlocks leads (are i member).1 (are i member).2 (mem_interfacesOf.1 (known i member)) range
  rw [blocksInRange, Action.runOn_bind_of_ok found, Action.runOn_bind_of_ok each]
  rfl

/-- A name that leads to no directory ends the selection. -/
theorem named_error_iff (names : List String) (range : TimeRange)
    (loops : (∀ n ∈ names, d.kind (a.interfacePath n) = some .directory) →
      ∃ bs, (a.blocksInRange (.named names) range).runOn d = (.ok bs, d)) :
    (∃ n, (a.blocksInRange (.named names) range).runOn d = (.error (.absent (.interface n)), d)) ↔
      ∃ n ∈ names, d.kind (a.interfacePath n) ≠ some .directory := by
  constructor
  · rintro ⟨n, refused⟩
    by_contra all
    obtain ⟨bs, fine⟩ := loops fun n member => by_contra fun unknown => all ⟨n, member, unknown⟩
    rw [fine] at refused
    cases refused
  · rintro ⟨n, member, unknown⟩
    obtain ⟨first, found⟩ : ∃ m, names.find? (fun n => d.kind (a.interfacePath n) != some .directory) = some m :=
      Option.isSome_iff_exists.1 (List.find?_isSome.2 ⟨n, member, by simpa using unknown⟩)
    have checked : (a.checkInterfaces names).runOn d = (.error (.absent (.interface first)), d) := by
      rw [runOn_checkInterfaces, found]
    have chosen : (a.chosen (.named names)).runOn d = (.error (.absent (.interface first)), d) := by
      rw [Archive.chosen, Action.runOn_bind_of_error checked]
    exact ⟨first, by rw [blocksInRange, Action.runOn_bind_of_error chosen]⟩

/-! ## Naming and filtering -/

/-- Naming interfaces only filters: it fails if and only if a name is that of no interface, and else selects the
blocks of the named interfaces, each as often as the selection of all interfaces does. -/
def OnlyFilters (a : Archive) (d : Disk) (names : List String) (range : TimeRange) : Prop :=
  ∀ interfaces all, a.interfaceNames.runOn d = (.ok interfaces, d) →
    (a.blocksInRange .any range).runOn d = (.ok all, d) →
    ((∃ n, (a.blocksInRange (.named names) range).runOn d = (.error (.absent (.interface n)), d)) ↔
      ∃ n ∈ names, n ∉ interfaces) ∧
    ((∀ n ∈ names, n ∈ interfaces) → ∃ bs, (a.blocksInRange (.named names) range).runOn d = (.ok bs, d) ∧
      bs.Perm (all.filter fun b => decide (b.interface ∈ names)))

/-- Of the interfaces that are named, each block is met as often as its interface is named. -/
theorem count_named (known : ∀ n ∈ names, n ∈ interfacesOf d l) (b : BlockRef) :
    (names.flatMap (a.blocksOn d l range)).count b = names.count b.interface * (a.blocksAt d l range).count b := by
  rw [count_flatMap_owner BlockRef.interface (fun i b member => interface_of_mem_blocksOn member), count_blocksAt]
  split
  · rfl
  next unknown => rw [List.count_eq_zero.2 fun named => unknown (known _ named), Nat.zero_mul, Nat.zero_mul]

/-- What a disk lists and selects is one thing only. -/
theorem onlyFilters_iff (found : a.interfaceNames.runOn d = (.ok interfaces, d))
    (selected : (a.blocksInRange .any range).runOn d = (.ok all, d)) : a.OnlyFilters d names range ↔
      ((∃ n, (a.blocksInRange (.named names) range).runOn d = (.error (.absent (.interface n)), d)) ↔
        ∃ n ∈ names, n ∉ interfaces) ∧
      ((∀ n ∈ names, n ∈ interfaces) → ∃ bs, (a.blocksInRange (.named names) range).runOn d = (.ok bs, d) ∧
        bs.Perm (all.filter fun b => decide (b.interface ∈ names))) := by
  refine ⟨fun only => only interfaces all found selected, fun only interfaces' all' found' selected' => ?_⟩
  rw [found] at found'
  rw [selected] at selected'
  cases found'
  cases selected'
  exact only

/-- Names without a stroke select, of each interface that is named, what the selection of all interfaces has of it,
as often as it is named. So naming only filters if and only if a name is unknown or no interface with a block in
range is named twice. -/
theorem named_selects (tree : d.IsTree l) (leads : d.LeadsTo a.root l)
    (found : a.interfaceNames.runOn d = (.ok interfaces, d))
    (selected : (a.blocksInRange .any range).runOn d = (.ok all, d)) (plain : ∀ n ∈ names, IsName n) :
    ((∀ n ∈ names, n ∈ interfaces) → ∃ bs, (a.blocksInRange (.named names) range).runOn d = (.ok bs, d) ∧
      ∀ b, bs.count b = names.count b.interface * all.count b) ∧
    (a.OnlyFilters d names range ↔
      (∃ n ∈ names, n ∉ interfaces) ∨ ∀ b ∈ all, names.count b.interface ≤ 1) := by
  obtain ⟨listed, are⟩ := fine_of_selected leads tree selected
  obtain ⟨-, -, sorted⟩ := interfaceNames_ok leads found
  obtain rfl : interfaces = interfacesOf d l := sorted
  obtain rfl : all = a.blocksAt d l range := by
    have whole := runOn_blocksInRange leads listed are range
    rw [selected] at whole
    cases whole
    rfl
  have kinds : ∀ n ∈ names, (d.kind (a.interfacePath n) = some .directory ↔ n ∈ interfacesOf d l) :=
    fun n member => kind_interfacePath leads (plain n member) fun there => (are n there).2
  have fails : (∃ n, (a.blocksInRange (.named names) range).runOn d = (.error (.absent (.interface n)), d)) ↔
      ∃ n ∈ names, n ∉ interfacesOf d l := by
    rw [named_error_iff names range fun known => ⟨_, runOn_named leads
      (fun n member => are n (mem_interfacesOf.1 ((kinds n member).1 (known n member))))
      (fun n member => (kinds n member).1 (known n member)) range⟩]
    exact exists_congr fun n => and_congr_right fun member => not_congr (kinds n member)
  have ran : (∀ n ∈ names, n ∈ interfacesOf d l) → (a.blocksInRange (.named names) range).runOn d =
      (.ok (names.flatMap (a.blocksOn d l range)), d) := fun known =>
    runOn_named leads (fun n member => are n (mem_interfacesOf.1 (known n member))) known range
  refine ⟨fun known => ⟨_, ran known, count_named known⟩, ?_⟩
  by_cases known : ∀ n ∈ names, n ∈ interfacesOf d l
  · have none : ¬ ∃ n ∈ names, n ∉ interfacesOf d l := fun ⟨n, member, unknown⟩ => unknown (known n member)
    rw [onlyFilters_iff found selected, or_iff_right none, and_iff_right fails, forall_prop_of_true known]
    have run := ran known
    rw [← perm_filter_iff (count_named known)]
    constructor
    · rintro ⟨bs, ran, same⟩
      rw [run] at ran
      cases ran
      exact same
    · exact fun same => ⟨_, run, same⟩
  · have some : ∃ n ∈ names, n ∉ interfacesOf d l := by simpa using known
    exact iff_of_true ((onlyFilters_iff found selected).2 ⟨fails, fun all => absurd all known⟩) (.inl some)

/-! ### An interface that is named twice -/

/-- The one block of the written disk, as a selection has it. -/
def writtenBlock (interface root : String) : BlockRef :=
  ⟨interface, ⟨[root, interface, "0"]⟩, describe 5 [newFlow]⟩

theorem found_writtenDisk : newArchive.interfaceNames.runOn writtenDisk = (.ok ["eth0"], writtenDisk) :=
  Prod.ext (Action.toOption_eq_some.1 (by decide +kernel)) (reads_interfaceNames _ _)

theorem selected_writtenDisk : (newArchive.blocksInRange .any .sinceEpoch).runOn writtenDisk =
    (.ok [writtenBlock "eth0" "/data"], writtenDisk) :=
  Prod.ext (Action.toOption_eq_some.1 (by decide +kernel)) (reads_blocksInRange _ _ _ _)

theorem named_selects_twice :
    (∃ bs, (newArchive.blocksInRange (.named ["eth0", "eth0"]) .sinceEpoch).runOn writtenDisk = (.ok bs, writtenDisk) ∧
      ∀ b, bs.count b = ["eth0", "eth0"].count b.interface * [writtenBlock "eth0" "/data"].count b) ∧
    newArchive.OnlyFilters writtenDisk ["eth0"] .sinceEpoch := by
  have consistent := (runs_writtenDisk.consistent isFresh_newDisk).1
  have plain : ∀ n ∈ ["eth0"], IsName n := by decide
  have plain' : ∀ n ∈ ["eth0", "eth0"], IsName n := by decide
  have once := named_selects consistent.tree consistent.leads found_writtenDisk selected_writtenDisk plain
  have twice := named_selects consistent.tree consistent.leads found_writtenDisk selected_writtenDisk plain'
  exact ⟨twice.1 (by decide), once.2.2 (.inr (by decide))⟩

/-- A block of an interface that is named twice is selected twice, and a name that goes around a directory selects
the blocks of an interface that is not listed by that name. -/
theorem naming_does_more_than_filter :
    ¬ newArchive.OnlyFilters writtenDisk ["eth0", "eth0"] .sinceEpoch ∧
    ¬ newArchive.OnlyFilters writtenDisk ["./eth0"] .sinceEpoch := by
  constructor
  · intro only
    obtain ⟨bs, ran, same⟩ := (only _ _ found_writtenDisk selected_writtenDisk).2 (by decide)
    have twice : (newArchive.blocksInRange (.named ["eth0", "eth0"]) .sinceEpoch).runOn writtenDisk =
        (.ok [writtenBlock "eth0" "/data", writtenBlock "eth0" "/data"], writtenDisk) :=
      Prod.ext (Action.toOption_eq_some.1 (by decide +kernel)) (reads_blocksInRange _ _ _ _)
    rw [twice] at ran
    cases ran
    exact absurd same.length_eq (by decide)
  · intro only
    obtain ⟨n, refused⟩ := (only _ _ found_writtenDisk selected_writtenDisk).1.2 ⟨"./eth0", by decide, by decide⟩
    have around : (newArchive.blocksInRange (.named ["./eth0"]) .sinceEpoch).runOn writtenDisk =
        (.ok [writtenBlock "./eth0" "/data"], writtenDisk) :=
      Prod.ext (Action.toOption_eq_some.1 (by decide +kernel)) (reads_blocksInRange _ _ _ _)
    rw [around] at refused
    cases refused

end Archive

end FlowArchive
