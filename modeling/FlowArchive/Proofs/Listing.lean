import FlowArchive.Proofs.IndexEntries
import FlowArchive.Proofs.IntegerTexts
import FlowArchive.Proofs.Reading
import FlowArchive.Proofs.Trees
import Mathlib.Data.List.Nodup
import Mathlib.Data.List.Perm.Basic

/-!
# What an archive lists

The blocks of an interface are those that the indexes of its partitions list. Which blocks these are depends on
the partitions and their indexes alone, up to the order.
-/

namespace FlowArchive

open FlowArchive.Path (IsName)

namespace Archive

theorem partitionDay?_partitionName (day : Timestamp) : partitionDay? (partitionName day) = some day := by
  have low : -9223372036854775808 ≤ day.toInt := day.le_toInt
  have high : day.toInt ≤ 9223372036854775807 := Int.le_of_lt_add_one day.toInt_lt
  have read : Decimal.readInt64? (partitionName day).toList = some day := by
    rw [partitionName, Decimal.textInt, String.toList_ofList, Decimal.readInt64?,
      Decimal.readInt?_printInt low high, Option.map_some, Int64.ofInt_toInt]
  rw [partitionDay?, read, Option.filter_some, if_pos (by simp)]

theorem partitionName_inj {t u : Timestamp} (same : partitionName t = partitionName u) : t = u := by
  have days := congrArg partitionDay? same
  rw [partitionDay?_partitionName, partitionDay?_partitionName] at days
  exact Option.some.inj days

/-- A partition has the name of its day. -/
theorem partitionName_of_partitionDay? {name : String} {day : Timestamp} (found : partitionDay? name = some day) :
    partitionName day = name := by
  have passed := (Option.filter_eq_some_iff.1 found).2
  simpa using passed

/-- A text of digits and signs before an ending is a name. -/
theorem isName_number (i : Int) (ending : String) (plain : '/' ∉ ending.toList) :
    IsName (Decimal.textInt i ++ ending) := by
  refine ⟨Decimal.textInt_append_ne i ending (by decide), Decimal.textInt_append_ne i ending (by decide),
    Decimal.textInt_append_ne i ending (by decide), fun stroke => ?_⟩
  rw [String.toList_append, List.mem_append] at stroke
  rcases stroke with inside | behind
  · rw [Decimal.textInt, String.toList_ofList] at inside
    rcases Decimal.mem_printInt inside with same | digit
    · cases same
    · exact absurd digit (by decide)
  · exact plain behind

theorem isName_partition (day : Timestamp) : IsName (partitionName day) := by
  have name := isName_number day.toInt "" (by decide)
  rwa [String.append_empty] at name

theorem isName_block (t : Timestamp) : IsName (blockName t) := by
  have name := isName_number t.toInt ("." ++ blockExtension) (by decide +kernel)
  rwa [← String.append_assoc] at name

theorem isName_draft (t : Timestamp) : IsName (draftName t) := isName_number t.toInt ".tmp" (by decide +kernel)

theorem isName_index : IsName indexName := by decide +kernel

theorem number_ne_index (i : Int) (ending : String) : Decimal.textInt i ++ ending ≠ indexName :=
  Decimal.textInt_append_ne i ending (by decide +kernel)

theorem blockName_ne_index (t : Timestamp) : blockName t ≠ indexName := by
  have different := number_ne_index t.toInt ("." ++ blockExtension)
  rwa [← String.append_assoc] at different

theorem draftName_ne_index (t : Timestamp) : draftName t ≠ indexName := number_ne_index t.toInt ".tmp"

/-- The file of a block tells its time. -/
theorem blockName_inj {t u : Timestamp} (same : blockName t = blockName u) : t = u := by
  have letters := congrArg String.toList same
  rw [blockName, blockName, String.toList_append, String.toList_append, String.toList_append, String.toList_append,
    List.append_cancel_right_eq, List.append_cancel_right_eq] at letters
  exact partitionName_inj (String.toList_inj.1 letters)

/-- Files of blocks end in another way than drafts. -/
theorem blockName_ne_draftName (t u : Timestamp) : blockName t ≠ draftName u := by
  intro same
  have endings := congrArg (fun s => s.toList.getLast?) same
  have left : (blockName t).toList.getLast? = some 'k' := by
    have ending : blockExtension.toList = ['b', 'l', 'k'] := by decide +kernel
    simp [blockName, ending]
  have right : (draftName u).toList.getLast? = some 'p' := by simp [draftName]
  simp only [left, right] at endings
  cases endings

end Archive

namespace Disk

open scoped List

variable {d e : Disk} {l : Location} {i n : String}

/-- The blocks that the index of a partition lists before its first flaw. -/
def indexAt (d : Disk) (l : Location) (interface partition : String) : List Descriptor :=
  ((d.content? (l ++ [interface, partition, Archive.indexName])).map fun s => (Index.readPrefix s).1).getD []

/-- The names of the partitions of an interface. -/
def partitionNames (d : Disk) (l : Location) (interface : String) : List String :=
  ((d.children (l ++ [interface])).filter fun e =>
    e.2 == .directory && (Archive.partitionDay? e.1).isSome).map (·.1)

/-- The blocks that the indexes of the partitions of an interface list. -/
def listed (d : Disk) (l : Location) (interface : String) : List Descriptor :=
  (d.partitionNames l interface).flatMap (d.indexAt l interface)

theorem mem_partitionNames : n ∈ d.partitionNames l i ↔
    d.at? (l ++ [i, n]) = some .directory ∧ (Archive.partitionDay? n).isSome := by
  rw [List.append_cons, ← mem_children_directory]
  simp only [partitionNames, List.mem_map, List.mem_filter, Bool.and_eq_true, beq_iff_eq]
  constructor
  · rintro ⟨⟨name, k⟩, ⟨child, rfl, day⟩, rfl⟩
    exact ⟨child, day⟩
  · rintro ⟨child, day⟩
    exact ⟨(n, .directory), ⟨child, rfl, day⟩, rfl⟩

theorem isName_of_mem_partitionNames (listed : n ∈ d.partitionNames l i) : IsName n := by
  obtain ⟨t, found⟩ := Option.isSome_iff_exists.1 (mem_partitionNames.1 listed).2
  exact Archive.partitionName_of_partitionDay? found ▸ Archive.isName_partition t

theorem nodup_partitionNames (d : Disk) (l : Location) (i : String) : (d.partitionNames l i).Nodup :=
  (nodup_children d (l ++ [i])).sublist (List.filter_sublist.map _)

theorem indexAt_congr
    (same : e.at? (l ++ [i, n, Archive.indexName]) = d.at? (l ++ [i, n, Archive.indexName])) :
    e.indexAt l i n = d.indexAt l i n := by
  rw [indexAt, indexAt, content?_congr same]

theorem indexAt_of_absent (absent : d.at? (l ++ [i, n, Archive.indexName]) = none) : d.indexAt l i n = [] := by
  simp [indexAt, content?, absent]

/-- What is listed comes from some partitions and from the others. -/
theorem listed_filter (d : Disk) (l : Location) (i : String) (keeps : String → Bool) :
    (d.listed l i).Perm (((d.partitionNames l i).filter fun n => !keeps n).flatMap (d.indexAt l i) ++
      ((d.partitionNames l i).filter keeps).flatMap (d.indexAt l i)) := by
  have parts := List.filter_append_perm keeps (d.partitionNames l i)
  calc d.listed l i
    _ ~ ((d.partitionNames l i).filter keeps ++ (d.partitionNames l i).filter fun n => !keeps n).flatMap
          (d.indexAt l i) := (parts.symm.flatMap_right _)
    _ ~ ((d.partitionNames l i).filter keeps).flatMap (d.indexAt l i) ++
          ((d.partitionNames l i).filter fun n => !keeps n).flatMap (d.indexAt l i) := by rw [List.flatMap_append]
    _ ~ _ := List.perm_append_comm

/-- Where some partitions remain with their indexes, what is listed comes from them. -/
theorem listed_kept (keeps : String → Bool)
    (kept : ∀ n, n ∈ e.partitionNames l i ↔ n ∈ d.partitionNames l i ∧ keeps n = true)
    (same : ∀ n ∈ e.partitionNames l i, e.indexAt l i n = d.indexAt l i n) :
    (((d.partitionNames l i).filter keeps).flatMap (d.indexAt l i)).Perm (e.listed l i) := by
  have names : (e.partitionNames l i).Perm ((d.partitionNames l i).filter keeps) := by
    refine (List.perm_ext_iff_of_nodup (nodup_partitionNames e l i) ((nodup_partitionNames d l i).filter _)).2 fun n => ?_
    rw [kept, List.mem_filter]
  have own : e.listed l i = (e.partitionNames l i).flatMap (d.indexAt l i) := by
    rw [listed]
    exact List.flatMap_congr fun n member => same n member
  rw [own]
  exact (names.flatMap_right _).symm

/-- Where partitions and indexes are the same, so is what they list. -/
theorem listed_congr (names : ∀ n, n ∈ e.partitionNames l i ↔ n ∈ d.partitionNames l i)
    (same : ∀ n ∈ e.partitionNames l i, e.indexAt l i n = d.indexAt l i n) : (e.listed l i).Perm (d.listed l i) := by
  have kept := listed_kept (fun _ => true) (fun n => by simp [names]) same
  rw [List.filter_true] at kept
  exact kept.symm

/-- Where all is the same below the interfaces, so is what they list. -/
theorem listed_of_below (same : ∀ i n rest, e.at? (l ++ i :: n :: rest) = d.at? (l ++ i :: n :: rest)) (i : String) :
    (e.listed l i).Perm (d.listed l i) :=
  listed_congr (fun n => by rw [mem_partitionNames, mem_partitionNames, same])
    fun n _ => indexAt_congr (same i n [Archive.indexName])

/-- Nothing is listed without partitions. -/
theorem listed_eq_nil (none : ∀ n, d.at? (l ++ [i, n]) ≠ some .directory) : d.listed l i = [] := by
  have names : d.partitionNames l i = [] :=
    List.eq_nil_iff_forall_not_mem.2 fun n member => none n (mem_partitionNames.1 member).1
  rw [listed, names, List.flatMap_nil]

theorem listed_of_absent (tree : d.IsTree l) (absent : d.at? (l ++ [i]) ≠ some .directory) : d.listed l i = [] :=
  listed_eq_nil fun n there => absent (tree.parent (by rw [there]; simp))

/-- More entries of an index are more blocks that are listed. -/
theorem listed_append {xs : List Descriptor} (here : n ∈ e.partitionNames l i)
    (others : ∀ m ≠ n, m ∈ e.partitionNames l i ↔ m ∈ d.partitionNames l i)
    (fresh : n ∉ d.partitionNames l i → d.indexAt l i n = [])
    (same : ∀ m ≠ n, e.indexAt l i m = d.indexAt l i m) (own : e.indexAt l i n = d.indexAt l i n ++ xs) :
    (e.listed l i).Perm (d.listed l i ++ xs) := by
  have nodup := (nodup_partitionNames d l i).erase n
  have names : (e.partitionNames l i).Perm (n :: (d.partitionNames l i).erase n) := by
    have once : (n :: (d.partitionNames l i).erase n).Nodup :=
      List.nodup_cons.2 ⟨(nodup_partitionNames d l i).not_mem_erase, nodup⟩
    refine (List.perm_ext_iff_of_nodup (nodup_partitionNames e l i) once).2 fun m => ?_
    by_cases this : m = n
    · simp [this, here]
    · rw [others m this, List.mem_cons, List.mem_erase_of_ne this, or_iff_right this]
  have before : (d.indexAt l i n ++ ((d.partitionNames l i).erase n).flatMap (d.indexAt l i)).Perm (d.listed l i) := by
    by_cases old : n ∈ d.partitionNames l i
    · exact ((List.perm_cons_erase old).flatMap_right _).symm
    · rw [fresh old, List.erase_of_not_mem old, List.nil_append]
      exact .refl _
  have rest : ((d.partitionNames l i).erase n).flatMap (e.indexAt l i) =
      ((d.partitionNames l i).erase n).flatMap (d.indexAt l i) := by
    refine List.flatMap_congr fun m member => same m ?_
    rintro rfl
    exact (nodup_partitionNames d l i).not_mem_erase member
  calc e.listed l i
    _ ~ (n :: (d.partitionNames l i).erase n).flatMap (e.indexAt l i) := names.flatMap_right _
    _ ~ d.indexAt l i n ++ (xs ++ ((d.partitionNames l i).erase n).flatMap (d.indexAt l i)) := by
        rw [List.flatMap_cons, own, rest, List.append_assoc]
    _ ~ d.indexAt l i n ++ (((d.partitionNames l i).erase n).flatMap (d.indexAt l i) ++ xs) :=
        List.perm_append_comm.append_left _
    _ ~ d.listed l i ++ xs := by
        rw [← List.append_assoc]
        exact before.append_right _

end Disk

/-! ## Interfaces -/

namespace Archive

variable {a : Archive} {d e : Disk} {l : Location} {i : String}

theorem mem_directoryNames : i ∈ directoryNames (d.children l) ↔ d.at? (l ++ [i]) = some .directory := by
  rw [← Disk.mem_children_directory]
  simp only [directoryNames, List.mem_map, List.mem_filter, beq_iff_eq]
  constructor
  · rintro ⟨⟨name, k⟩, ⟨child, rfl⟩, rfl⟩
    exact child
  · exact fun child => ⟨(i, .directory), ⟨child, rfl⟩, rfl⟩

theorem nodup_directoryNames (d : Disk) (l : Location) : (directoryNames (d.children l)).Nodup :=
  (Disk.nodup_children d l).sublist (List.filter_sublist.map _)

/-- The interfaces of an archive are the directories in its own, sorted. -/
theorem interfaceNames_ok {names : List String} (leads : d.LeadsTo a.root l)
    (found : a.interfaceNames.runOn d = (.ok names, e)) :
    e = d ∧ d.list a.root = .ok (d.children l) ∧ names = (directoryNames (d.children l)).mergeSort fun x y => (compare x y).isLE := by
  obtain ⟨es, c, asked, last⟩ := Action.runOn_bind_ok_iff.1 found
  have answered := Action.runOn_ask_ok_iff.1 asked
  obtain rfl : d = c := congrArg Prod.snd answered
  cases last
  have listed : d.list a.root = .ok es := congrArg Prod.fst answered
  obtain rfl := Disk.list_of_leadsTo leads listed
  exact ⟨rfl, listed, rfl⟩

end Archive

/-! ## Indexes by their paths -/

namespace Archive

variable {a : Archive} {d : Disk} {k l : Location} {i n : String}

/-- The path of an index is not refused whatever the tree. -/
structure Readable (a : Archive) (i n : String) : Prop where
  short : i.utf8ByteSize ≤ Path.longestName
  short' : n.utf8ByteSize ≤ Path.longestName
  fine : Disk.joinFault? ((a.interfacePath i).join n) indexName = none

/-- The path of a partition leads to the place that its names tell. -/
theorem leadsTo_partition (leads : d.LeadsTo a.root l) (name : IsName i) (name' : IsName n)
    (inside : d.LeadsTo ((a.interfacePath i).join n) k) :
    k = l ++ [i, n] ∧ i.utf8ByteSize ≤ Path.longestName ∧ n.utf8ByteSize ≤ Path.longestName := by
  obtain ⟨m, above⟩ := Disk.leadsTo_of_walk name' inside.walked
  obtain ⟨rfl, short⟩ := above.of_join leads name
  obtain ⟨rfl, short'⟩ := inside.of_join above name'
  exact ⟨by simp, short, short'⟩

/-- The path of a partition that is there leads to it. -/
theorem leadsTo_partitionPath {t : Timestamp} (leads : d.LeadsTo a.root l) (tree : d.IsTree l) (name : IsName i)
    (short : i.utf8ByteSize ≤ Path.longestName)
    (short' : (partitionName t.startOfDay).utf8ByteSize ≤ Path.longestName)
    (there : d.at? (l ++ [i, partitionName t.startOfDay]) = some .directory) :
    d.at? (l ++ [i]) = some .directory ∧ d.LeadsTo (a.partitionPath i t) (l ++ [i, partitionName t.startOfDay]) := by
  have interface := tree.parent (by rw [there]; simp)
  have place : l ++ [i] ++ [partitionName t.startOfDay] = l ++ [i, partitionName t.startOfDay] := by simp
  have inside := (leads.join name short interface).join (isName_partition t.startOfDay) short' (by rw [place]; exact there)
  rw [place] at inside
  exact ⟨interface, inside⟩

/-- An index that is read stands where its names tell. -/
theorem content?_of_read {s : Bytes} (leads : d.LeadsTo a.root l) (name : IsName i) (name' : IsName n)
    (read : d.read (indexPath ((a.interfacePath i).join n)) = .ok s) :
    d.content? (l ++ [i, n, indexName]) = some s := by
  unfold Disk.read at read
  split at read
  · cases read
  next m s' found =>
    cases read
    obtain ⟨k, inside, -, there⟩ := Disk.find_join_inv isName_index found
    obtain ⟨rfl, -⟩ := leadsTo_partition leads name name' inside
    refine Disk.content?_eq_some.2 ?_
    have present := (congrArg Prod.snd there).symm
    simpa using present
  · cases read
  · cases read

/-- What is read of an index by its path is what it lists. -/
theorem indexOf_subset (leads : d.LeadsTo a.root l) (name : IsName i) (name' : IsName n) {x : Descriptor}
    (member : x ∈ d.indexOf ((a.interfacePath i).join n)) : x ∈ d.indexAt l i n := by
  unfold Disk.indexOf at member
  split at member
  next s read =>
    rw [Disk.indexAt, content?_of_read leads name name' read]
    exact member
  · cases member

theorem indexOf_eq_indexAt (leads : d.LeadsTo a.root l) (tree : d.IsTree l) (name : IsName i) (name' : IsName n)
    (readable : d.content? (l ++ [i, n, indexName]) ≠ none → a.Readable i n) :
    d.indexOf ((a.interfacePath i).join n) = d.indexAt l i n := by
  cases there : d.content? (l ++ [i, n, indexName]) with
  | none =>
    cases read : d.read (indexPath ((a.interfacePath i).join n)) with
    | ok s =>
      rw [content?_of_read leads name name' read] at there
      cases there
    | error f => simp [Disk.indexOf, Disk.indexAt, read, there]
  | some s =>
    obtain ⟨short, short', fine⟩ := readable (by rw [there]; simp)
    have present := Disk.content?_eq_some.1 there
    have place : l ++ [i, n] ++ [indexName] = l ++ [i, n, indexName] := by simp
    have partition := (tree [i, n] indexName (by rw [place, present]; simp)).2
    have interface := tree.parent (by rw [partition]; simp)
    have inside := (leads.join name short interface).join name' short' (by rwa [← List.append_cons])
    rw [← List.append_cons] at inside
    have read : d.read (indexPath ((a.interfacePath i).join n)) = .ok s :=
      Disk.read_join inside isName_index fine (place ▸ present)
    simp [Disk.indexOf, Disk.indexAt, read, there]

end Archive

end FlowArchive
