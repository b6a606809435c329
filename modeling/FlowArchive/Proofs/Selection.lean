import FlowArchive.Proofs.Listing

/-!
# The blocks that a query selects

Interfaces are gone through by name, and the partitions of each by day. Both orders are total, so what is selected
depends on what is there and not on the order in which directories are listed: where some interfaces and
partitions are gone, the others are gone through as before.
-/

namespace FlowArchive

open FlowArchive.Path (IsName)

/-- Members that contribute nothing may be left out. -/
theorem flatMap_filter_eq {α β : Type} {keeps : α → Bool} {f g : α → List β} {l : List α}
    (kept : ∀ x ∈ l, keeps x = true → g x = f x) (gone : ∀ x ∈ l, keeps x = false → f x = []) :
    (l.filter keeps).flatMap g = l.flatMap f := by
  induction l with
  | nil => rfl
  | cons x rest ih =>
    have others := ih (fun y later => kept y (List.mem_cons_of_mem _ later))
      fun y later => gone y (List.mem_cons_of_mem _ later)
    cases stays : keeps x with
    | true => rw [List.filter_cons_of_pos stays, List.flatMap_cons, List.flatMap_cons, others, kept x List.mem_cons_self stays]
    | false =>
      rw [List.filter_cons_of_neg (by simp [stays]), List.flatMap_cons, others, gone x List.mem_cons_self stays,
        List.nil_append]

namespace StoreEntry

/-- The order of the entries of an interface's directory. -/
def order : StoreEntry → StoreEntry → Ordering :=
  compareLex (compareOn fun a => a.rank.1) (compareLex (compareOn fun a => a.rank.2.1) (compareOn fun a => a.rank.2.2))

theorem le_eq (a b : StoreEntry) : a.le b = (order a b).isLE := rfl

instance : Std.TransCmp order := by
  unfold order
  infer_instance

theorem le_trans (a b c : StoreEntry) (first : a.le b = true) (second : b.le c = true) : a.le c = true := by
  rw [le_eq] at *
  exact Std.TransCmp.isLE_trans first second

theorem le_total (a b : StoreEntry) : (a.le b || b.le a) = true := by
  have turned : order b a = (order a b).swap := Std.OrientedCmp.eq_swap
  rw [le_eq, le_eq, turned]
  cases order a b <;> rfl

/-- Partitions are in the order of their days. -/
theorem le_of_partitions {t u : Timestamp} {p q : Path} (before : (partition t p).le (partition u q) = true) :
    t ≤ u := by
  have days : order (partition t p) (partition u q) = compare t.toInt u.toInt := by
    simp [order, compareLex, compareOn, rank]
  rw [le_eq, days, Std.isLE_compare] at before
  exact Int64.le_iff_toInt_le.2 before

end StoreEntry

namespace Archive

variable {a : Archive} {d e : Disk} {l : Location} {i : String} {t : Timestamp} {p : Path}
  {found : List (String × EntryKind)}

/-! ## Partitions -/

/-- The partitions of an interface with their paths, the oldest first. -/
def partitionsOf (a : Archive) (d : Disk) (l : Location) (i : String) : List (Timestamp × Path) :=
  (((d.children (l ++ [i])).map (a.classify i)).mergeSort StoreEntry.le).filterMap partition?

theorem classify_eq_partition {x : String × EntryKind} : a.classify i x = .partition t p ↔
    x = (partitionName t, .directory) ∧ p = (a.interfacePath i).join (partitionName t) := by
  obtain ⟨name, k⟩ := x
  cases k with
  | file => simp [classify]
  | directory =>
    rw [classify]
    cases found : partitionDay? name with
    | none =>
      simp only [reduceCtorEq, false_iff, Prod.mk.injEq, and_true, not_and]
      rintro rfl
      rw [partitionDay?_partitionName] at found
      cases found
    | some u =>
      have named := partitionName_of_partitionDay? found
      simp only [StoreEntry.partition.injEq, Prod.mk.injEq, and_true]
      constructor
      · rintro ⟨rfl, rfl⟩
        exact ⟨named.symm, by rw [named]⟩
      · rintro ⟨rfl, rfl⟩
        rw [partitionDay?_partitionName] at found
        cases found
        exact ⟨rfl, rfl⟩

theorem partition?_eq_some {x : StoreEntry} : partition? x = some (t, p) ↔ x = .partition t p := by
  cases x <;> simp [partition?]

/-- The partitions among what is found in the directory of an interface, the oldest first. -/
def partitionsAmong (a : Archive) (i : String) (found : List (String × EntryKind)) : List (Timestamp × Path) :=
  ((found.map (a.classify i)).mergeSort StoreEntry.le).filterMap partition?

theorem mem_partitionsAmong : (t, p) ∈ a.partitionsAmong i found ↔
    (partitionName t, .directory) ∈ found ∧ p = (a.interfacePath i).join (partitionName t) := by
  simp only [partitionsAmong, List.mem_filterMap, partition?_eq_some, exists_eq_right, List.mem_mergeSort, List.mem_map,
    classify_eq_partition]
  constructor
  · rintro ⟨x, member, rfl, rfl⟩
    exact ⟨member, rfl⟩
  · rintro ⟨member, rfl⟩
    exact ⟨_, member, rfl, rfl⟩

theorem nodup_partitionsAmong (distinct : found.Nodup) : (a.partitionsAmong i found).Nodup := by
  have entries : (found.map (a.classify i)).filterMap partition? = found.filterMap (partition? ∘ a.classify i) :=
    List.filterMap_map
  refine ((List.mergeSort_perm _ _).filterMap _).nodup_iff.2 (entries ▸ distinct.filterMap ?_)
  rintro x y ⟨t, p⟩ first second
  obtain ⟨rfl, -⟩ := classify_eq_partition.1 (partition?_eq_some.1 first)
  obtain ⟨rfl, -⟩ := classify_eq_partition.1 (partition?_eq_some.1 second)
  rfl

theorem sorted_partitionsAmong (a : Archive) (i : String) (found : List (String × EntryKind)) :
    (a.partitionsAmong i found).Pairwise fun x y => x.1 ≤ y.1 := by
  have sorted := List.pairwise_mergeSort StoreEntry.le_trans StoreEntry.le_total (found.map (a.classify i))
  refine List.pairwise_filterMap.2 (sorted.imp ?_)
  rintro x y before ⟨t, p⟩ first ⟨u, q⟩ second
  rw [partition?_eq_some.1 first, partition?_eq_some.1 second] at before
  exact StoreEntry.le_of_partitions before

/-- The partitions of an interface are those among what its directory lists. -/
theorem runOn_partitions (listed : d.list (a.interfacePath i) = .ok found) :
    (a.partitions i).runOn d = (.ok (a.partitionsAmong i found), d) := by
  have asked : (Action.ask (.list (a.interfacePath i))).runOn d = (.ok found, d) :=
    Action.runOn_ask_ok_iff.2 (Prod.ext listed rfl)
  rw [partitions, entries, Action.runOn_bind, Action.runOn_bind_of_ok asked]
  rfl

theorem mem_partitionsOf : (t, p) ∈ a.partitionsOf d l i ↔
    d.at? (l ++ [i, partitionName t]) = some .directory ∧ p = (a.interfacePath i).join (partitionName t) := by
  rw [List.append_cons, ← Disk.mem_children_directory]
  exact mem_partitionsAmong

theorem nodup_partitionsOf (a : Archive) (d : Disk) (l : Location) (i : String) : (a.partitionsOf d l i).Nodup :=
  nodup_partitionsAmong ((Disk.nodup_children d (l ++ [i])).of_map _)

theorem sorted_partitionsOf (a : Archive) (d : Disk) (l : Location) (i : String) :
    (a.partitionsOf d l i).Pairwise fun x y => x.1 ≤ y.1 := sorted_partitionsAmong a i (d.children (l ++ [i]))

/-- Where some partitions are gone, the others are gone through as before. -/
theorem partitionsOf_eq_filter (keeps : Timestamp → Bool)
    (kept : ∀ t, e.at? (l ++ [i, partitionName t]) = some .directory ↔
      d.at? (l ++ [i, partitionName t]) = some .directory ∧ keeps t = true) :
    a.partitionsOf e l i = (a.partitionsOf d l i).filter fun x => keeps x.1 := by
  have perm : (a.partitionsOf e l i).Perm ((a.partitionsOf d l i).filter fun x => keeps x.1) := by
    refine (List.perm_ext_iff_of_nodup (nodup_partitionsOf a e l i) ((nodup_partitionsOf a d l i).filter _)).2 ?_
    rintro ⟨t, p⟩
    rw [List.mem_filter, mem_partitionsOf, mem_partitionsOf, kept]
    tauto
  refine perm.eq_of_pairwise ?_ (sorted_partitionsOf a e l i) ((sorted_partitionsOf a d l i).filter _)
  rintro ⟨t, p⟩ ⟨u, q⟩ first second before after
  obtain rfl : t = u := Int64.le_antisymm before after
  obtain ⟨-, rfl⟩ := mem_partitionsOf.1 first
  obtain ⟨-, rfl⟩ := mem_partitionsOf.1 (List.mem_of_mem_filter second)
  rfl

/-! ## Interfaces -/

/-- The interfaces of an archive by name. -/
def interfacesOf (d : Disk) (l : Location) : List String :=
  (directoryNames (d.children l)).mergeSort fun x y => (compare x y).isLE

theorem mem_interfacesOf : i ∈ interfacesOf d l ↔ d.at? (l ++ [i]) = some .directory := by
  rw [interfacesOf, List.mem_mergeSort, mem_directoryNames]

theorem sorted_interfacesOf (d : Disk) (l : Location) :
    (interfacesOf d l).Pairwise fun x y => (compare x y).isLE = true := by
  have trans : ∀ x y z : String, (compare x y).isLE = true → (compare y z).isLE = true → (compare x z).isLE = true :=
    fun x y z first second => Std.TransCmp.isLE_trans first second
  have total : ∀ x y : String, ((compare x y).isLE || (compare y x).isLE) = true := by
    intro x y
    have turned : compare y x = (compare x y).swap := Std.OrientedCmp.eq_swap
    rw [turned]
    cases compare x y <;> rfl
  exact List.pairwise_mergeSort trans total _

/-- Where some interfaces are gone, the others are gone through as before. -/
theorem interfacesOf_eq_filter (keeps : String → Bool)
    (kept : ∀ i, e.at? (l ++ [i]) = some .directory ↔ d.at? (l ++ [i]) = some .directory ∧ keeps i = true) :
    interfacesOf e l = (interfacesOf d l).filter keeps := by
  have distinct : ∀ c : Disk, (interfacesOf c l).Nodup := fun c =>
    (List.mergeSort_perm _ _).nodup_iff.2 (nodup_directoryNames c l)
  have perm : (interfacesOf e l).Perm ((interfacesOf d l).filter keeps) := by
    refine (List.perm_ext_iff_of_nodup (distinct e) ((distinct d).filter _)).2 fun i => ?_
    rw [List.mem_filter, mem_interfacesOf, mem_interfacesOf, kept]
  refine perm.eq_of_pairwise ?_ (sorted_interfacesOf e l) ((sorted_interfacesOf d l).filter _)
  intro x y _ _ before after
  refine Std.LawfulEqOrd.eq_of_compare ?_
  have turned : compare y x = (compare x y).swap := Std.OrientedCmp.eq_swap
  rw [turned] at after
  cases same : compare x y with
  | eq => rfl
  | lt => simp [same] at after
  | gt => simp [same] at before

/-! ## Blocks -/

/-- The blocks of a partition in a range. -/
def refsOf (d : Disk) (range : TimeRange) (i : String) (x : Timestamp × Path) : List BlockRef :=
  if range.overlapsDay x.1 then
    ((d.indexOf x.2).filter fun y => range.contains y.time).map fun y => ⟨i, x.2, y⟩
  else []

/-- The blocks of all interfaces in a range. -/
def blocksAt (a : Archive) (d : Disk) (l : Location) (range : TimeRange) : List BlockRef :=
  (interfacesOf d l).flatMap fun i => (a.partitionsOf d l i).flatMap (refsOf d range i)

theorem runOn_partitionBlocks (d : Disk) (range : TimeRange) (i : String) (x : Timestamp × Path) :
    (partitionBlocks i range x).runOn d = (.ok (refsOf d range i x), d) := by
  unfold partitionBlocks refsOf
  split
  · rw [Action.runOn_bind_of_ok (runOn_readIndex x.2 d)]
    rfl
  · rfl

theorem runOn_interfaceBlocks (leads : d.LeadsTo a.root l) (name : IsName i)
    (fine : Disk.joinFault? a.root i = none) (there : d.at? (l ++ [i]) = some .directory) (range : TimeRange) :
    (a.interfaceBlocks range i).runOn d = (.ok ((a.partitionsOf d l i).flatMap (refsOf d range i)), d) := by
  have found : (a.partitions i).runOn d = (.ok (a.partitionsOf d l i), d) :=
    runOn_partitions (Disk.list_join_ok leads name fine there)
  have each := Action.runOn_forEach (l := a.partitionsOf d l i) fun x _ => runOn_partitionBlocks d range i x
  rw [interfaceBlocks, Action.runOn_bind_of_ok found, Action.runOn_bind_of_ok each]
  rfl

/-- Which blocks a query for all interfaces selects. -/
theorem runOn_blocksInRange (leads : d.LeadsTo a.root l) (listed : d.list a.root = .ok (d.children l))
    (are : ∀ i, d.at? (l ++ [i]) = some .directory → IsName i ∧ Disk.joinFault? a.root i = none) (range : TimeRange) :
    (a.blocksInRange .any range).runOn d = (.ok (a.blocksAt d l range), d) := by
  have asked : (Action.ask (.list a.root)).runOn d = (.ok (d.children l), d) :=
    Action.runOn_ask_ok_iff.2 (Prod.ext listed rfl)
  have found : (a.chosen .any).runOn d = (.ok (interfacesOf d l), d) := by
    rw [chosen, interfaceNames, Action.runOn_bind_of_ok asked]
    rfl
  have each : (Action.forEach (a.interfaceBlocks range) (interfacesOf d l)).runOn d =
      (.ok ((interfacesOf d l).map fun i => (a.partitionsOf d l i).flatMap (refsOf d range i)), d) := by
    refine Action.runOn_forEach fun i member => ?_
    have there := mem_interfacesOf.1 member
    exact runOn_interfaceBlocks leads (are i there).1 (are i there).2 there range
  rw [blocksInRange, Action.runOn_bind_of_ok found, Action.runOn_bind_of_ok each]
  rfl

end Archive

end FlowArchive
