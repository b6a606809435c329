import FlowArchive.Archive.Cleaning
import FlowArchive.Proofs.Agreement
import FlowArchive.Proofs.Listing
import FlowArchive.Proofs.Reading
import Mathlib.Data.List.Induction

/-!
# What a sweep removes

A sweep goes through the directories of an archive and takes away the partitions of earlier days, and the
directories of interfaces that hold nothing else. Whether an entry goes is decided on the disk that the sweep
began with, since what was removed before lies elsewhere.
-/

namespace FlowArchive

open FlowArchive.Path (IsName)
open Disk (snoc_ne_nil Within Loses)

/-! ## Actions that only take away -/

namespace Action

variable {α β : Type}

/-- An action only takes things away from a disk. -/
def Shrinks (t : Action α) : Prop := ∀ d, Within (t.runOn d).2 d

theorem Reads.shrinks {t : Action α} (reads : t.Reads) : t.Shrinks := by
  intro d
  rw [reads d]
  exact .refl d

theorem Shrinks.within {t : Action α} (shrinks : t.Shrinks) {outcome : Except Failure α} {d e : Disk}
    (ran : t.runOn d = (outcome, e)) : Within e d := by
  have smaller := shrinks d
  rwa [ran] at smaller

theorem shrinks_bind {t : Action α} {f : α → Action β} (first : t.Shrinks) (rest : ∀ a, (f a).Shrinks) :
    (t >>= f).Shrinks := by
  intro d
  have before := first d
  rw [runOn_bind]
  cases run : t.runOn d with
  | mk outcome e =>
    rw [run] at before
    cases outcome with
    | error x => exact before
    | ok a => exact (rest a e).trans before

theorem shrinks_forEach {f : α → Action β} (each : ∀ a, (f a).Shrinks) (l : List α) : (forEach f l).Shrinks := by
  induction l with
  | nil => exact (reads_pure []).shrinks
  | cons a rest ih =>
    exact shrinks_bind (each a) fun b => shrinks_bind ih fun bs => (reads_pure (b :: bs)).shrinks

theorem shrinks_removeTree (p : Path) : (ask (.removeTree p)).Shrinks := by
  intro d
  rw [runOn_ask]
  exact Disk.removeTree_within d p

end Action

/-! ## Stale partitions -/

namespace Archive

def isEarlier (day : Timestamp) (n : String) : Bool := (partitionDay? n).any fun t => decide (t < day)

def isStale (day : Timestamp) (x : String × EntryKind) : Bool := x.2 == .directory && isEarlier day x.1

/-- Whether an entry of an interface's directory is a partition that stays. -/
def isRetained (day : Timestamp) (x : String × EntryKind) : Bool :=
  x.2 == .directory && (partitionDay? x.1).isSome && !isEarlier day x.1

end Archive

namespace Disk

open Archive (isEarlier isStale)

variable {day : Timestamp} {c d e : Disk} {l m : Location} {i n : String}

/-- A directory in the directory of an interface is the partition of an earlier day. -/
def IsStale (d : Disk) (l : Location) (day : Timestamp) (i n : String) : Prop :=
  d.at? (l ++ [i, n]) = some .directory ∧ isEarlier day n = true

/-- The directory of an interface holds nothing but partitions of earlier days. -/
def IsAllStale (d : Disk) (l : Location) (day : Timestamp) (i : String) : Prop :=
  d.at? (l ++ [i]) = some .directory ∧ ∀ n, d.at? (l ++ [i, n]) ≠ none → d.IsStale l day i n

/-- The sweep of an interface takes away what is at a location. -/
def IsSwept (d : Disk) (l : Location) (day : Timestamp) (i : String) (m : Location) : Prop :=
  (∃ n, d.IsStale l day i n ∧ l ++ [i, n] <+: m) ∨ d.IsAllStale l day i ∧ m = l ++ [i]

/-- What stands somewhere in a tree stands in something. -/
theorem IsTree.present (tree : d.IsTree l) (rest : List String) (there : d.at? (l ++ m ++ rest) ≠ none) :
    d.at? (l ++ m) ≠ none := by
  induction rest using List.reverseRecOn with
  | nil => simpa using there
  | append_singleton front x ih =>
    refine ih ?_
    have parent := (tree (m ++ front) x (by simpa using there)).2
    rw [List.append_assoc, parent]
    simp

theorem exists_child (there : d.at? (l ++ [i, n]) ≠ none) : ∃ k, (n, k) ∈ d.children (l ++ [i]) := by
  obtain ⟨entry, found⟩ := Option.ne_none_iff_exists'.1 there
  exact ⟨entry.kind, mem_children.2 ⟨entry, by simpa using found, rfl⟩⟩

theorem isStale_child {x : String × EntryKind} (child : x ∈ d.children (l ++ [i])) :
    isStale day x = true ↔ d.IsStale l day i x.1 := by
  obtain ⟨n, k⟩ := x
  obtain ⟨entry, found, rfl⟩ := mem_children.1 child
  rw [← List.append_cons] at found
  rw [IsStale, found]
  cases entry <;> simp [isStale, Entry.kind]

/-- Whether only partitions of earlier days are in a directory can be told from its entries. -/
theorem forall_isStale_iff {es : List (String × EntryKind)} (all : ∀ x, x ∈ es ↔ x ∈ d.children (l ++ [i])) :
    (∀ x ∈ es, isStale day x = true) ↔ ∀ n, d.at? (l ++ [i, n]) ≠ none → d.IsStale l day i n := by
  constructor
  · intro stale n there
    obtain ⟨k, child⟩ := exists_child there
    exact (isStale_child child).1 (stale _ ((all _).2 child))
  · rintro stale ⟨n, k⟩ member
    have child := (all _).1 member
    obtain ⟨entry, found, -⟩ := mem_children.1 child
    refine (isStale_child child).2 (stale n ?_)
    rw [List.append_cons, found]
    simp

theorem exists_isStale_iff {es : List (String × EntryKind)} (all : ∀ x, x ∈ es ↔ x ∈ d.children (l ++ [i])) :
    (∃ x ∈ es, isStale day x = true ∧ l ++ [i, x.1] <+: m) ↔ ∃ n, d.IsStale l day i n ∧ l ++ [i, n] <+: m := by
  constructor
  · rintro ⟨x, member, stale, below⟩
    exact ⟨x.1, (isStale_child ((all x).1 member)).1 stale, below⟩
  · rintro ⟨n, stale, below⟩
    obtain ⟨k, child⟩ := exists_child (by rw [stale.1]; simp)
    exact ⟨(n, k), (all _).2 child, (isStale_child child).2 stale, below⟩

/-- What is in a directory is in no other one beside it. -/
theorem eq_of_below {j : String} {rest : List String} (below : l ++ [i] <+: l ++ j :: rest) : i = j := by
  have inside := (List.prefix_append_right_inj l).1 below
  exact (List.cons_prefix_cons.1 inside).1

/-- What is swept is in the directory of the interface, which is there. -/
theorem IsSwept.below (swept : d.IsSwept l day i m) : l ++ [i] <+: m := by
  rcases swept with ⟨n, -, below⟩ | ⟨-, rfl⟩
  · exact (List.prefix_append_right_inj l).2 (by simp) |>.trans below
  · exact List.prefix_rfl

theorem IsSwept.directory (swept : d.IsSwept l day i m) (tree : d.IsTree l) : d.at? (l ++ [i]) = some .directory := by
  rcases swept with ⟨n, stale, -⟩ | ⟨allStale, -⟩
  · exact tree.parent (by rw [stale.1]; simp)
  · exact allStale.1

/-- Whether something is swept depends on the directory of the interface alone. -/
theorem isSwept_congr (here : e.at? (l ++ [i]) = some .directory ↔ d.at? (l ++ [i]) = some .directory)
    (same : ∀ n, e.at? (l ++ [i, n]) = d.at? (l ++ [i, n])) : e.IsSwept l day i m ↔ d.IsSwept l day i m := by
  have stale : ∀ n, e.IsStale l day i n ↔ d.IsStale l day i n := fun n => by rw [IsStale, IsStale, same]
  have allStale : e.IsAllStale l day i ↔ d.IsAllStale l day i := by
    rw [IsAllStale, IsAllStale, here]
    refine and_congr_right fun _ => forall_congr' fun n => ?_
    rw [same, stale]
  rw [IsSwept, IsSwept, allStale]
  simp only [stale]

/-- What is below a directory that holds nothing but partitions of earlier days is swept with it. -/
theorem IsTree.isSwept_iff (tree : d.IsTree l) (there : d.at? m ≠ none) (allStale : d.IsAllStale l day i) :
    d.IsSwept l day i m ↔ l ++ [i] <+: m := by
  constructor
  · exact IsSwept.below
  · rintro ⟨rest, rfl⟩
    cases rest with
    | nil => exact .inr ⟨allStale, by simp⟩
    | cons n rest =>
      have parts : l ++ [i] ++ n :: rest = l ++ [i, n] ++ rest := by simp
      refine .inl ⟨n, allStale.2 n (tree.present rest (parts ▸ there)), ?_⟩
      rw [parts]
      exact List.prefix_append _ _

/-- What is in a partition is swept with the partition. -/
theorem exists_isSwept_iff {rest : List String} :
    (∃ j, d.IsSwept l day j (l ++ i :: n :: rest)) ↔ d.IsStale l day i n := by
  constructor
  · rintro ⟨j, ⟨p, stale, below⟩ | ⟨-, here⟩⟩
    · simp only [List.prefix_append_right_inj, List.cons_prefix_cons, List.nil_prefix, and_true] at below
      rwa [← below.1, ← below.2]
    · simp at here
  · intro stale
    exact ⟨i, .inl ⟨n, stale, by simp⟩⟩

theorem exists_isSwept_interface_iff : (∃ j, d.IsSwept l day j (l ++ [i])) ↔ d.IsAllStale l day i := by
  constructor
  · rintro ⟨j, ⟨p, -, below⟩ | ⟨allStale, here⟩⟩
    · simp [List.cons_prefix_cons] at below
    · obtain rfl := (snoc_inj.1 here).2
      exact allStale
  · exact fun allStale => ⟨i, .inr ⟨allStale, rfl⟩⟩

theorem IsSwept.snoc {x : String} (swept : d.IsSwept l day i m) (there : d.at? (m ++ [x]) ≠ none) :
    d.IsSwept l day i (m ++ [x]) := by
  rcases swept with ⟨n, stale, below⟩ | ⟨allStale, rfl⟩
  · exact .inl ⟨n, stale, below.trans (List.prefix_append _ _)⟩
  · rw [← List.append_cons] at there ⊢
    exact .inl ⟨x, allStale.2 x there, List.prefix_rfl⟩

end Disk

namespace Archive

variable {a : Archive} {day : Timestamp} {c d e : Disk} {l m : Location} {i n : String} {s s' : Sweep}

theorem sweepEntry_shrinks (day : Timestamp) (s : Sweep) (x : StoreEntry) : (sweepEntry day s x).Shrinks := by
  cases x with
  | file name => exact (Action.reads_pure _).shrinks
  | foreign name => exact (Action.reads_pure _).shrinks
  | partition t path =>
    refine Action.shrinks_bind (Action.Reads.shrinks fun d => by rw [runOn_readIndex]) fun ds => ?_
    split
    · exact Action.shrinks_bind (Action.shrinks_removeTree path) fun _ => (Action.reads_pure _).shrinks
    · exact (Action.reads_pure _).shrinks

theorem sweepEntries_shrinks (day : Timestamp) (s : Sweep) (es : List StoreEntry) :
    (sweepEntries day s es).Shrinks := by
  induction es generalizing s with
  | nil => exact (Action.reads_pure s).shrinks
  | cons x rest ih => exact Action.shrinks_bind (sweepEntry_shrinks day s x) ih

theorem sweepInterface_shrinks (a : Archive) (day : Timestamp) (i : String) : (a.sweepInterface day i).Shrinks := by
  refine Action.shrinks_bind (reads_entries a i).shrinks fun es => ?_
  refine Action.shrinks_bind (sweepEntries_shrinks day .start es) fun s => ?_
  split
  · exact Action.shrinks_bind (Action.shrinks_removeTree _) fun _ => (Action.reads_pure _).shrinks
  · exact Action.shrinks_bind (Action.reads_pure ()).shrinks fun _ => (Action.reads_pure _).shrinks

/-! ## One entry -/

/-- What the sweep of one entry does: a partition of an earlier day goes, anything else stays. -/
theorem sweepEntry_ok {x : String × EntryKind}
    (swept : (sweepEntry day s (a.classify i x)).runOn c = (.ok s', e)) :
    (isStale day x = true ∧ c.removeTree ((a.interfacePath i).join x.1) = (.ok (), e) ∧
        s' = s.remove (c.indexOf ((a.interfacePath i).join x.1))) ∨
      (isStale day x = false ∧ e = c ∧
        s' = if isRetained day x then s.retain (c.indexOf ((a.interfacePath i).join x.1)) else s.keep) := by
  obtain ⟨name, k⟩ := x
  cases k with
  | file =>
    cases swept
    exact .inr ⟨rfl, rfl, rfl⟩
  | directory =>
    cases found : partitionDay? name with
    | none =>
      simp only [classify, found, sweepEntry] at swept
      cases swept
      exact .inr ⟨by simp [isStale, isEarlier, found], rfl, by simp [isRetained, found]⟩
    | some t =>
      simp only [classify, found, sweepEntry] at swept
      rw [Action.runOn_bind_of_ok (runOn_readIndex _ c)] at swept
      by_cases early : t < day
      · rw [if_pos early] at swept
        obtain ⟨⟨⟩, c', removed, last⟩ := Action.runOn_bind_ok_iff.1 swept
        cases last
        exact .inl ⟨by simp [isStale, isEarlier, found, early], Action.runOn_ask_ok_iff.1 removed, rfl⟩
      · rw [if_neg early] at swept
        cases swept
        exact .inr ⟨by simp [isStale, isEarlier, found, early], rfl, by simp [isRetained, isEarlier, found, early]⟩

/-! ## The entries of an interface -/

/-- The blocks that the indexes of some partitions of an interface list. -/
def blocksOf (a : Archive) (d : Disk) (i : String) (names : List String) : List Descriptor :=
  names.flatMap fun n => d.indexOf ((a.interfacePath i).join n)

@[simp] theorem blocksOf_nil (a : Archive) (d : Disk) (i : String) : a.blocksOf d i [] = [] := rfl

@[simp] theorem blocksOf_cons (a : Archive) (d : Disk) (i n : String) (names : List String) :
    a.blocksOf d i (n :: names) = d.indexOf ((a.interfacePath i).join n) ++ a.blocksOf d i names := rfl

/-- Where disks agree on the way to an index, it lists the same blocks. -/
theorem indexOf_congr (leads : d.LeadsTo a.root l) (also : e.LeadsTo a.root l) (name : IsName i) (name' : IsName n)
    (same : ∀ k, k <+: [i, n, indexName] → e.at? (l ++ k) = d.at? (l ++ k)) :
    e.indexOf ((a.interfacePath i).join n) = d.indexOf ((a.interfacePath i).join n) := by
  have path : indexPath ((a.interfacePath i).join n) = Disk.joins a.root [i, n, indexName] := rfl
  have are : ∀ x ∈ [i, n, indexName], IsName x := by
    simp only [List.forall_mem_cons, List.not_mem_nil, false_implies, implies_true, and_true]
    exact ⟨name, name', isName_index⟩
  have found := Disk.read_congr (Disk.find_joins_congr leads also are same)
  rw [Disk.indexOf, Disk.indexOf, path, found]

theorem blocksOf_congr (leads : d.LeadsTo a.root l) (also : e.LeadsTo a.root l) (name : IsName i)
    {names : List String} (are : ∀ n ∈ names, IsName n)
    (same : ∀ n ∈ names, ∀ k, k <+: [i, n, indexName] → e.at? (l ++ k) = d.at? (l ++ k)) :
    a.blocksOf e i names = a.blocksOf d i names :=
  List.flatMap_congr fun n member => indexOf_congr leads also name (are n member) (same n member)

/-- What is below one partition is not on the way to the index of another. -/
theorem index_apart {x y : String} (apart : x ≠ y) {k : List String} (front : k <+: [i, y, indexName]) :
    ¬ l ++ [i, x] <+: l ++ k := by
  intro below
  have inside := ((List.prefix_append_right_inj l).1 below).trans front
  simp only [List.cons_prefix_cons] at inside
  exact apart inside.2.1

/-- A partition that is removed takes its own blocks away, and the interface stays where it is. -/
theorem removePartition_ok (leads : c.LeadsTo a.root l) (inside : c.LeadsTo (a.interfacePath i) (l ++ [i]))
    (name : IsName i) (name' : IsName n) (after : e.LeadsTo a.root l)
    (removed : c.removeTree ((a.interfacePath i).join n) = (.ok (), e)) :
    Disk.joinFault? (a.interfacePath i) n = none ∧ Loses c e (fun m => l ++ [i, n] <+: m) ∧
      e.LeadsTo (a.interfacePath i) (l ++ [i]) := by
  have walked := after.walk_join name (inside.of_join leads name).2
  obtain ⟨fine, -, loses⟩ := Disk.removeTree_join inside name' removed walked
  rw [← List.append_cons] at loses
  refine ⟨fine, loses, walked, ?_⟩
  rw [loses.rest]
  · exact inside.directory
  · intro below
    have longer := below.length_le
    simp at longer

/-- Without one partition, the indexes of the others list the same blocks. -/
theorem blocksOf_apart (loses : Loses c e fun m => l ++ [i, n] <+: m) (leads : c.LeadsTo a.root l)
    (after : e.LeadsTo a.root l) (name : IsName i) {names : List String} (are : ∀ y ∈ names, IsName y)
    (unseen : n ∉ names) : a.blocksOf e i names = a.blocksOf c i names := by
  refine blocksOf_congr leads after name are fun y member k front => loses.rest _ ?_
  have apart : n ≠ y := fun same => unseen (same ▸ member)
  exact index_apart apart front

/-- A sweep of the entries of an interface takes away the partitions of earlier days, and counts the blocks that
their indexes list apart from those of the partitions that stay. -/
theorem sweepEntries_ok (name : IsName i) {es : List (String × EntryKind)} (distinct : (es.map (·.1)).Nodup)
    (names : ∀ x ∈ es, IsName x.1) (leads : c.LeadsTo a.root l) (inside : c.LeadsTo (a.interfacePath i) (l ++ [i]))
    (after : e.LeadsTo a.root l)
    (swept : (sweepEntries day s (es.map (a.classify i))).runOn c = (.ok s', e)) :
    Loses c e (fun m => ∃ x ∈ es, isStale day x = true ∧ l ++ [i, x.1] <+: m) ∧
      (s'.allStale = true ↔ s.allStale = true ∧ ∀ x ∈ es, isStale day x = true) ∧
      (∀ x ∈ es, isStale day x = true → Disk.joinFault? (a.interfacePath i) x.1 = none) ∧
      ∀ gone rest, s.Counts gone rest → s'.Counts
        (gone ++ a.blocksOf c i ((es.filter (isStale day)).map (·.1)))
        (rest ++ a.blocksOf c i ((es.filter (isRetained day)).map (·.1))) := by
  induction es generalizing c s with
  | nil =>
    cases swept
    exact ⟨(Loses.refl e).congr fun m _ => by simp, by simp, by simp, fun gone rest counts => by simpa using counts⟩
  | cons x others ih =>
    obtain ⟨t, c', one, more⟩ := Action.runOn_bind_ok_iff.1 swept
    obtain ⟨unseen, distinct⟩ := List.nodup_cons.1 distinct
    have names' : ∀ y ∈ others, IsName y.1 := fun y later => names y (List.mem_cons_of_mem _ later)
    -- The root is still there at the end, so it was there in between.
    have leads' : c'.LeadsTo a.root l := after.mono ((sweepEntries_shrinks day t _).within more).keepsDirectories
    rcases sweepEntry_ok one with ⟨stale, removed, rfl⟩ | ⟨fresh, rfl, rfl⟩
    · obtain ⟨fine, loses, inside'⟩ := removePartition_ok leads inside name (names x List.mem_cons_self) leads' removed
      have blocks : ∀ p : String × EntryKind → Bool, a.blocksOf c' i ((others.filter p).map (·.1)) =
          a.blocksOf c i ((others.filter p).map (·.1)) := by
        intro p
        have listed : (others.filter p).map (·.1) ⊆ others.map (·.1) := List.map_subset _ List.filter_sublist.subset
        refine blocksOf_apart loses leads leads' name (fun y member => ?_) fun seen => unseen (listed seen)
        obtain ⟨z, later, rfl⟩ := List.mem_map.1 (listed member)
        exact names' z later
      obtain ⟨losesMore, allStale, fineMore, counted⟩ := ih distinct names' leads' inside' more
      have fineAll := List.forall_mem_cons.2 ⟨fun _ => fine, fineMore⟩
      refine ⟨(loses.trans losesMore).congr fun m _ => ?_, ?_, fineAll, fun gone rest counts => ?_⟩
      · simp [stale]
      · rw [allStale]
        simp [Sweep.remove, stale]
      · have kept : isRetained day x = false := by
          simp only [isStale, Bool.and_eq_true] at stale
          simp [isRetained, stale.2]
        have all := counted _ _ (counts.remove (c.indexOf ((a.interfacePath i).join x.1)))
        rw [blocks, blocks] at all
        simpa [stale, kept] using all
    · obtain ⟨losesMore, allStale, fineMore, counted⟩ := ih distinct names' leads inside more
      have fineAll : ∀ y ∈ x :: others, isStale day y = true → Disk.joinFault? (a.interfacePath i) y.1 = none :=
        List.forall_mem_cons.2 ⟨fun stale => absurd stale (by simp [fresh]), fineMore⟩
      refine ⟨losesMore.congr fun m _ => ?_, ?_, fineAll, fun gone rest counts => ?_⟩
      · simp [fresh]
      · rw [allStale]
        cases isRetained day x <;> simp [Sweep.retain, Sweep.keep, fresh]
      · cases kept : isRetained day x with
        | true =>
          rw [kept, if_pos rfl] at counted
          simpa [fresh, kept] using counted _ _ (counts.retain (c'.indexOf ((a.interfacePath i).join x.1)))
        | false =>
          rw [kept] at counted
          simpa [fresh, kept] using counted _ _ counts.keep

/-! ## An interface -/

/-- The names of the partitions of earlier days, as a listing of their directory has them. -/
theorem map_filter_isStale (es : List (String × EntryKind)) (day : Timestamp) :
    (es.filter (isStale day)).map (·.1) =
      ((es.filter fun x => x.2 == .directory && (partitionDay? x.1).isSome).map (·.1)).filter (isEarlier day) := by
  rw [List.filter_map, List.filter_filter]
  refine congrArg _ (List.filter_congr fun x _ => ?_)
  cases found : partitionDay? x.1 <;> simp [isStale, isEarlier, found, Bool.and_comm]

theorem map_filter_isRetained (es : List (String × EntryKind)) (day : Timestamp) :
    (es.filter (isRetained day)).map (·.1) =
      ((es.filter fun x => x.2 == .directory && (partitionDay? x.1).isSome).map (·.1)).filter
        fun n => !isEarlier day n := by
  rw [List.filter_map, List.filter_filter]
  refine congrArg _ (List.filter_congr fun x _ => ?_)
  simp [isRetained, Bool.and_comm]

/-- The entries of an interface are what is found in its directory, sorted. -/
theorem entries_ok {found : List StoreEntry} (leads : d.LeadsTo a.root l) (name : IsName i)
    (listed : (a.entries i).runOn d = (.ok found, e)) :
    e = d ∧ Disk.joinFault? a.root i = none ∧ d.LeadsTo (a.interfacePath i) (l ++ [i]) ∧
      ∃ es : List (String × EntryKind), es.Perm (d.children (l ++ [i])) ∧ found = es.map (a.classify i) := by
  obtain ⟨es, c, asked, last⟩ := Action.runOn_bind_ok_iff.1 listed
  have answered := Action.runOn_ask_ok_iff.1 asked
  obtain rfl : d = c := congrArg Prod.snd answered
  cases last
  obtain ⟨fine, inside, rfl⟩ := Disk.list_join leads name (congrArg Prod.fst answered)
  refine ⟨rfl, fine, inside, (d.children (l ++ [i])).mergeSort fun x y => (a.classify i x).le (a.classify i y), ?_, ?_⟩
  · exact List.mergeSort_perm _ _
  · refine (List.map_mergeSort ?_).symm
    exact fun _ _ _ _ => rfl

/-- What the sweep of an interface reports: its name, what the partitions of earlier days held, and the earliest
block of the others. No path on the way was too long. -/
structure Reports (a : Archive) (d : Disk) (l : Location) (day : Timestamp) (i : String) (r : String × Sweep) :
    Prop where
  name : r.1 = i
  counts : r.2.Counts (a.blocksOf d i ((d.partitionNames l i).filter (isEarlier day)))
    (a.blocksOf d i ((d.partitionNames l i).filter fun n => !isEarlier day n))
  fine : Disk.joinFault? a.root i = none
  finePartition : ∀ n, d.IsStale l day i n → Disk.joinFault? (a.interfacePath i) n = none

/-- The sweep of an interface takes away its partitions of earlier days, and its directory if that held nothing
else. -/
theorem sweepInterface_ok {r : String × Sweep} (leads : c.LeadsTo a.root l) (after : e.LeadsTo a.root l)
    (tree : c.IsTree l) (name : IsName i) (swept : (a.sweepInterface day i).runOn c = (.ok r, e)) :
    Loses c e (c.IsSwept l day i) ∧ a.Reports c l day i r := by
  obtain ⟨entries, c', listing, rest⟩ := Action.runOn_bind_ok_iff.1 swept
  obtain ⟨rfl, fine, inside, es, sorted, rfl⟩ := entries_ok leads name listing
  obtain ⟨s, b, some, last⟩ := Action.runOn_bind_ok_iff.1 rest
  have all : ∀ x, x ∈ es ↔ x ∈ c'.children (l ++ [i]) := fun x => sorted.mem_iff
  have distinct : (es.map (·.1)).Nodup := (sorted.map _).nodup_iff.2 (Disk.nodup_children _ _)
  have names : ∀ x ∈ es, IsName x.1 := by
    intro x member
    obtain ⟨entry, there, -⟩ := Disk.mem_children.1 ((all x).1 member)
    exact (tree [i] x.1 (by rw [there]; simp)).1
  have parts := sorted.filter fun x => x.2 == .directory && (partitionDay? x.1).isSome
  have counted : ∀ t : Sweep, t.Counts (a.blocksOf c' i ((es.filter (isStale day)).map (·.1)))
        (a.blocksOf c' i ((es.filter (isRetained day)).map (·.1))) →
      t.Counts (a.blocksOf c' i ((c'.partitionNames l i).filter (isEarlier day)))
        (a.blocksOf c' i ((c'.partitionNames l i).filter fun n => !isEarlier day n)) := by
    intro t counts
    rw [map_filter_isStale, map_filter_isRetained] at counts
    exact counts.perm (((parts.map _).filter _).flatMap_right _) (((parts.map _).filter _).flatMap_right _)
  have reached : (∀ x ∈ es, isStale day x = true → Disk.joinFault? (a.interfacePath i) x.1 = none) →
      ∀ n, c'.IsStale l day i n → Disk.joinFault? (a.interfacePath i) n = none := by
    intro fine n stale
    obtain ⟨k, child⟩ := Disk.exists_child (d := c') (l := l) (i := i) (n := n) (by rw [stale.1]; simp)
    exact fine (n, k) ((all _).2 child) ((Disk.isStale_child child).2 stale)
  by_cases gone : s.allStale = true
  · rw [if_pos gone] at last
    obtain ⟨⟨⟩, e', removed, last⟩ := Action.runOn_bind_ok_iff.1 last
    cases last
    have after' := after.mono ((Action.shrinks_removeTree _).within removed).keepsDirectories
    obtain ⟨loses, allStale, fines, counts⟩ := sweepEntries_ok name distinct names leads inside after' some
    obtain ⟨-, -, whole⟩ := Disk.removeTree_join after' name (Action.runOn_ask_ok_iff.1 removed) after.walked
    have stale : c'.IsAllStale l day i :=
      ⟨inside.directory, (Disk.forall_isStale_iff all).1 (allStale.1 gone).2⟩
    refine ⟨(loses.trans whole).congr fun m there => ?_, rfl, counted _ (counts [] [] Sweep.start_counts), fine,
      reached fines⟩
    rw [tree.isSwept_iff there stale, or_iff_right_of_imp]
    rintro ⟨x, -, -, below⟩
    exact ((List.prefix_append_right_inj l).2 (by simp)).trans below
  · rw [if_neg gone] at last
    cases last
    obtain ⟨loses, allStale, fines, counts⟩ := sweepEntries_ok name distinct names leads inside after some
    refine ⟨loses.congr fun m there => ?_, rfl, counted _ (counts [] [] Sweep.start_counts), fine, reached fines⟩
    rw [Disk.exists_isStale_iff all, Disk.IsSwept, or_iff_left]
    rintro ⟨stale, -⟩
    exact gone (allStale.2 ⟨rfl, (Disk.forall_isStale_iff all).2 stale.2⟩)

end Archive

end FlowArchive
