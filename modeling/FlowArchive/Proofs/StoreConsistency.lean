import FlowArchive.Proofs.Bookkeeping
import FlowArchive.Proofs.BlockRoundTrip
import FlowArchive.Proofs.Progress

/-!
# What a store promises

Whatever is written, refused, cleaned and wiped on a new archive, in whatever order: no two entries of an interface
have one time, each entry stands in the partition of its day and has its file, and each file of a block has its entry.
All of this is read off the book. A file yields what was written, and a query has an answer, exactly when the sizes of
the blocks that are read fit the words of their headers. No write looks at these sizes, so a block can be written that
cannot be read.
-/

namespace FlowArchive

open FlowArchive.Path (IsName)

/-- A choice of interfaces has an interface among its own. -/
def Interfaces.Includes : Interfaces → String → Prop
  | .any, _ => True
  | .named names, i => i ∈ names

namespace Archive

variable {a : Archive} {token : LockToken} {c d e : Disk} {l : Location} {i n : String} {t : Timestamp}
  {x : Descriptor} {book : List Written} {w : Written} {range : TimeRange} {names : List String} {b : BlockRef}

/-! ## Entries -/

theorem Keeps.indexAt (keeps : a.Keeps l book d) (i n : String) : d.indexAt l i n = entriesOf book i n := by
  have read : d.indexAt l i n = (Index.readPrefix ((d.content? (l ++ [i, n, indexName])).getD [])).1 := by
    rw [Disk.indexAt]
    cases d.content? (l ++ [i, n, indexName]) with
    | none => rw [Option.getD_none, Index.readPrefix_nil]; rfl
    | some s => rfl
  rw [read, keeps.index, Index.readPrefix_write_nil]

theorem Keeps.mem_indexAt (keeps : a.Keeps l book d) :
    x ∈ d.indexAt l i n ↔ ∃ w ∈ book, w.IsIn i n ∧ w.descriptor = x := by
  rw [keeps.indexAt, mem_entriesOf]

/-- The times of the entries of a partition are different. -/
theorem Keeps.nodup_entries (keeps : a.Keeps l book d) (i n : String) :
    ((entriesOf book i n).map (·.time)).Nodup := by
  have times : (entriesOf book i n).map (·.time) = (book.filter fun w => decide (w.IsIn i n)).map (·.time) := by
    rw [entriesOf, List.map_map]
    rfl
  rw [times]
  refine List.Nodup.map_on ?_ ((List.Nodup.of_map _ keeps.distinct).filter _)
  intro w first v second same
  obtain ⟨member, ⟨rfl, -⟩⟩ : w ∈ book ∧ w.IsIn i n := by simpa using List.mem_filter.1 first
  obtain ⟨member', ⟨also, -⟩⟩ : v ∈ book ∧ v.IsIn w.interface n := by simpa using List.mem_filter.1 second
  exact List.inj_on_of_nodup_map keeps.distinct member member' (by rw [also, same])

/-- The times of the entries of an interface are different. -/
theorem Keeps.nodup_times (keeps : a.Keeps l book d) (i : String) : ((d.listed l i).map (·.time)).Nodup := by
  rw [Disk.listed, List.map_flatMap, List.nodup_flatMap]
  refine ⟨fun n _ => ?_, (Disk.nodup_partitionNames d l i).imp fun different => ?_⟩
  · rw [keeps.indexAt]
    exact keeps.nodup_entries i n
  · intro t first second
    obtain ⟨x, listed, rfl⟩ := List.mem_map.1 first
    obtain ⟨y, listed', same⟩ := List.mem_map.1 second
    obtain ⟨w, -, ⟨-, rfl⟩, rfl⟩ := keeps.mem_indexAt.1 listed
    obtain ⟨v, -, ⟨-, rfl⟩, rfl⟩ := keeps.mem_indexAt.1 listed'
    have times : v.time = w.time := same
    exact different (by rw [Written.day, Written.day, times])

/-! ## Files of blocks -/

/-- A name ends as those of the files of blocks do. -/
def IsBlockName (x : String) : Prop := ∃ s, x = s ++ "." ++ blockExtension

theorem IsBlockName.ending {x : String} (named : IsBlockName x) : x.toList.reverse.take 3 = ['k', 'l', 'b'] := by
  obtain ⟨s, rfl⟩ := named
  have letters : blockExtension.toList = ['b', 'l', 'k'] := by decide +kernel
  simp [letters]

theorem not_isBlockName_index : ¬ IsBlockName indexName := fun named => absurd named.ending (by decide +kernel)

theorem not_isBlockName_ledger {y : String} (listed : y ∈ ledgerNames) : ¬ IsBlockName y := by
  intro named
  have ending := named.ending
  rcases mem_ledgerNames.1 listed with rfl | rfl | rfl
  · exact absurd ending (by decide +kernel)
  · exact absurd ending (by decide +kernel)
  · exact absurd ending (by decide +kernel)

/-- Every file of a block below an archive is that of a block in the book. -/
theorem Keeps.blockFile (keeps : a.Keeps l book d) {place : List String} {y : String} {s : Bytes}
    (there : d.at? (l ++ place ++ [y]) = some (.file s)) (named : IsBlockName y) :
    ∃ w ∈ book, place = [w.interface, partitionName w.day] ∧ y = blockName w.time := by
  match place with
  | [] =>
    rw [List.append_nil] at there
    exact absurd named (not_isBlockName_ledger (keeps.file y s there))
  | [i] =>
    have here : l ++ [i] ++ [y] = l ++ i :: y :: [] := by simp
    rw [here] at there
    obtain ⟨w, member, ⟨rfl, rfl⟩, -⟩ := keeps.inside i y [] (by rw [there]; simp)
    rw [keeps.partition member] at there
    cases there
  | i :: n :: rest =>
    have here : l ++ i :: n :: rest ++ [y] = l ++ i :: n :: (rest ++ [y]) := by simp
    rw [here] at there
    obtain ⟨w, member, ⟨rfl, rfl⟩, none | index | block⟩ := keeps.inside i n (rest ++ [y]) (by rw [there]; simp)
    · simp at none
    · obtain ⟨-, rfl⟩ := Disk.snoc_inj.1 (show rest ++ [y] = [] ++ [indexName] from index)
      exact absurd named not_isBlockName_index
    · obtain ⟨rfl, rfl⟩ := Disk.snoc_inj.1 (show rest ++ [y] = [] ++ [blockName w.time] from block)
      exact ⟨w, member, rfl, rfl⟩

/-! ## Queries -/

/-- The directory of an interface can be reached by its name. -/
theorem Keeps.interfacePath (keeps : a.Keeps l book d) (there : d.at? (l ++ [i]) = some .directory) :
    IsName i ∧ Disk.joinFault? a.root i = none := by
  obtain ⟨w, member, rfl⟩ := keeps.interface i there
  have readable := keeps.readable w member
  have name := keeps.tree.isName there
  refine ⟨name, Disk.joinFault?_of_join name (isName_partition w.day) readable.short ?_⟩
  exact Disk.joinFault?_of_join (isName_partition w.day) isName_index readable.short' readable.fine

/-- A block of the book, as a query selects it. -/
def Written.ref (a : Archive) (w : Written) : BlockRef :=
  ⟨w.interface, a.partitionPath w.interface w.time, w.descriptor⟩

/-- What is selected of an interface are its blocks in the book. -/
theorem Keeps.mem_blocksOn (keeps : a.Keeps l book d) (there : d.at? (l ++ [i]) = some .directory) :
    b ∈ a.blocksOn d l range i ↔ ∃ w ∈ book, w.interface = i ∧ range.contains w.time = true ∧ b = w.ref a := by
  have name := keeps.tree.isName there
  rw [Archive.mem_blocksOn]
  constructor
  · rintro ⟨u, x, -, -, listed, inside, rfl⟩
    have entered := indexOf_subset keeps.leads name (isName_partition u) listed
    obtain ⟨w, member, ⟨rfl, same⟩, rfl⟩ := keeps.mem_indexAt.1 entered
    obtain rfl : w.day = u := partitionName_inj same
    exact ⟨w, member, rfl, inside, rfl⟩
  · rintro ⟨w, member, rfl, inside, rfl⟩
    have readable := keeps.readable w member
    refine ⟨w.day, w.descriptor, keeps.partition member, TimeRange.overlapsDay_of_contains inside, ?_, inside, rfl⟩
    rw [indexOf_eq_indexAt keeps.leads keeps.tree name (isName_partition w.day) fun _ => readable]
    exact keeps.mem_indexAt.2 ⟨w, member, ⟨rfl, rfl⟩, rfl⟩

/-- The directory of the interface of a block is there. -/
theorem Keeps.directory (keeps : a.Keeps l book d) (member : w ∈ book) :
    d.at? (l ++ [w.interface]) = some .directory := by
  refine keeps.tree.parent (y := partitionName w.day) ?_
  rw [keeps.partition member]
  simp

/-- What is read of a block of the book is what was written. -/
theorem Keeps.flowsOf_ref (keeps : a.Keeps l book d) (member : w ∈ book) :
    d.flowsOf (w.ref a) = (Block.decode (Block.encode w.flows)).mapError .block := by
  have readable := keeps.readable w member
  have name := keeps.tree.isName (keeps.directory member)
  obtain ⟨-, inside⟩ := leadsTo_partitionPath keeps.leads keeps.tree name readable.short readable.short'
    (keeps.partition member)
  have place : l ++ [w.interface, partitionName w.time.startOfDay] ++ [blockName w.time] =
      blockPlace l w.interface w.time := by simp [blockPlace]
  have read : d.read (w.ref a).path = .ok (Block.encode w.flows) :=
    Disk.read_join inside (isName_block w.time) (keeps.fine w member) (place ▸ keeps.block w member)
  rw [Disk.flowsOf, read]

/-- A block of the book can be read if and only if its sizes fit. -/
theorem Keeps.readable_iff (keeps : a.Keeps l book d) (member : w ∈ book) :
    (∃ fs, d.flowsOf (w.ref a) = .ok fs) ↔ Block.SizesFit w.flows := by
  rw [keeps.flowsOf_ref member]
  constructor
  · rintro ⟨fs, read⟩
    cases decoded : Block.decode (Block.encode w.flows) with
    | ok gs => exact Block.sizesFit_of_decode decoded
    | error f =>
      rw [decoded] at read
      cases read
  · intro fits
    exact ⟨w.flows, by rw [Block.decode_encode fits]; rfl⟩

theorem list_root (leads : d.LeadsTo a.root l) (present : (a.checkExists.runOn d).1 = .ok ()) :
    d.list a.root = .ok (d.children l) := by
  have found : d.kind a.root = some .directory := by
    unfold checkExists at present
    split at present
    · cases present
    · rw [Action.runOn_bind_of_ok (Action.runOn_kind a.root d)] at present
      cases kind : d.kind a.root with
      | none => simp [kind] at present
      | some k =>
        cases k with
        | directory => rfl
        | file => simp [kind] at present
  cases located : d.find a.root with
  | error f => simp [Disk.kind, located] at found
  | ok place =>
    obtain ⟨m, entry⟩ := place
    obtain ⟨text, walked, rfl⟩ := Disk.find_eq_ok.1 located
    obtain rfl : m = l := by
      have same := walked.symm.trans leads.walked
      cases same
      rfl
    rw [Disk.list, located, leads.directory]

/-- The choice of a query names no interface that is not there. -/
def Chooses (d : Disk) (l : Location) : Interfaces → Prop
  | .any => True
  | .named names => ∀ i ∈ names, d.at? (l ++ [i]) = some .directory

/-- A choice of interfaces that are there selects the blocks of the book that are in range. -/
theorem Keeps.selected {choice : Interfaces} (keeps : a.Keeps l book d)
    (present : (a.checkExists.runOn d).1 = .ok ()) (chooses : Chooses d l choice) (range : TimeRange) :
    ∃ bs, (a.blocksInRange choice range).runOn d = (.ok bs, d) ∧ ∀ b, b ∈ bs ↔
      ∃ w ∈ book, (choice.Includes w.interface ∧ range.contains w.time = true) ∧ b = w.ref a := by
  cases choice with
  | any =>
    refine ⟨_, runOn_blocksInRange keeps.leads (list_root keeps.leads present) (fun i => keeps.interfacePath) range, ?_⟩
    intro b
    constructor
    · intro listed
      obtain ⟨i, interface, selected⟩ := List.mem_flatMap.1 listed
      obtain ⟨w, member, -, inside, rfl⟩ := (keeps.mem_blocksOn (mem_interfacesOf.1 interface)).1 selected
      exact ⟨w, member, ⟨trivial, inside⟩, rfl⟩
    · rintro ⟨w, member, ⟨-, inside⟩, rfl⟩
      have there := keeps.directory member
      exact List.mem_flatMap.2 ⟨w.interface, mem_interfacesOf.2 there,
        (keeps.mem_blocksOn there).2 ⟨w, member, rfl, inside, rfl⟩⟩
  | named names =>
    refine ⟨_, runOn_named keeps.leads (fun i named => keeps.interfacePath (chooses i named))
      (fun i named => mem_interfacesOf.2 (chooses i named)) range, ?_⟩
    intro b
    constructor
    · intro listed
      obtain ⟨i, named, selected⟩ := List.mem_flatMap.1 listed
      obtain ⟨w, member, rfl, inside, rfl⟩ := (keeps.mem_blocksOn (chooses i named)).1 selected
      exact ⟨w, member, ⟨named, inside⟩, rfl⟩
    · rintro ⟨w, member, ⟨named, inside⟩, rfl⟩
      exact List.mem_flatMap.2 ⟨w.interface, named,
        (keeps.mem_blocksOn (keeps.directory member)).2 ⟨w, member, rfl, inside, rfl⟩⟩

/-- A query whose arguments are fine has an answer if and only if its blocks can all be read. -/
theorem query_ok_iff {hosts : Resolver} {q : Query} {p : Predicate} {bs : List BlockRef}
    (present : (a.checkExists.runOn d).1 = .ok ()) (valid : q.validate = .ok ())
    (compiled : Predicate.ofText hosts q.condition = .ok p)
    (selected : ((a.blocksInRange q.interfaces q.range).runOn d).1 = .ok bs) :
    (∃ r, (a.query hosts q).runOn d = (.ok r, d)) ↔ ∀ b ∈ bs, ∃ fs, d.flowsOf b = .ok fs := by
  constructor
  · rintro ⟨r, answered⟩ b member
    cases flows : d.flowsOf b with
    | ok fs => exact ⟨fs, rfl⟩
    | error f =>
      obtain ⟨b', -, f', -, failed⟩ := query_of_unreadable present valid compiled selected ⟨b, member, f, flows⟩
      rw [answered] at failed
      cases failed
  · intro decoded
    obtain ⟨blocks, -, outcomes⟩ := outcomes_eq compiled decoded
    obtain ⟨m, -, collected⟩ := Pipeline.collectFrom_ok Merger.start_holds blocks
    rw [runOn_query present valid compiled selected, outcomes, Pipeline.collect, collected, Merger.finish]
    split
    · exact ⟨_, rfl⟩
    · exact ⟨_, rfl⟩

/-- A block is one of those that a query reads. -/
def Written.IsReadBy (w : Written) (q : Query) : Prop :=
  q.interfaces.Includes w.interface ∧ q.range.contains w.time = true

/-- A query that reads a block of the book whose sizes do not fit fails. -/
theorem Keeps.query_of_large {hosts : Resolver} {q : Query} {p : Predicate} (keeps : a.Keeps l book d)
    (present : (a.checkExists.runOn d).1 = .ok ()) (valid : q.validate = .ok ())
    (compiled : Predicate.ofText hosts q.condition = .ok p) (chooses : Chooses d l q.interfaces) (member : w ∈ book)
    (read : w.IsReadBy q) (large : ¬ Block.SizesFit w.flows) :
    ∃ text, (a.query hosts q).runOn d = (.error (.scan text), d) := by
  obtain ⟨bs, selected, written⟩ := keeps.selected present chooses q.range
  have unreadable : ∃ f, d.flowsOf (w.ref a) = .error f := by
    cases flows : d.flowsOf (w.ref a) with
    | ok fs => exact absurd ((keeps.readable_iff member).1 ⟨fs, flows⟩) large
    | error f => exact ⟨f, rfl⟩
  obtain ⟨-, -, f, -, failed⟩ := query_of_unreadable present valid compiled (congrArg Prod.fst selected)
    ⟨w.ref a, (written _).2 ⟨w, member, read, rfl⟩, unreadable⟩
  exact ⟨f.message, failed⟩

/-! ## Histories -/

/-- A run of calls on an archive, from one disk to another, with the blocks that were written and not removed since.
Writes may be refused; all other calls succeed. -/
inductive History (a : Archive) (d : Disk) : List Written → Disk → Prop where
  | start : History a d [] d
  | wrote {book : List Written} {c e : Disk} {token : LockToken} {i : String} {t : Timestamp} {fs : List Flow}
      {x : Descriptor} (before : History a d book c) (wrote : (a.writeBlock token i t fs).runOn c = (.ok x, e)) :
      History a d (book ++ [⟨i, t, fs⟩]) e
  /-- The name is no name, or the block is there already. -/
  | refused {book : List Written} {c e : Disk} {token : LockToken} {i : String} {t : Timestamp} {fs : List Flow}
      {r : Refusal} (before : History a d book c)
      (refused : (a.writeBlock token i t fs).runOn c = (.error (.refused r), e)) : History a d book e
  | cleaned {book : List Written} {c e : Disk} {token : LockToken} {now cutoff : Timestamp} {report : SweepReport}
      (before : History a d book c) (cleaned : (a.clean token now cutoff).runOn c = (.ok report, e)) :
      History a d (keptFrom cutoff book) e
  | wiped {book : List Written} {c e : Disk} {token : LockToken} {count : Nat} (before : History a d book c)
      (wiped : (a.wipe token).runOn c = (.ok count, e)) : History a d [] e

theorem History.keeps (fresh : a.IsFresh l d) (history : a.History d book e) : a.Keeps l book e := by
  induction history with
  | start => exact fresh.keeps
  | wrote before wrote ih => exact ih.write wrote
  | refused before refused ih =>
    obtain rfl := writeBlock_refused ih.leads ih.tree refused
    exact ih
  | cleaned before cleaned ih => exact ih.clean cleaned
  | wiped before wiped ih => exact ih.wipe wiped

/-- What a store promises. -/
structure Promises (a : Archive) (l : Location) (book : List Written) (d : Disk) : Prop where
  /-- No two entries of an interface have one time. -/
  times : ∀ i, ((d.listed l i).map (·.time)).Nodup
  /-- An entry is in the partition of its day, and tells of a block that was written and of the number of its flows;
  the file of the block is there and yields what was written if and only if its sizes fit the words of its header. -/
  entries : ∀ i n x, x ∈ d.indexAt l i n → n = partitionName x.time.startOfDay ∧
    ∃ fs, ⟨i, x.time, fs⟩ ∈ book ∧ x = describe x.time fs ∧ (fs.length < UInt64.size → x.flows.toNat = fs.length) ∧
      ∃ s, d.at? (l ++ [i, n, blockName x.time]) = some (.file s) ∧ (Block.decode s = .ok fs ↔ Block.SizesFit fs)
  /-- The file of a block is in a partition whose index lists the block. -/
  files : ∀ place y s, d.at? (l ++ place ++ [y]) = some (.file s) → IsBlockName y →
    ∃ i t x, place = [i, partitionName t.startOfDay] ∧ y = blockName t ∧
      x ∈ d.indexAt l i (partitionName t.startOfDay) ∧ x.time = t
  /-- A query whose arguments are fine has an answer if and only if the sizes of the blocks that it reads fit. -/
  queries : ∀ hosts (q : Query), q.validate = .ok () → (∃ p, Predicate.ofText hosts q.condition = .ok p) →
    Chooses d l q.interfaces →
    ((∃ r, (a.query hosts q).runOn d = (.ok r, d)) ↔ ∀ w ∈ book, w.IsReadBy q → Block.SizesFit w.flows)

theorem Keeps.promises (keeps : a.Keeps l book d) (present : (a.checkExists.runOn d).1 = .ok ()) :
    a.Promises l book d := by
  constructor
  case times => exact keeps.nodup_times
  case entries =>
    intro i n x listed
    obtain ⟨w, member, ⟨rfl, rfl⟩, rfl⟩ := keeps.mem_indexAt.1 listed
    exact ⟨rfl, w.flows, member, rfl, UInt64.toNat_ofNat_of_lt', _, keeps.block w member, Block.decode_encode_iff⟩
  case files =>
    intro place y s there named
    obtain ⟨w, member, rfl, rfl⟩ := keeps.blockFile there named
    exact ⟨w.interface, w.time, w.descriptor, rfl, rfl, keeps.mem_indexAt.2 ⟨w, member, ⟨rfl, rfl⟩, rfl⟩, rfl⟩
  case queries =>
    rintro hosts q valid ⟨p, compiled⟩ chooses
    obtain ⟨bs, selected, written⟩ := keeps.selected present chooses q.range
    rw [query_ok_iff present valid compiled (congrArg Prod.fst selected)]
    constructor
    · intro decoded w member read
      exact (keeps.readable_iff member).1 (decoded _ ((written _).2 ⟨w, member, read, rfl⟩))
    · intro fit b selected
      obtain ⟨w, member, read, rfl⟩ := (written b).1 selected
      exact (keeps.readable_iff member).2 (fit w member read)

theorem History.present (fresh : a.IsFresh l d) (present : (a.checkExists.runOn d).1 = .ok ())
    (history : a.History d book e) : (a.checkExists.runOn e).1 = .ok () := by
  rw [checkExists_congr fresh.leads (history.keeps fresh).leads, present]

/-- Whatever is written, refused, cleaned and wiped on a new archive, its store keeps what it promises. -/
theorem store_consistent (fresh : a.IsFresh l d) (present : (a.checkExists.runOn d).1 = .ok ())
    (history : a.History d book e) : a.Promises l book e :=
  (history.keeps fresh).promises (history.present fresh present)

/-- A block, and a second attempt to write it. -/
theorem store_consistent_written_twice :
    ∃ e, newArchive.History newDisk [⟨"eth0", 5, [newFlow]⟩] e ∧
      newArchive.Promises ["data"] [⟨"eth0", 5, [newFlow]⟩] e := by
  have again : ((newArchive.writeBlock [] "eth0" 5 [newFlow]).runOn writtenDisk).1 =
      .error (.refused (.blockExists 5 "eth0")) := by decide +kernel
  have history : newArchive.History newDisk [⟨"eth0", 5, [newFlow]⟩] _ :=
    .refused (.wrote .start writeBlock_newDisk) (Prod.ext again rfl)
  exact ⟨_, history, store_consistent isFresh_newDisk present_newDisk history⟩

/-- A block that is too large is written and listed like any other. But its file does not yield what was written, and
no query for all interfaces and times has an answer any more. -/
theorem large_block_unreadable :
    ∃ fs e, fs = List.replicate 84215045 newFlow ∧ newArchive.History newDisk [⟨"eth0", 5, fs⟩] e ∧
      describe 5 fs ∈ e.indexAt ["data"] "eth0" "0" ∧
      (∃ s, e.at? ["data", "eth0", "0", "5.blk"] = some (.file s) ∧ Block.decode s ≠ .ok fs) ∧
      ∀ hosts g, (Query.all .any g).validate = .ok () ∧
        (∃ p, Predicate.ofText hosts (Query.all .any g).condition = .ok p) ∧
        Chooses e ["data"] (Query.all .any g).interfaces ∧
        ∃ text, (newArchive.query hosts (Query.all .any g)).runOn e = (.error (.scan text), e) := by
  have large : ¬ Block.SizesFit (List.replicate 84215045 newFlow) := by
    intro fits
    have few := fits.length_lt
    rw [List.length_replicate] at few
    exact Nat.lt_irrefl _ few
  -- The flows are never looked at.
  generalize List.replicate 84215045 newFlow = fs at large
  obtain ⟨e, wrote⟩ := writeBlock_any isFresh_newDisk.leads writeBlock_newDisk fs
  have history : newArchive.History newDisk [⟨"eth0", 5, fs⟩] e := .wrote .start wrote
  have keeps := history.keeps isFresh_newDisk
  have block := List.mem_singleton_self (⟨"eth0", 5, fs⟩ : Written)
  have day : partitionName (5 : Timestamp).startOfDay = "0" := by decide +kernel
  have place : blockPlace ["data"] "eth0" 5 = ["data", "eth0", "0", "5.blk"] := by decide +kernel
  have inside : TimeRange.sinceEpoch.contains 5 = true := by decide +kernel
  have stored := keeps.block _ block
  rw [place] at stored
  refine ⟨fs, e, rfl, history, keeps.mem_indexAt.2 ⟨_, block, ⟨rfl, day⟩, rfl⟩, ⟨_, stored, ?_⟩, ?_⟩
  · exact fun decoded => large (Block.sizesFit_of_decode decoded)
  · intro hosts g
    have blank : Condition.ofText "" = .ok none := Action.toOption_eq_some.1 (by decide +kernel)
    have compiled : Predicate.ofText hosts (Query.all .any g).condition = .ok .any := by
      show Predicate.ofText hosts "" = .ok .any
      rw [Predicate.ofText, blank]
    have chooses : Chooses e ["data"] (Query.all .any g).interfaces := trivial
    have present := history.present isFresh_newDisk present_newDisk
    exact ⟨rfl, ⟨_, compiled⟩, chooses, keeps.query_of_large present rfl compiled chooses block ⟨trivial, inside⟩ large⟩

end Archive

end FlowArchive
