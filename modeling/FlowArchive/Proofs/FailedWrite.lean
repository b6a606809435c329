import FlowArchive.Proofs.Edits
import FlowArchive.Proofs.LedgerAgreement
import FlowArchive.Proofs.NamedInterfaces

/-!
# Writes that fail

A write can fail at any of its requests. As long as the file of the block does not stand, a write that fails has left
nothing that a query or the summary shows, and it can be repeated. Once the file stands, the block may be listed or
not, but the summary does not count it, and no repetition ever gets further than finding the file.
-/

namespace FlowArchive

open FlowArchive.Path (IsName)
open Disk (Edits Extends snoc_ne_nil)

variable {mayRefuse : Request → Prop} {M : Location → Prop} {b c d e : Disk} {f : Failure}

/-! ## Requests that fail -/

namespace Disk

theorem rename_error {p q : Path} {g : Fault} (failed : d.rename p q = (.error g, e)) : e = d := by
  unfold rename at failed
  split at failed
  case h_6 =>
    split at failed
    · cases failed
      rfl
    · cases failed
  all_goals
    cases failed
    rfl

theorem change_error {p : Path} {change : Bytes → Bytes} {g : Fault} (failed : d.change p change = (.error g, e)) :
    e = d := by
  unfold Disk.change at failed
  split at failed
  · cases failed
    rfl
  · cases failed
    rfl
  · cases failed
  · split at failed
    · cases failed
      rfl
    · cases failed

end Disk

namespace Action

theorem ends_kind {p : Path} {o : Except Failure (Option EntryKind)} (asked : ¬ mayRefuse (.kind p))
    (ended : (kind p).Ends mayRefuse d o e) : o = .ok (d.kind p) ∧ e = d := by
  obtain ⟨answer, c, rest, answered⟩ := ends_asked ended
  cases answered asked
  cases rest
  exact ⟨rfl, rfl⟩

end Action

namespace Archive

variable {a : Archive} {token : LockToken} {l : Location} {i n : String} {t : Timestamp} {fs : List Flow}
  {x : Descriptor} {p : Path}

/-! ## Replacing a file -/

/-- As long as a file is not replaced, no more than its draft has changed. -/
theorem failed_replaceFile {x y : String} {s : Bytes} (into : d.LeadsInto M (p.join x))
    (failed : (replaceFile p x y s).Ends mayRefuse d (.error f) e) : Edits M d e ∧ ∃ g, f = .fault g := by
  unfold replaceFile at failed
  rcases Action.ends_bind_error failed with wrote | ⟨⟨⟩, b, wrote, rest⟩
  · exact ⟨wrote.edits (Action.asks_ask into) (.refl d), (Action.ends_ask_error wrote).1⟩
  · have drafted := wrote.edits (Action.asks_ask into) (.refl d)
    rcases Action.ends_bind_error rest with synced | ⟨⟨⟩, c, synced, moved⟩
    · exact ⟨synced.edits (Action.asks_ask trivial) drafted, (Action.ends_ask_error synced).1⟩
    · have stored := synced.edits (Action.asks_ask trivial) drafted
      obtain ⟨cause, outcome⟩ := Action.ends_ask_error moved
      refine ⟨?_, cause⟩
      rcases outcome with ⟨g, answered⟩ | remains
      · rw [Disk.rename_error answered]
        exact stored
      · cases remains
        exact stored

/-- A file that was replaced was replaced by requests that were answered. -/
theorem ends_replaceFile_ok {x y : String} {s : Bytes}
    (replaced : (replaceFile p x y s).Ends mayRefuse d (.ok ()) e) : (replaceFile p x y s).runOn d = (.ok (), e) := by
  obtain ⟨⟨⟩, b, wrote, rest⟩ := Action.ends_bind_ok replaced
  obtain ⟨⟨⟩, c, synced, moved⟩ := Action.ends_bind_ok rest
  exact Action.runOn_bind_ok_iff.2 ⟨(), b, Action.runOn_ask_ok_iff.2 (Action.ends_ask_ok wrote),
    Action.runOn_bind_ok_iff.2 ⟨(), c, Action.runOn_ask_ok_iff.2 (Action.ends_ask_ok synced),
      Action.runOn_ask_ok_iff.2 (Action.ends_ask_ok moved)⟩⟩

/-! ## The ledger -/

/-- A file of the ledger that is not the summary. -/
def IsBesideSummary (l m : Location) : Prop := m = l ++ [summaryDraftName] ∨ m = l ++ [lockName]

theorem not_isBesideSummary_summary (l : Location) : ¬ IsBesideSummary l (l ++ [summaryName]) := by
  rintro (same | same)
  · exact draft_ne_summary l same.symm
  · exact summary_ne_lock l same

theorem leadsInto_root {x : String} (leads : d.LeadsTo a.root l) (name : IsName x) (inside : M (l ++ [x])) :
    d.LeadsInto M (a.root.join x) :=
  ⟨a.root, x, rfl, name, fun _ also => also.unique leads ▸ inside⟩

theorem asks_makeLock {P : Request → Prop} (own : P (.create a.lockPath)) (pause : P .pause) (retries : Nat) :
    (a.makeLock retries).Asks P := by
  induction retries with
  | zero =>
    refine ⟨own, fun answer => ?_⟩
    cases answer with
    | ok => trivial
    | error g => cases g <;> trivial
  | succ retries ih =>
    refine ⟨own, fun answer => ?_⟩
    cases answer with
    | ok => trivial
    | error g =>
      cases g with
      | present => exact ⟨pause, fun _ => ih⟩
      | _ => trivial

theorem asks_storedSummary {P : Request → Prop} (own : P (.read a.summaryPath)) : a.storedSummary.Asks P := by
  refine ⟨own, fun answer => ?_⟩
  cases answer with
  | ok s =>
    dsimp only [Script.bind]
    split <;> trivial
  | error g => cases g <;> trivial

theorem asks_acquire (leads : d.LeadsTo a.root l) (token : LockToken) :
    (a.acquire token).Asks (·.Within d (IsBesideSummary l)) := by
  have lock := leadsInto_root (M := IsBesideSummary l) leads isName_lock (.inr rfl)
  exact Action.asks_bind (asks_makeLock lock trivial _) fun _ => Action.asks_ask lock

/-- The lock cannot be had in time, or a request failed. -/
theorem failed_makeLock {retries : Nat} (failed : (a.makeLock retries).Ends mayRefuse d (.error f) e) :
    f = .lockTimeout a.lockLimit ∨ ∃ g, f = .fault g := by
  induction retries generalizing d with
  | zero =>
    rw [makeLock] at failed
    obtain ⟨answer, c, rest, -⟩ := Action.ends_asked failed
    cases answer with
    | ok => cases rest
    | error g => cases g <;> cases rest <;> simp
  | succ retries ih =>
    rw [makeLock] at failed
    obtain ⟨answer, c, rest, -⟩ := Action.ends_asked failed
    cases answer with
    | ok => cases rest
    | error g =>
      cases g with
      | present =>
        cases rest with
        | answered again => exact ih again
        | refused _ _ _ again => exact ih again
      | _ =>
        cases rest
        simp

/-- A change of the ledger that fails leaves the summary as it was. -/
theorem failed_modify {change : Option Summary → Summary} (leads : d.LeadsTo a.root l)
    (failed : (a.modify token fun old => .ok (change old)).Ends mayRefuse d (.error f) e) :
    Edits (IsBesideSummary l) d e ∧ (f = .lockTimeout a.lockLimit ∨ ∃ g, f = .fault g) := by
  have lock := leadsInto_root (M := IsBesideSummary l) leads isName_lock (.inr rfl)
  rcases Action.ends_bind_error failed with missed | ⟨⟨⟩, b, taken, rest⟩
  · refine ⟨missed.edits (asks_acquire leads token) (.refl d), ?_⟩
    rcases Action.ends_bind_error missed with made | ⟨⟨⟩, _, _, marked⟩
    · exact failed_makeLock made
    · exact .inr (Action.ends_ask_error marked).1
  · have locked := taken.edits (asks_acquire leads token) (.refl d)
    rcases Action.ends_bind_error rest with attempted | ⟨outcome, c, attempted, rest⟩
    · obtain ⟨o, same, -⟩ := Action.ends_ofScript attempted
      cases same
    obtain ⟨o, same, applied⟩ := Action.ends_ofScript attempted
    cases same
    rcases Action.ends_bind_error rest with released | ⟨⟨⟩, c', released, last⟩
    · obtain ⟨o, same, -⟩ := Action.ends_ofScript released
      cases same
    obtain ⟨same, rfl⟩ := Action.ends_ofExcept last
    cases same
    -- The change was not stored, and the lock is the only other file that was touched.
    have unstored : Edits (IsBesideSummary l) d c ∧ ∃ g, f = .fault g := by
      rcases Action.ends_bind_error applied with read | ⟨old, b', read, computing⟩
      · obtain ⟨o, same, -⟩ := Action.ends_ofScript read
        cases same
      have seen := read.edits (Action.Asks.attempt (asks_storedSummary trivial)) locked
      rcases Action.ends_bind_error computing with computed | ⟨new, b'', computed, committing⟩
      · cases (Action.ends_ofExcept computed).1
      obtain ⟨-, rfl⟩ := Action.ends_ofExcept computed
      rcases Action.ends_bind_error committing with committed | ⟨⟨⟩, _, _, last⟩
      · have draft := leadsInto_root (M := IsBesideSummary l) (seen.leadsTo_iff.2 leads) isName_summaryDraft (.inl rfl)
        obtain ⟨edits, cause⟩ := failed_replaceFile draft committed
        exact ⟨seen.trans edits, cause⟩
      · cases last
    refine ⟨released.edits (Action.asks_ofScript ⟨lock, fun _ => trivial⟩) unstored.1, .inr unstored.2⟩

/-! ## The file of a block and its entry -/

/-- The first bytes of an entry have been appended to an index, if any. The index has new blocks if they are all. -/
def Appended (p : Path) (x : Descriptor) (new : List Descriptor) (d e : Disk) : Prop :=
  e = d ∧ new = [] ∨ ∃ k, d.change (indexPath p) (· ++ (Index.writeEntry x).take k) = (.ok (), e) ∧
    new = if k < 32 then [] else [x]

theorem failed_indexBlock (failed : (indexBlock p x).Ends mayRefuse d (.error f) e) :
    (∃ new, (new = [] ∨ new = [x]) ∧ Appended p x new d e) ∧ ∃ g, f = .fault g := by
  have nothing : ∀ c, c = d → ∃ new, (new = [] ∨ new = [x]) ∧ Appended p x new d c := fun c same =>
    ⟨[], .inl rfl, .inl ⟨same, rfl⟩⟩
  rcases Action.ends_bind_error failed with appended | ⟨⟨⟩, c, appended, synced⟩
  · obtain ⟨cause, outcome⟩ := Action.ends_ask_error appended
    refine ⟨?_, cause⟩
    rcases outcome with ⟨g, answered⟩ | remains
    · exact nothing e (Disk.change_error answered)
    · cases remains with
      | untouched => exact nothing _ rfl
      | tornEnd _ _ k =>
        cases torn : d.change (indexPath p) (· ++ (Index.writeEntry x).take k) with
        | mk outcome c =>
          cases outcome with
          | error g => exact nothing c (Disk.change_error torn)
          | ok => exact ⟨_, by split <;> simp, .inr ⟨k, torn, rfl⟩⟩
  · have answered : d.change (indexPath p) (· ++ Index.writeEntry x) = (.ok (), c) := Action.ends_ask_ok appended
    obtain ⟨cause, outcome⟩ := Action.ends_ask_error synced
    have same : e = c := by
      rcases outcome with ⟨g, asked⟩ | remains
      · exact (congrArg Prod.snd asked).symm
      · cases remains
        rfl
    refine ⟨⟨[x], .inr rfl, .inr ⟨32, ?_, rfl⟩⟩, cause⟩
    rw [same, List.take_of_length_le (by simp), answered]

theorem ends_indexBlock_ok (indexed : (indexBlock p x).Ends mayRefuse d (.ok ()) e) : Appended p x [x] d e := by
  obtain ⟨⟨⟩, c, appended, synced⟩ := Action.ends_bind_ok indexed
  have answered : d.change (indexPath p) (· ++ Index.writeEntry x) = (.ok (), c) := Action.ends_ask_ok appended
  obtain rfl : c = e := congrArg Prod.snd (Action.ends_ask_ok synced)
  refine .inr ⟨32, ?_, rfl⟩
  rw [List.take_of_length_le (by simp), answered]

/-- The file of a block. -/
def blockPlace (l : Location) (i : String) (t : Timestamp) : Location :=
  l ++ [i, partitionName t.startOfDay, blockName t]

/-- The file that a block is written to first. -/
def draftPlace (l : Location) (i : String) (t : Timestamp) : Location :=
  l ++ [i, partitionName t.startOfDay, draftName t]

def IsBlockFile (l : Location) (i : String) (t : Timestamp) (m : Location) : Prop :=
  m = blockPlace l i t ∨ m = draftPlace l i t

theorem leadsInto_partition {y : String} (leads : d.LeadsTo a.root l) (name : IsName i) (name' : IsName y)
    (inside : M (l ++ [i, partitionName t.startOfDay, y])) : d.LeadsInto M ((a.partitionPath i t).join y) := by
  refine ⟨a.partitionPath i t, y, rfl, name', fun k there => ?_⟩
  obtain ⟨rfl, -, -⟩ := leadsTo_partition leads name (isName_partition t.startOfDay) there
  simpa using inside

theorem asks_storeBlock (draft : d.LeadsInto M (p.join (draftName t))) (block : d.LeadsInto M (blockPath p t)) :
    (storeBlock p t fs).Asks (·.Within d M) :=
  Action.asks_bind (Action.asks_ask draft) fun _ => Action.asks_bind (Action.asks_ask trivial)
    fun _ => Action.asks_ask ⟨draft, block⟩

theorem asks_indexBlock (index : d.LeadsInto M (indexPath p)) : (indexBlock p x).Asks (·.Within d M) :=
  Action.asks_bind (Action.asks_ask index) fun _ => Action.asks_ask trivial

/-- A write goes no further than to find the file of its block. -/
theorem writeBlock_blocked {entry : Entry} (valid : isInterfaceName i = true) (leads : d.LeadsTo a.root l)
    (tree : d.IsTree l) (short : i.utf8ByteSize ≤ Path.longestName)
    (short' : (partitionName t.startOfDay).utf8ByteSize ≤ Path.longestName)
    (fine : Disk.joinFault? (a.partitionPath i t) (blockName t) = none)
    (there : d.at? (l ++ [i, partitionName t.startOfDay, blockName t]) = some entry) :
    (a.writeBlock token i t fs).runOn d = (.error (.refused (.blockExists t i)), d) := by
  have name := isName_of_isInterfaceName valid
  have place : l ++ [i, partitionName t.startOfDay] ++ [blockName t] =
      l ++ [i, partitionName t.startOfDay, blockName t] := by simp
  have partition : d.at? (l ++ [i, partitionName t.startOfDay]) = some .directory :=
    (tree [i, partitionName t.startOfDay] (blockName t) (by rw [place, there]; simp)).2
  obtain ⟨interface, inside⟩ := leadsTo_partitionPath leads tree name short short' partition
  have made : d.makeDirectories (a.partitionPath i t) = (.ok (), d) := by
    refine Disk.makeDirectories_of_leadsTo (leads.join name short interface) (isName_partition t.startOfDay) ?_ ?_
    · exact Disk.joinFault?_of_join (isName_partition t.startOfDay) (isName_block t) short' fine
    · simpa using partition
  have found : d.kind (blockPath (a.partitionPath i t) t) = some entry.kind := by
    rw [blockPath, Disk.kind, Disk.find_join_ok inside (isName_block t) fine, place, there]
    rfl
  have asked : (Action.ask (.makeDirectories (a.partitionPath i t))).runOn d = (.ok (), d) :=
    Action.runOn_ask_ok_iff.2 made
  rw [writeBlock, if_pos valid]
  refine (Action.runOn_bind_of_ok asked).trans ?_
  rw [Action.runOn_bind_of_ok (Action.runOn_kind _ d), found]
  rfl

/-! ## What is left -/

/-- A write has left nothing of its block that a query or the summary shows. -/
structure Undone (a : Archive) (l : Location) (i : String) (t : Timestamp) (d e : Disk) : Prop where
  consistent : a.Consistent l e
  listed : ∀ j, (e.listed l j).Perm (d.listed l j)
  summary : e.content? (l ++ [summaryName]) = d.content? (l ++ [summaryName])
  block : e.at? (blockPlace l i t) = d.at? (blockPlace l i t)

/-- A write has left the file of its block, and some blocks that are listed, but not counted. As long as the file is
there, no write of the block succeeds. -/
structure HalfDone (a : Archive) (l : Location) (i : String) (t : Timestamp) (fs : List Flow) (new : List Descriptor)
    (d e : Disk) : Prop where
  before : d.at? (blockPlace l i t) = none
  block : e.at? (blockPlace l i t) = some (.file (Block.encode fs))
  listed : ∀ j, (e.listed l j).Perm (d.listed l j ++ if j = i then new else [])
  summary : e.content? (l ++ [summaryName]) = d.content? (l ++ [summaryName])
  stuck : ∀ c token gs, c.LeadsTo a.root l → c.IsTree l → c.at? (blockPlace l i t) ≠ none →
    (a.writeBlock token i t gs).runOn c = (.error (.refused (.blockExists t i)), c)

/-- Where no more than some files other than indexes and the summary have changed, nothing that is listed has. -/
theorem Balanced.of_edits (before : a.Balanced l d) (extended : Extends d b) (edits : Edits M b e)
    (indexes : ∀ j m, ¬ M (l ++ [j, m, indexName])) (summary : ¬ M (l ++ [summaryName])) :
    a.Balanced l e ∧ (∀ j, (e.listed l j).Perm (d.listed l j)) ∧
      e.content? (l ++ [summaryName]) = d.content? (l ++ [summaryName]) := by
  have stored : e.content? (l ++ [summaryName]) = d.content? (l ++ [summaryName]) :=
    (edits.content? summary).trans (extended.content? _)
  have listed : ∀ j, (e.listed l j).Perm (d.listed l j) := by
    intro j
    refine (Disk.listed_congr (fun m => ?_) fun m _ => ?_).trans (Disk.listed_extends before.tree extended j)
    · rw [Disk.mem_partitionNames, Disk.mem_partitionNames, edits.directory_iff]
    · exact Disk.indexAt_congr (edits.rest _ (indexes j m))
  refine ⟨?_, listed, stored⟩
  constructor
  case leads => exact edits.leadsTo_iff.2 (before.leads.mono extended.keepsDirectories)
  case tree => exact edits.isTree (extended.isTree before.tree)
  case readable =>
    intro j m held
    rw [edits.content? (indexes j m), extended.content?] at held
    exact before.readable j m held
  case agrees =>
    intro j
    have same : entryAt e l j = entryAt d l j := by rw [entryAt, entryAt, Disk.summaryAt, Disk.summaryAt, stored]
    rw [same]
    exact (before.agrees j).perm (listed j).symm

theorem Consistent.of_edits (before : a.Consistent l d) (extended : Extends d b) (edits : Edits M b e)
    (indexes : ∀ j m, ¬ M (l ++ [j, m, indexName])) (summary : ¬ M (l ++ [summaryName])) :
    a.Consistent l e ∧ (∀ j, (e.listed l j).Perm (d.listed l j)) ∧
      e.content? (l ++ [summaryName]) = d.content? (l ++ [summaryName]) := by
  obtain ⟨balanced, listed, stored⟩ := before.balanced.of_edits extended edits indexes summary
  refine ⟨⟨balanced.leads, balanced.tree, balanced.readable, fun j m s held => ?_, balanced.agrees⟩, listed, stored⟩
  rw [edits.content? (indexes j m), extended.content?] at held
  exact before.flawless j m s held

theorem Consistent.undone (before : a.Consistent l d) (name : IsName i)
    (made : (d.makeDirectories (a.partitionPath i t)).2 = b)
    (edits : Edits (· = draftPlace l i t) b e) : a.Undone l i t d e := by
  have extended : Extends d b := made ▸ Disk.makeDirectories_extends d _
  obtain ⟨consistent, listed, summary⟩ := before.of_edits extended edits
    (fun j m same => by simp [draftPlace, (draftName_ne_index t).symm] at same)
    (fun same => by simp [draftPlace] at same)
  refine ⟨consistent, listed, summary, ?_⟩
  rw [edits.rest _ (by simp [blockPlace, draftPlace, blockName_ne_draftName]), ← made]
  exact Disk.at?_makeDirectories before.leads name (isName_partition _) (by simp [blockPlace]) (by simp [blockPlace])

/-- Where the first bytes of an entry were appended to a flawless index, it lists the block if they are all. -/
theorem indexAt_of_append {k : Nat}
    (flawless : ∀ s, d.content? (l ++ [i, n, indexName]) = some s → ∃ ds, s = Index.write ds)
    (appended : e.content? (l ++ [i, n, indexName]) =
      some ((d.content? (l ++ [i, n, indexName])).getD [] ++ (Index.writeEntry x).take k)) :
    e.indexAt l i n = d.indexAt l i n ++ if k < 32 then [] else [x] := by
  have entry : (Index.readPrefix ((Index.writeEntry x).take k)).1 = if k < 32 then [] else [x] := by
    split
    next short => exact Index.readPrefix_take_writeEntry x short
    next whole =>
      have all := Index.readPrefix_writeEntry x []
      rw [List.append_nil, Index.readPrefix_nil] at all
      rw [List.take_of_length_le (by simp; omega), all]
  rw [Disk.indexAt, Disk.indexAt, appended, Option.map_some, Option.getD_some]
  cases held : d.content? (l ++ [i, n, indexName]) with
  | none => simpa using entry
  | some s =>
    obtain ⟨ds, rfl⟩ := flawless s held
    rw [Option.getD_some, Index.readPrefix_write, Option.map_some, Option.getD_some, Index.readPrefix_write_nil, entry]

theorem not_isBesideSummary (j m : String) (rest : List String) : ¬ IsBesideSummary l (l ++ j :: m :: rest) := by
  rintro (same | same) <;> simp at same

/-- What an append leaves of the entries of its index. -/
theorem Appended.indexAt {new : List Descriptor} (appended : Appended (a.partitionPath i t) x new d e)
    (inside : d.LeadsTo (a.partitionPath i t) (l ++ [i, n]))
    (flawless : ∀ s, d.content? (l ++ [i, n, indexName]) = some s → ∃ ds, s = Index.write ds) :
    e.indexAt l i n = d.indexAt l i n ++ new ∧ Edits (· = l ++ [i, n, indexName]) d e := by
  have place : l ++ [i, n] ++ [indexName] = l ++ [i, n, indexName] := by simp
  rcases appended with ⟨rfl, rfl⟩ | ⟨k, changed, rfl⟩
  · exact ⟨(List.append_nil _).symm, .refl e⟩
  · have into : d.LeadsInto (· = l ++ [i, n, indexName]) (indexPath (a.partitionPath i t)) :=
      ⟨a.partitionPath i t, indexName, rfl, isName_index, fun m there => by rw [there.unique inside, place]⟩
    have edits := Disk.edits_change into (· ++ (Index.writeEntry x).take k)
    rw [changed] at edits
    refine ⟨indexAt_of_append flawless ?_, edits⟩
    obtain ⟨-, -, rfl⟩ := Disk.change_join inside isName_index changed
    refine Disk.content?_eq_some.2 ?_
    rw [Disk.at?_put _ (snoc_ne_nil _ _), place, if_pos rfl]

/-- Where one index lists more and all others list the same, so does the archive. -/
theorem listed_of_indexAt {new : List Descriptor}
    (partitions : ∀ j m, m ∈ e.partitionNames l j ↔ m ∈ d.partitionNames l j) (here : n ∈ e.partitionNames l i)
    (own : e.indexAt l i n = d.indexAt l i n ++ new)
    (others : ∀ j m, ¬ (j = i ∧ m = n) → e.indexAt l j m = d.indexAt l j m) (j : String) :
    (e.listed l j).Perm (d.listed l j ++ if j = i then new else []) := by
  split
  next same =>
    subst same
    exact Disk.listed_append here (fun m _ => partitions j m) (fun absent => absurd ((partitions j n).1 here) absent)
      (fun m other => others j m fun both => other both.2) own
  next other =>
    rw [List.append_nil]
    exact Disk.listed_congr (partitions j) fun m _ => others j m fun both => other both.1

/-- A write that failed after its file was in place is half done. -/
theorem Consistent.halfDone {c' : Disk} {new : List Descriptor} (before : a.Consistent l d)
    (valid : isInterfaceName i = true) (made : (d.makeDirectories (a.partitionPath i t)).2 = b)
    (absent : b.kind (blockPath (a.partitionPath i t) t) = none)
    (stored : (storeBlock (a.partitionPath i t) t fs).Ends mayRefuse b (.ok ()) c)
    (indexed : Appended (a.partitionPath i t) (describe t fs) new c c') (ledger : Edits (IsBesideSummary l) c' e) :
    a.HalfDone l i t fs new d e := by
  have name := isName_of_isInterfaceName valid
  have extended : Extends d b := made ▸ Disk.makeDirectories_extends d _
  have leadsB := before.leads.mono extended.keepsDirectories
  have ran : (storeBlock (a.partitionPath i t) t fs).runOn b = (.ok (), c) := ends_replaceFile_ok stored
  obtain ⟨k, inside⟩ := leadsTo_of_storeBlock ran
  obtain ⟨rfl, short, short'⟩ := leadsTo_partition leadsB name (isName_partition _) inside
  obtain ⟨fineBlock, replaced⟩ := replaceFile_ok inside (isName_draft t) (isName_block t) ran
  have place : ∀ y, l ++ [i, partitionName t.startOfDay] ++ [y] = l ++ [i, partitionName t.startOfDay, y] := by simp
  -- From the new directories on, only files of the block and of the ledger have changed.
  have draft := leadsInto_partition (M := IsBlockFile l i t) leadsB name (isName_draft t) (.inr rfl)
  have block := leadsInto_partition (M := IsBlockFile l i t) leadsB name (isName_block t) (.inl rfl)
  have filed : Edits (IsBlockFile l i t) b c :=
    stored.edits (asks_storeBlock draft block) (.refl b)
  have index : ∀ j m, c.content? (l ++ [j, m, indexName]) = d.content? (l ++ [j, m, indexName]) := by
    intro j m
    refine (filed.content? ?_).trans (extended.content? _)
    simp [IsBlockFile, blockPlace, draftPlace, (blockName_ne_index t).symm, (draftName_ne_index t).symm]
  have insideC := filed.leadsTo_iff.2 inside
  obtain ⟨own, entered⟩ := indexed.indexAt insideC fun s held =>
    before.flawless i _ s ((index i _).symm.trans held)
  have others : ∀ j m, ¬ (j = i ∧ m = partitionName t.startOfDay) → e.indexAt l j m = d.indexAt l j m := by
    intro j m other
    have same : c'.content? (l ++ [j, m, indexName]) = d.content? (l ++ [j, m, indexName]) := by
      refine (entered.content? fun same => other ?_).trans (index j m)
      simpa using same
    rw [Disk.indexAt, Disk.indexAt, ledger.content? (not_isBesideSummary j m _), same]
  have own' : e.indexAt l i (partitionName t.startOfDay) = d.indexAt l i (partitionName t.startOfDay) ++ new := by
    rw [Disk.indexAt, ledger.content? (not_isBesideSummary i _ _), ← Disk.indexAt, own, Disk.indexAt, index,
      Disk.indexAt]
  have untouched : ∀ m, b.at? m = some .directory ↔ e.at? m = some .directory := fun m => by
    rw [ledger.directory_iff, entered.directory_iff, filed.directory_iff]
  have old : ∀ j m, b.indexAt l j m = d.indexAt l j m := fun j m => by
    rw [Disk.indexAt, Disk.indexAt, extended.content?]
  have partitions : ∀ j m, m ∈ e.partitionNames l j ↔ m ∈ b.partitionNames l j := fun j m => by
    rw [Disk.mem_partitionNames, Disk.mem_partitionNames, untouched]
  have here : partitionName t.startOfDay ∈ e.partitionNames l i := by
    refine Disk.mem_partitionNames.2 ⟨(untouched _).1 inside.directory, ?_⟩
    rw [partitionDay?_partitionName]
    rfl
  constructor
  case before =>
    have same := Disk.at?_makeDirectories (x := i) (y := partitionName t.startOfDay) (m := blockPlace l i t)
      before.leads name (isName_partition _) (by simp [blockPlace]) (by simp [blockPlace])
    rw [← same]
    show (d.makeDirectories (a.partitionPath i t)).2.at? _ = none
    rw [made, blockPlace, ← place]
    rw [blockPath, Disk.kind, Disk.find_join_ok inside (isName_block t) fineBlock] at absent
    simpa using absent
  case block =>
    show e.at? (l ++ [i, partitionName t.startOfDay, blockName t]) = _
    rw [ledger.rest _ (not_isBesideSummary i _ _), entered.rest _ (by simp [blockName_ne_index]), ← place,
      replaced.entries, if_pos rfl]
  case listed =>
    intro j
    have made := (Disk.listed_extends before.tree extended j).append_right (if j = i then new else [])
    refine (listed_of_indexAt partitions here ?_ ?_ j).trans made
    · rw [own', old]
    · intro j m other
      rw [others j m other, old]
  case summary =>
    rw [ledger.content? (not_isBesideSummary_summary l), entered.content? (by simp),
      filed.content? (by simp [IsBlockFile, blockPlace, draftPlace]), extended.content?]
  case stuck =>
    intro c token gs leads tree present
    obtain ⟨entry, there⟩ := Option.ne_none_iff_exists'.1 present
    exact writeBlock_blocked valid leads tree short short' fineBlock there

/-- After a write that has left nothing, a write that succeeds has its whole effect. -/
theorem Undone.again (undone : a.Undone l i t d e) (wrote : (a.writeBlock token i t fs).runOn e = (.ok x, c))
    (fits : Index.Fits (c.listed l i)) :
    a.Consistent l c ∧ ∀ j, (c.listed l j).Perm (d.listed l j ++ if j = i then [describe t fs] else []) := by
  refine ⟨(undone.consistent.write wrote fits).1, fun j => ?_⟩
  obtain ⟨-, rfl, -⟩ := writeBlock_ok undone.consistent.leads wrote
  refine (undone.consistent.listed_write wrote j).trans ?_
  split
  · exact (undone.listed j).append_right _
  · rw [List.append_nil]
    exact undone.listed j

/-- What a write that fails has done, whatever the disk refused. Either nothing is left of the block, and any write of
it that succeeds has its whole effect; this is so whenever the write was refused. Or the file of the block stands; then
the summary does not count the block, its index may list it, as it does when the lock could not be had in time, and no
write of the block succeeds until somebody removes the file. -/
theorem failed_write (before : a.Consistent l d) (asked : ∀ p, ¬ mayRefuse (.kind p))
    (failed : (a.writeBlock token i t fs).Ends mayRefuse d (.error f) e) :
    (a.Undone l i t d e ∧ ((∃ r, f = .refused r) ∨ ∃ g, f = .fault g) ∧
      ∀ token x c, (a.writeBlock token i t fs).runOn e = (.ok x, c) → Index.Fits (c.listed l i) →
        a.Consistent l c ∧ ∀ j, (c.listed l j).Perm (d.listed l j ++ if j = i then [describe t fs] else [])) ∨
    ((a.HalfDone l i t fs [] d e ∨ a.HalfDone l i t fs [describe t fs] d e) ∧ ∃ g, f = .fault g) ∨
    (a.HalfDone l i t fs [describe t fs] d e ∧ f = .lockTimeout a.lockLimit) := by
  unfold writeBlock at failed
  split at failed
  next valid =>
    have name := isName_of_isInterfaceName valid
    rcases Action.ends_bind_error failed with missing | ⟨⟨⟩, b, answered, rest⟩
    · -- The directories could not be made.
      obtain ⟨cause, outcome⟩ := Action.ends_ask_error missing
      have undone : a.Undone l i t d e := by
        rcases outcome with ⟨g, answered⟩ | remains
        · exact before.undone name (congrArg Prod.snd answered) (.refl e)
        · cases remains
          exact ⟨before, fun j => .refl _, rfl, rfl⟩
      exact .inl ⟨undone, .inr cause, fun _ _ _ => undone.again⟩
    have made : (d.makeDirectories (a.partitionPath i t)).2 = b := congrArg Prod.snd (Action.ends_ask_ok answered)
    rcases Action.ends_bind_error rest with seen | ⟨k, c, seen, rest⟩
    · cases (Action.ends_kind (asked _) seen).1
    obtain ⟨found, rfl⟩ := Action.ends_kind (asked _) seen
    cases found
    split at rest
    next present =>
      -- The block is there already.
      obtain ⟨same, rfl⟩ := Action.ends_ofExcept rest
      cases same
      have undone := before.undone (t := t) name made (.refl _)
      exact .inl ⟨undone, .inl ⟨_, rfl⟩, fun _ _ _ => undone.again⟩
    next absent =>
      rcases Action.ends_bind_error rest with unstored | ⟨⟨⟩, c', stored, rest⟩
      · have leads := before.leads.mono (made ▸ Disk.makeDirectories_extends d _).keepsDirectories
        have draft := leadsInto_partition (M := (· = draftPlace l i t)) leads name (isName_draft t) rfl
        obtain ⟨edits, cause⟩ := failed_replaceFile draft unstored
        have undone := before.undone name made edits
        exact .inl ⟨undone, .inr cause, fun _ _ _ => undone.again⟩
      rcases Action.ends_bind_error rest with unindexed | ⟨⟨⟩, c'', indexed, rest⟩
      · obtain ⟨⟨new, known, appended⟩, cause⟩ := failed_indexBlock unindexed
        have half := before.halfDone valid made absent stored appended (.refl e)
        refine .inr (.inl ⟨?_, cause⟩)
        rcases known with rfl | rfl
        · exact .inl half
        · exact .inr half
      rcases Action.ends_bind_error rest with uncounted | ⟨s, _, _, last⟩
      · -- Storing and indexing change files only, so the path of the archive leads where it did.
        have into : ∀ {y : String}, IsName y → c.LeadsInto (fun _ => True) ((a.partitionPath i t).join y) :=
          fun is => ⟨_, _, rfl, is, fun _ _ => trivial⟩
        have filed := indexed.edits (asks_indexBlock (into isName_index))
          (stored.edits (asks_storeBlock (into (isName_draft t)) (into (isName_block t))) (.refl c))
        have leads := filed.leadsTo_iff.2 (before.leads.mono (made ▸ Disk.makeDirectories_extends d _).keepsDirectories)
        obtain ⟨edits, cause⟩ := failed_modify leads uncounted
        have half := before.halfDone valid made absent stored (ends_indexBlock_ok indexed) edits
        rcases cause with late | fault
        · exact .inr (.inr ⟨half, late⟩)
        · exact .inr (.inl ⟨.inr half, fault⟩)
      · cases last
  next invalid =>
    obtain ⟨same, rfl⟩ := Action.ends_ofExcept failed
    cases same
    have undone : a.Undone l i t e e := ⟨before, fun j => .refl _, rfl, rfl⟩
    exact .inl ⟨undone, .inl ⟨_, rfl⟩, fun _ _ _ => undone.again⟩

/-! ### A write while the lock is held -/

/-- The written disk while somebody holds the lock of the summary. -/
def lockedDisk : Disk := writtenDisk.put ["data", lockName] (.file [])

/-- The locked disk after a second block was written, in vain. -/
def lateDisk : Disk := ((newArchive.writeBlock [] "eth0" 6 [newFlow]).runOn lockedDisk).2

theorem late_write : (newArchive.writeBlock [] "eth0" 6 [newFlow]).runOn lockedDisk =
    (.error (.lockTimeout (.ofSeconds 1)), lateDisk) := Prod.ext (by decide +kernel) rfl

theorem consistent_lockedDisk : newArchive.Consistent ["data"] lockedDisk := by
  have written := (runs_writtenDisk.consistent isFresh_newDisk).1
  have locked : Edits (IsBesideSummary ["data"]) writtenDisk lockedDisk :=
    Disk.edits_put (k := ["data"]) (.inr rfl) isName_lock written.leads.directory (by decide +kernel) []
  exact (written.of_edits (.refl _) locked (fun j m => not_isBesideSummary j m _) (not_isBesideSummary_summary _)).1

theorem failed_write_locked :
    newArchive.HalfDone ["data"] "eth0" 6 [newFlow] [describe 6 [newFlow]] lockedDisk lateDisk := by
  have ended : (newArchive.writeBlock [] "eth0" 6 [newFlow]).Ends (fun _ => False) lockedDisk
      (.error (.lockTimeout (.ofSeconds 1))) lateDisk := by
    have ran := Script.ends_run (fun _ => False) (newArchive.writeBlock [] "eth0" 6 [newFlow]).script lockedDisk
    have late : (newArchive.writeBlock [] "eth0" 6 [newFlow]).script.run lockedDisk = _ := late_write
    rwa [late] at ran
  rcases failed_write consistent_lockedDisk (fun _ allowed => allowed) ended with
    ⟨-, cause, -⟩ | ⟨-, g, cause⟩ | ⟨half, -⟩
  · rcases cause with ⟨r, same⟩ | ⟨g, same⟩ <;> cases same
  · cases cause
  · exact half

/-- A write that waits for the lock in vain is not undone: its block is listed, but not in the summary. When the lock
is free again, the write is refused because of the block that it has left. -/
theorem late_write_stays :
    (newArchive.writeBlock [] "eth0" 6 [newFlow]).runOn lockedDisk = (.error (.lockTimeout (.ofSeconds 1)), lateDisk) ∧
    (newArchive.blocksInRange .any .sinceEpoch).runOn lockedDisk = (.ok [writtenBlock "eth0" "/data"], lockedDisk) ∧
    (newArchive.blocksInRange .any .sinceEpoch).runOn lateDisk =
      (.ok [writtenBlock "eth0" "/data", ⟨"eth0", ⟨["/data", "eth0", "0"]⟩, describe 6 [newFlow]⟩], lateDisk) ∧
    (newArchive.readSummary.runOn lateDisk).1.toOption.bind (·.get? "eth0") = some ⟨1, 7, 5⟩ ∧
    ((newArchive.writeBlock [] "eth0" 6 [newFlow]).runOn (lateDisk.remove newArchive.lockPath).2).1 =
      .error (.refused (.blockExists 6 "eth0")) := by
  refine ⟨late_write, ?_, ?_, by decide +kernel, by decide +kernel⟩
  · exact Prod.ext (by decide +kernel) (reads_blocksInRange _ _ _ _)
  · exact Prod.ext (by decide +kernel) (reads_blocksInRange _ _ _ _)

end Archive

end FlowArchive
