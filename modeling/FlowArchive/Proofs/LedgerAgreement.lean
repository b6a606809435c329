import FlowArchive.Proofs.Cleaning
import FlowArchive.Proofs.SummaryDocument
import FlowArchive.Proofs.Writing

/-!
# The ledger agrees with the blocks

Whatever blocks are written, cleaned or wiped, in whatever order, the summary states of each interface what the
indexes of its partitions list. Each call keeps this: writing adds one block to one index and to the summary,
cleaning takes the same blocks from both, and wiping empties both.
-/

namespace FlowArchive

open FlowArchive.Path (IsName)
open Disk (Extends)
open InterfaceSummary (Agrees)

/-! ## What is listed after a change -/

namespace Disk

variable {b c d e : Disk} {l : Location} {i j n m : String}

/-- New directories list nothing. -/
theorem listed_extends (tree : d.IsTree l) (extended : Extends d e) (i : String) :
    (e.listed l i).Perm (d.listed l i) := by
  have same : ∀ n, d.indexAt l i n = e.indexAt l i n := by
    intro n
    rw [indexAt, indexAt, extended.content?]
  have kept := listed_kept (d := e) (e := d) (l := l) (i := i)
    (fun n => decide (d.at? (l ++ [i, n]) = some .directory)) (fun n => ?_) fun n _ => same n
  · refine (listed_filter e l i fun n => decide (d.at? (l ++ [i, n]) = some .directory)).trans ?_
    have new : ((e.partitionNames l i).filter fun n => !decide (d.at? (l ++ [i, n]) = some .directory)).flatMap
        (e.indexAt l i) = [] := by
      refine List.flatMap_eq_nil_iff.2 fun n member => ?_
      have absent := (List.mem_filter.1 member).2
      rw [← same]
      refine indexAt_of_absent ?_
      by_contra there
      have parent := (tree [i, n] Archive.indexName (by simpa using there)).2
      simp [parent] at absent
    rw [new, List.nil_append]
    exact kept
  · rw [mem_partitionNames, mem_partitionNames, decide_eq_true_iff]
    constructor
    · rintro ⟨there, day⟩
      exact ⟨⟨extended.keepsDirectories.kept _ there, day⟩, there⟩
    · rintro ⟨⟨-, day⟩, there⟩
      exact ⟨there, day⟩

end Disk

namespace Archive

variable {a : Archive} {token : LockToken} {b c d e : Disk} {l : Location} {i j n m : String} {t : Timestamp}
  {fs : List Flow} {x : Descriptor} {s : Summary}

theorem Stored.listed (stored : a.Stored l s d e) (i : String) : (e.listed l i).Perm (d.listed l i) :=
  Disk.listed_of_below (fun i n rest => stored.rest _ (not_isLedgerFile l i n rest)) i

theorem Filed.mem_partitionNames (filed : Filed (l ++ [i, n]) t fs d e) (j m : String) :
    m ∈ e.partitionNames l j ↔ m ∈ d.partitionNames l j := by
  rw [Disk.mem_partitionNames, Disk.mem_partitionNames, filed.rest _ (by simp) (by simp) (by simp)]

theorem Filed.index_other (filed : Filed (l ++ [i, n]) t fs d e) (other : ¬ (j = i ∧ m = n)) :
    e.at? (l ++ [j, m, indexName]) = d.at? (l ++ [j, m, indexName]) := by
  refine filed.rest _ ?_ ?_ ?_ <;>
  · intro same
    simp only [List.append_assoc, List.cons_append, List.nil_append, List.append_cancel_left_eq, List.cons.injEq] at same
    exact other ⟨same.1, same.2.1⟩

theorem Filed.index_own (filed : Filed (l ++ [i, n]) t fs d e)
    (flawless : ∀ s, d.content? (l ++ [i, n, indexName]) = some s → ∃ ds, s = Index.write ds) :
    e.content? (l ++ [i, n, indexName]) = some (Index.write (d.indexAt l i n ++ [describe t fs])) := by
  have place : l ++ [i, n] ++ [indexName] = l ++ [i, n, indexName] := by simp
  have index := filed.index
  rw [place] at index
  rw [Disk.content?_eq_some.2 index, Index.write_append, Disk.indexAt]
  cases stored : d.content? (l ++ [i, n, indexName]) with
  | none => rfl
  | some old =>
    obtain ⟨ds, rfl⟩ := flawless old stored
    simp only [Option.getD_some, Option.map_some, Index.readPrefix_write_nil]

theorem Filed.indexAt_own (filed : Filed (l ++ [i, n]) t fs d e)
    (flawless : ∀ s, d.content? (l ++ [i, n, indexName]) = some s → ∃ ds, s = Index.write ds) :
    e.indexAt l i n = d.indexAt l i n ++ [describe t fs] := by
  rw [Disk.indexAt, filed.index_own flawless, Option.map_some, Option.getD_some, Index.readPrefix_write_nil]

/-- Writing a block adds it to what its interface lists, and to no other interface. -/
theorem Filed.listed_own (filed : Filed (l ++ [i, n]) t fs d e) (there : d.at? (l ++ [i, n]) = some .directory)
    (day : (partitionDay? n).isSome)
    (flawless : ∀ s, d.content? (l ++ [i, n, indexName]) = some s → ∃ ds, s = Index.write ds) :
    (e.listed l i).Perm (d.listed l i ++ [describe t fs]) := by
  have here : n ∈ d.partitionNames l i := Disk.mem_partitionNames.2 ⟨there, day⟩
  refine Disk.listed_append (n := n) ?_ ?_ ?_ ?_ (filed.indexAt_own flawless)
  · exact (filed.mem_partitionNames i n).2 here
  · exact fun m _ => filed.mem_partitionNames i m
  · exact fun absent => absurd here absent
  · exact fun m other => Disk.indexAt_congr (filed.index_other fun same => other same.2)

theorem Filed.listed_other (filed : Filed (l ++ [i, n]) t fs d e) (other : j ≠ i) :
    (e.listed l j).Perm (d.listed l j) :=
  Disk.listed_congr (filed.mem_partitionNames j) fun _ _ =>
    Disk.indexAt_congr (filed.index_other fun same => other same.1)

/-! ## Agreement -/

/-- The entry of an interface in the summary that is stored; without a summary there is none. -/
def entryAt (d : Disk) (l : Location) (i : String) : Option InterfaceSummary := ((d.summaryAt l).getD .empty).get? i

/-- The directory of an archive is a tree in which every index can be read, and the summary agrees with the blocks that
the indexes list before their first flaws. -/
structure Balanced (a : Archive) (l : Location) (d : Disk) : Prop where
  leads : d.LeadsTo a.root l
  tree : d.IsTree l
  readable : ∀ i n, d.content? (l ++ [i, n, indexName]) ≠ none → a.Readable i n
  agrees : ∀ i, Agrees (entryAt d l i) (d.listed l i)

/-- The directory of an archive is a tree in which every index is flawless and can be read, and the summary agrees
with the blocks that the indexes list. -/
structure Consistent (a : Archive) (l : Location) (d : Disk) : Prop where
  leads : d.LeadsTo a.root l
  tree : d.IsTree l
  readable : ∀ i n, d.content? (l ++ [i, n, indexName]) ≠ none → a.Readable i n
  flawless : ∀ i n s, d.content? (l ++ [i, n, indexName]) = some s → ∃ ds, s = Index.write ds
  agrees : ∀ i, Agrees (entryAt d l i) (d.listed l i)

theorem Consistent.balanced (consistent : a.Consistent l d) : a.Balanced l d :=
  ⟨consistent.leads, consistent.tree, consistent.readable, consistent.agrees⟩

theorem entryAt_of_summaryAt (summary : d.summaryAt l = some s) (i : String) : entryAt d l i = s.get? i := by
  rw [entryAt, summary, Option.getD_some]

theorem Stored.entryAt (stored : a.Stored l s d e) (i : String) : Archive.entryAt e l i = s.get? i :=
  entryAt_of_summaryAt stored.summaryAt i

theorem get?_append (old : Option Summary) (i j : String) (x : Descriptor) :
    (Summary.append old i x).get? j =
      if j = i then some (InterfaceSummary.add ((old.getD .empty).get? j) x) else (old.getD .empty).get? j := by
  rw [Summary.append, Summary.get?, Table.get?_alter]
  split
  next same => rw [same, Summary.get?]
  · rfl

/-- What is listed after a block was written: the block, and what was listed before. -/
theorem Consistent.listed_write (before : a.Consistent l d)
    (wrote : (a.writeBlock token i t fs).runOn d = (.ok x, e)) (j : String) :
    (e.listed l j).Perm (if j = i then d.listed l j ++ [x] else d.listed l j) := by
  obtain ⟨-, rfl, -, b, c, extended, there, -, filed, stored⟩ := writeBlock_ok before.leads wrote
  have old := Disk.listed_extends before.tree extended j
  split
  next here =>
    subst here
    have flawless : ∀ s, b.content? (l ++ [j, partitionName t.startOfDay, indexName]) = some s →
        ∃ ds, s = Index.write ds := fun s held => before.flawless _ _ s ((extended.content? _).symm.trans held)
    have own := filed.listed_own there (by rw [partitionDay?_partitionName]; rfl) flawless
    exact ((stored.listed j).trans own).trans (old.append_right _)
  next other => exact ((stored.listed j).trans (filed.listed_other other)).trans old

/-- The index of the partition of a block that was written has one more entry, and the other indexes stay. -/
theorem Consistent.index_write (before : a.Consistent l d) (wrote : (a.writeBlock token i t fs).runOn d = (.ok x, e))
    (j m : String) : e.content? (l ++ [j, m, indexName]) =
      if j = i ∧ m = partitionName t.startOfDay then some (Index.write (d.indexAt l j m ++ [x]))
      else d.content? (l ++ [j, m, indexName]) := by
  obtain ⟨-, rfl, -, b, c, extended, -, -, filed, stored⟩ := writeBlock_ok before.leads wrote
  rw [Disk.content?_congr (stored.rest _ (not_isLedgerFile l j m [indexName]))]
  split
  next here =>
    obtain ⟨rfl, rfl⟩ := here
    have flawless : ∀ s, b.content? (l ++ [j, partitionName t.startOfDay, indexName]) = some s →
        ∃ ds, s = Index.write ds := fun s held => before.flawless _ _ s ((extended.content? _).symm.trans held)
    rw [filed.index_own flawless, Disk.indexAt, Disk.indexAt, extended.content?]
  next other => rw [Disk.content?_congr (filed.index_other other), extended.content?]

theorem Consistent.indexAt_write (before : a.Consistent l d)
    (wrote : (a.writeBlock token i t fs).runOn d = (.ok x, e)) (j m : String) : e.indexAt l j m =
      if j = i ∧ m = partitionName t.startOfDay then d.indexAt l j m ++ [x] else d.indexAt l j m := by
  rw [Disk.indexAt, before.index_write wrote]
  split
  · rw [Option.map_some, Option.getD_some, Index.readPrefix_write_nil]
  · rw [Disk.indexAt]

/-- Writing a block keeps the agreement, if the sums still fit. -/
theorem Consistent.write (before : a.Consistent l d) (wrote : (a.writeBlock token i t fs).runOn d = (.ok x, e))
    (fits : Index.Fits (e.listed l i)) : a.Consistent l e ∧ ∃ s c, a.Stored l s c e := by
  have listed := before.listed_write wrote
  have indexes := before.index_write wrote
  obtain ⟨-, rfl, readable, b, c, extended, -, -, filed, stored⟩ := writeBlock_ok before.leads wrote
  have summary : c.summaryAt l = d.summaryAt l := by
    have kept : c.content? (l ++ [summaryName]) = b.content? (l ++ [summaryName]) :=
      Disk.content?_congr (filed.rest _ (by simp) (by simp) (by simp))
    rw [Disk.summaryAt, Disk.summaryAt, kept, extended.content?]
  refine ⟨?_, _, c, stored⟩
  constructor
  case leads =>
    exact before.leads.mono ((extended.keepsDirectories.trans filed.keeps).trans stored.keepsDirectories)
  case tree => exact stored.tree l (filed.tree l (extended.isTree before.tree))
  case readable =>
    intro j m held
    by_cases here : j = i ∧ m = partitionName t.startOfDay
    · rw [here.1, here.2]
      exact readable
    · rw [indexes, if_neg here] at held
      exact before.readable j m held
  case flawless =>
    intro j m s held
    by_cases here : j = i ∧ m = partitionName t.startOfDay
    · rw [indexes, if_pos here] at held
      exact ⟨_, (Option.some.inj held).symm⟩
    · rw [indexes, if_neg here] at held
      exact before.flawless j m s held
  case agrees =>
    intro j
    have now := listed j
    rw [stored.entryAt, get?_append, summary]
    by_cases here : j = i
    · rw [if_pos here] at now ⊢
      rw [here] at now ⊢
      exact ((before.agrees i).add _ (fits.perm now)).perm now.symm
    · rw [if_neg here] at now ⊢
      exact (before.agrees j).perm now.symm

/-! ## Cleaning -/

theorem get?_reconcileInterface (s : Summary) (r : String × Sweep) (j : String) :
    (SweepReport.reconcileInterface s r).get? j = if j = r.1 then r.2.reduced (s.get? j) else s.get? j := by
  rw [SweepReport.reconcileInterface, Summary.get?, Table.get?_alter]
  split
  next same =>
    rw [same]
    rfl
  · rfl

/-- The sweep of an interface changes its entry and no other. -/
theorem get?_reconcile {names : List String} {rs : List (String × Sweep)} {R : String → String × Sweep → Prop}
    (named : ∀ i r, R i r → r.1 = i) (distinct : names.Nodup) (reports : List.Forall₂ R names rs) (s : Summary)
    (j : String) : (j ∉ names ∧ (SweepReport.reconcile ⟨rs⟩ s).get? j = s.get? j) ∨
      ∃ r, j ∈ names ∧ R j r ∧ (SweepReport.reconcile ⟨rs⟩ s).get? j = r.2.reduced (s.get? j) := by
  induction reports generalizing s with
  | nil => exact .inl ⟨List.not_mem_nil, rfl⟩
  | @cons i r others rs first _ ih =>
    obtain ⟨unseen, distinct⟩ := List.nodup_cons.1 distinct
    have own := get?_reconcileInterface s r j
    rw [named i r first] at own
    have step : SweepReport.reconcile ⟨r :: rs⟩ s = SweepReport.reconcile ⟨rs⟩ (SweepReport.reconcileInterface s r) :=
      rfl
    rw [step]
    rcases ih distinct (SweepReport.reconcileInterface s r) with ⟨absent, same⟩ | ⟨r', listed, reported, same⟩
    · by_cases here : j = i
      · subst here
        rw [if_pos rfl] at own
        exact .inr ⟨r, List.mem_cons_self, first, same.trans own⟩
      · rw [if_neg here] at own
        exact .inl ⟨fun listed => absent ((List.mem_cons.1 listed).resolve_left here), same.trans own⟩
    · have here : j ≠ i := fun same => unseen (same ▸ listed)
      rw [if_neg here] at own
      rw [own] at same
      exact .inr ⟨r', List.mem_cons_of_mem _ listed, reported, same⟩

/-- Where indexes can be read, the paths of partitions lead to what the disk lists. -/
theorem blocksOf_eq (leads : d.LeadsTo a.root l) (tree : d.IsTree l)
    (readable : ∀ i n, d.content? (l ++ [i, n, indexName]) ≠ none → a.Readable i n) (name : IsName i)
    (p : String → Bool) :
    a.blocksOf d i ((d.partitionNames l i).filter p) = ((d.partitionNames l i).filter p).flatMap (d.indexAt l i) := by
  refine List.flatMap_congr fun n member => ?_
  have name' := Disk.isName_of_mem_partitionNames (List.mem_of_mem_filter member)
  exact indexOf_eq_indexAt leads tree name name' (readable i n)

/-- Cleaning takes the same blocks from the disk and from the summary. -/
theorem Balanced.clean {now cutoff : Timestamp} {report : SweepReport} (before : a.Balanced l d)
    (cleaned : (a.clean token now cutoff).runOn d = (.ok report, e)) : a.Balanced l e := by
  obtain ⟨names, c, old, swept, summary, stored⟩ := clean_ok before.leads before.tree cleaned
  have loses := swept.loses
  have summary' : d.summaryAt l = some old := swept.summaryAt.symm.trans summary
  constructor
  case leads => exact swept.leads.mono stored.keepsDirectories
  case tree => exact clean_isTree before.leads before.tree cleaned
  case readable =>
    intro i n held
    obtain ⟨s, held⟩ := Option.ne_none_iff_exists'.1 held
    exact before.readable i n (by rw [stored.content?_before loses held]; simp)
  case agrees =>
    intro j
    have agreed := before.agrees j
    rw [entryAt_of_summaryAt summary'] at agreed
    rw [stored.entryAt]
    have same : ∀ n ∈ e.partitionNames l j, e.indexAt l j n = d.indexAt l j n := by
      intro n member
      have fresh := ((stored.mem_partitionNames loses j n).1 member).2
      refine Disk.indexAt_congr (stored.at?_of_not_isStale loses (fun stale => ?_) [indexName])
      simp [stale.2] at fresh
    have kept := Disk.listed_kept _ (stored.mem_partitionNames loses j) same
    rcases get?_reconcile (fun _ _ reports => reports.name) swept.distinct swept.reports old j with
      ⟨absent, unchanged⟩ | ⟨r, listed, reported, changed⟩
    · rw [unchanged]
      refine agreed.perm ((Disk.listed_congr (fun n => ?_) same).symm)
      rw [stored.mem_partitionNames loses, and_iff_left_of_imp]
      intro member
      have there := (Disk.mem_partitionNames.1 member).1
      have parent := before.tree.parent (by rw [there]; simp)
      exact absurd ((swept.all j).2 parent) absent
    · have there := (swept.all j).1 listed
      have name := before.tree.isName there
      have counts := reported.counts
      have blocks := blocksOf_eq before.leads before.tree before.readable name
      rw [blocks, blocks] at counts
      have parts := Disk.listed_filter d l j fun n => !isEarlier cutoff.startOfDay n
      simp only [Bool.not_not] at parts
      rw [changed]
      exact (counts.agrees (agreed.perm parts)).perm kept

/-- Cleaning keeps the agreement. -/
theorem Consistent.clean {now cutoff : Timestamp} {report : SweepReport} (before : a.Consistent l d)
    (cleaned : (a.clean token now cutoff).runOn d = (.ok report, e)) : a.Consistent l e ∧ ∃ s c, a.Stored l s c e := by
  have balanced := before.balanced.clean cleaned
  obtain ⟨names, c, old, swept, -, stored⟩ := clean_ok before.leads before.tree cleaned
  refine ⟨⟨balanced.leads, balanced.tree, balanced.readable, fun i n s held => ?_, balanced.agrees⟩, _, c, stored⟩
  exact before.flawless i n s (stored.content?_before swept.loses held)

/-! ## Wiping -/

/-- Wiping keeps the agreement: nothing is listed, and the summary is empty. -/
theorem Consistent.wipe {count : Nat} (before : a.Consistent l d) (wiped : (a.wipe token).runOn d = (.ok count, e)) :
    a.Consistent l e ∧ ∃ s c, a.Stored l s c e := by
  obtain ⟨c, loses, leads, stored⟩ := wipe_ok before.leads before.tree wiped
  have treeC : c.IsTree l := by
    refine before.tree.loses loses ?_
    rintro m x ⟨i, there, below⟩ -
    exact ⟨i, there, below.trans (List.prefix_append _ _)⟩
  have gone := stored.at?_of_wiped before.tree loses
  have empty : ∀ i n, e.content? (l ++ [i, n, indexName]) = none := by
    intro i n
    rw [Disk.content?, gone]
  refine ⟨?_, _, c, stored⟩
  constructor
  case leads => exact leads.mono stored.keepsDirectories
  case tree => exact stored.tree l treeC
  case readable => exact fun i n held => absurd (empty i n) held
  case flawless =>
    intro i n s held
    rw [empty] at held
    cases held
  case agrees =>
    intro i
    have listed : e.listed l i = [] := Disk.listed_eq_nil fun n => by rw [gone]; simp
    rw [stored.entryAt, listed]
    rfl

/-! ## Runs -/

/-- A call that changes an archive. -/
inductive Call where
  | write (token : LockToken) (interface : String) (time : Timestamp) (flows : List Flow)
  | clean (token : LockToken) (now cutoff : Timestamp)
  | wipe (token : LockToken)

/-- A call succeeds on a disk and leaves another. -/
def Succeeds (a : Archive) (d e : Disk) : Call → Prop
  | .write token interface time flows => ∃ x, (a.writeBlock token interface time flows).runOn d = (.ok x, e)
  | .clean token now cutoff => ∃ report, (a.clean token now cutoff).runOn d = (.ok report, e)
  | .wipe token => ∃ count, (a.wipe token).runOn d = (.ok count, e)

/-- A run of calls that succeed one after the other. After each of them, the true sums of flows and traffic of each
interface fit a word. -/
inductive Runs (a : Archive) (l : Location) (d : Disk) : List Call → Disk → Prop where
  | start : Runs a l d [] d
  | call {calls : List Call} {c e : Disk} {call : Call} (before : Runs a l d calls c) (succeeds : a.Succeeds c e call)
      (fits : ∀ i, Index.Fits (e.listed l i)) : Runs a l d (calls ++ [call]) e

/-- An archive that was just made: its directory is empty. -/
structure IsFresh (a : Archive) (l : Location) (d : Disk) : Prop where
  leads : d.LeadsTo a.root l
  empty : ∀ m, m ≠ [] → d.at? (l ++ m) = none

theorem IsFresh.listed (fresh : a.IsFresh l d) (i : String) : d.listed l i = [] :=
  Disk.listed_eq_nil fun n => by rw [fresh.empty _ (by simp)]; simp

theorem IsFresh.consistent (fresh : a.IsFresh l d) : a.Consistent l d := by
  have none : ∀ i n, d.content? (l ++ [i, n, indexName]) = none := by
    intro i n
    rw [Disk.content?, fresh.empty _ (by simp)]
  constructor
  case leads => exact fresh.leads
  case tree =>
    intro m x there
    rw [List.append_assoc] at there
    exact absurd (fresh.empty (m ++ [x]) (by simp)) there
  case readable => exact fun i n held => absurd (none i n) held
  case flawless =>
    intro i n s held
    rw [none] at held
    cases held
  case agrees =>
    intro i
    have summary : d.summaryAt l = .none := by
      rw [Disk.summaryAt, Disk.content?, fresh.empty _ (by simp)]
      rfl
    rw [entryAt, summary, fresh.listed]
    rfl

/-- One call that succeeds keeps the agreement, and leaves a summary. -/
theorem Consistent.call {call : Call} (before : a.Consistent l d) (succeeds : a.Succeeds d e call)
    (fits : ∀ i, Index.Fits (e.listed l i)) : a.Consistent l e ∧ ∃ s c, a.Stored l s c e := by
  cases call with
  | write token interface time flows =>
    obtain ⟨x, wrote⟩ := succeeds
    exact before.write wrote (fits interface)
  | clean token now cutoff =>
    obtain ⟨report, cleaned⟩ := succeeds
    exact before.clean cleaned
  | wipe token =>
    obtain ⟨count, wiped⟩ := succeeds
    exact before.wipe wiped

/-- Whatever calls succeed on a new archive, they keep the agreement; after the first there is a summary. -/
theorem Runs.consistent {calls : List Call} (fresh : a.IsFresh l d) (runs : a.Runs l d calls e) :
    a.Consistent l e ∧ (calls ≠ [] → ∃ s c, a.Stored l s c e) := by
  induction runs with
  | start => exact ⟨fresh.consistent, fun filled => absurd rfl filled⟩
  | call before succeeds fits ih =>
    obtain ⟨consistent, stored⟩ := ih.1.call succeeds fits
    exact ⟨consistent, fun _ => stored⟩

theorem Stored.readSummary (stored : a.Stored l s d e) (leads : e.LeadsTo a.root l) :
    a.readSummary.runOn e = (.ok s, e) := by
  have held : e.read a.summaryPath = .ok s.write := Disk.read_join leads isName_summary stored.fine stored.summary
  have asked : e.perform (.read a.summaryPath) = (e.read a.summaryPath, e) := rfl
  have read : a.storedSummary.runOn e = (.ok (some s), e) := by
    rw [storedSummary, Action.runOn_asked, asked, held]
    simp only [Summary.read_write]
    rfl
  rw [Archive.readSummary, Action.runOn_bind_of_ok read]
  rfl

/-- After any run of writes, cleanings and wipes on a new archive, in any order, the summary can be read. It has an
entry for an interface if and only if an index of the interface lists a block. The entry states the exact sums of the
flows and the traffic of all blocks that the indexes list, and the time of the earliest. -/
theorem summary_agrees {calls : List Call} (fresh : a.IsFresh l d) (runs : a.Runs l d calls e) (some : calls ≠ []) :
    ∃ s, a.readSummary.runOn e = (.ok s, e) ∧ ∀ i,
      ((s.get? i).isSome = true ↔ ∃ n ∈ e.partitionNames l i, e.indexAt l i n ≠ []) ∧
      ∀ v, s.get? i = .some v → v.flows.toNat = Index.flowSum (e.listed l i) ∧
        v.traffic.toNat = Index.trafficSum (e.listed l i) ∧ Index.IsFirst v.first (e.listed l i) := by
  obtain ⟨consistent, summarized⟩ := runs.consistent fresh
  obtain ⟨s, c, stored⟩ := summarized some
  refine ⟨s, stored.readSummary consistent.leads, fun i => ?_⟩
  have agrees := consistent.agrees i
  rw [stored.entryAt] at agrees
  refine ⟨?_, fun v entry => ?_⟩
  · rw [agrees.isSome_iff, Disk.listed, Ne, List.flatMap_eq_nil_iff]
    simp
  · rw [entry] at agrees
    exact agrees

/-! ### A new archive and its first block -/

def newArchive : Archive := ⟨.ofText "/data", .ofSeconds 1⟩

/-- A disk that holds one empty directory. -/
def newDisk : Disk := (⟨[], .empty⟩ : Disk).put ["data"] .directory

def newFlow : Flow := ⟨.v4 1, .v4 2, 80, 6, ⟨1, 2, 3, 4⟩⟩

/-- The disk after one block. -/
def writtenDisk : Disk := ((newArchive.writeBlock [] "eth0" 5 [newFlow]).runOn newDisk).2

theorem isFresh_newDisk : newArchive.IsFresh ["data"] newDisk := by
  refine ⟨⟨Action.toOption_eq_some.1 (by decide +kernel), by decide +kernel⟩, fun m filled => ?_⟩
  rw [newDisk, Disk.at?_put _ (by simp), if_neg (by simpa using filled)]
  exact Disk.at?_of_ne_nil _ (by simp)

theorem present_newDisk : (newArchive.checkExists.runOn newDisk).1 = .ok () :=
  Action.toOption_eq_some.1 (by decide +kernel)

theorem writeBlock_newDisk : (newArchive.writeBlock [] "eth0" 5 [newFlow]).runOn newDisk =
    (.ok (describe 5 [newFlow]), writtenDisk) := Prod.ext (Action.toOption_eq_some.1 (by decide +kernel)) rfl

theorem runs_writtenDisk : newArchive.Runs ["data"] newDisk [.write [] "eth0" 5 [newFlow]] writtenDisk := by
  have fits : ∀ i, Index.Fits (writtenDisk.listed ["data"] i) := by
    intro i
    refine Index.Fits.perm ?_ (isFresh_newDisk.consistent.listed_write writeBlock_newDisk i).symm
    rw [isFresh_newDisk.listed]
    split
    · exact ⟨by decide +kernel, by decide +kernel⟩
    · exact ⟨by decide +kernel, by decide +kernel⟩
  exact .call .start ⟨_, writeBlock_newDisk⟩ fits

theorem summary_agrees_first_block :
    ∃ s, newArchive.readSummary.runOn writtenDisk = (.ok s, writtenDisk) ∧ ∀ i,
      ((s.get? i).isSome = true ↔ ∃ n ∈ writtenDisk.partitionNames ["data"] i, writtenDisk.indexAt ["data"] i n ≠ []) ∧
      ∀ v, s.get? i = some v → v.flows.toNat = Index.flowSum (writtenDisk.listed ["data"] i) ∧
        v.traffic.toNat = Index.trafficSum (writtenDisk.listed ["data"] i) ∧
        Index.IsFirst v.first (writtenDisk.listed ["data"] i) :=
  summary_agrees isFresh_newDisk runs_writtenDisk (by simp)

end Archive

end FlowArchive
