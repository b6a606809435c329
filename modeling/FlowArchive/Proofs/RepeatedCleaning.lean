import FlowArchive.Proofs.FailedWrite

/-!
# Cleanings that are repeated

A cleaning removes partitions before it asks for the lock of the summary. If it waits for the lock in vain, nothing on
the disk tells any more how much the partitions held. A cleaning that is repeated finds nothing to remove: the tree
becomes what it would be if the first had succeeded, but the summary counts what the first removed for ever.
-/

namespace FlowArchive

open Disk (Edits)
open InterfaceSummary (Agrees)
open Index (flowSum trafficSum IsFirst?)

variable {b c d e f : Disk} {p : Path}

/-! ## Waiting in vain -/

namespace Disk

theorem walk_ne_present (d : Disk) (l : Location) (names : List String) : d.walk l names ≠ .error .present := by
  induction names generalizing l with
  | nil => simp [walk]
  | cons name rest ih =>
    rw [walk]
    split
    · simp
    · simp
    · split
      · exact ih l
      · split
        · exact ih l.dropLast
        · split
          · simp
          · exact ih (l ++ [name])

theorem locate_ne_present (d : Disk) (p : Path) : d.locate p ≠ .error .present := by
  have text : textFault? p ≠ some .present := by
    unfold textFault?
    split
    · simp
    · split
      · simp
      · split <;> simp
  unfold locate
  split
  next g found =>
    rintro ⟨⟩
    exact text found
  · exact walk_ne_present d _ _

/-- A file is refused as present only if its path leads somewhere. -/
theorem find_of_present (refused : d.create p = (.error .present, e)) : ∃ r, d.find p = .ok r := by
  cases place : d.locate p with
  | ok k => exact ⟨_, by rw [find, place]; rfl⟩
  | error g =>
    have found : d.find p = .error g := by rw [find, place]; rfl
    rw [create, found] at refused
    cases refused
    exact absurd place (locate_ne_present d p)

end Disk

/-- The lock could not be had in time. -/
def Failure.IsLate (x : Failure) : Prop := ∃ limit, x = .lockTimeout limit

theorem Failure.not_isLate_fault (g : Fault) : ¬ (Failure.fault g).IsLate := by simp [IsLate]

namespace Archive

open Failure (not_isLate_fault)
open FlowArchive.Action (avoids_pure avoids_ask avoids_bind)

variable {a : Archive} {token token' token'' : LockToken} {limit : Duration} {day : Timestamp} {l m : Location}
  {i n : String} {names : List String} {report : SweepReport}

theorem avoids_checkExists (a : Archive) : a.checkExists.Avoids Failure.IsLate := by
  unfold checkExists
  split
  · exact Action.avoids_fail (by simp [Failure.IsLate])
  · refine avoids_bind (Action.avoids_kind a.root) fun k => ?_
    split
    · exact avoids_pure ()
    · exact Action.avoids_fail (by simp [Failure.IsLate])
    · exact Action.avoids_fail (by simp [Failure.IsLate])

theorem avoids_sweepEntry (day : Timestamp) (s : Sweep) (x : StoreEntry) :
    (sweepEntry day s x).Avoids Failure.IsLate := by
  cases x with
  | file name => exact avoids_pure _
  | foreign name => exact avoids_pure _
  | partition t path =>
    refine avoids_bind (Action.avoids_ofScript _) fun ds => ?_
    split
    · exact avoids_bind (avoids_ask not_isLate_fault _) fun _ => avoids_pure _
    · exact avoids_pure _

theorem avoids_sweepEntries (day : Timestamp) (s : Sweep) (es : List StoreEntry) :
    (sweepEntries day s es).Avoids Failure.IsLate := by
  induction es generalizing s with
  | nil => exact avoids_pure s
  | cons x rest ih => exact avoids_bind (avoids_sweepEntry day s x) ih

theorem avoids_sweepInterface (a : Archive) (day : Timestamp) (i : String) :
    (a.sweepInterface day i).Avoids Failure.IsLate := by
  refine avoids_bind (avoids_bind (avoids_ask not_isLate_fault _) fun _ => avoids_pure _) fun es => ?_
  refine avoids_bind (avoids_sweepEntries day .start es) fun s => ?_
  split
  · exact avoids_bind (avoids_ask not_isLate_fault _) fun _ => avoids_pure _
  · exact avoids_bind (avoids_pure ()) fun _ => avoids_pure _

/-- Whoever waits for the lock in vain changes nothing. -/
theorem makeLock_late {retries : Nat} (late : (a.makeLock retries).runOn d = (.error (.lockTimeout limit), e)) :
    e = d ∧ ∃ l, d.LeadsTo a.root l := by
  have asked : ∀ c : Disk, c.perform (.create a.lockPath) = c.create a.lockPath := fun _ => rfl
  have taken : ∀ c, d.create a.lockPath = (.error .present, c) → ∃ l, d.LeadsTo a.root l := by
    intro c refused
    obtain ⟨r, found⟩ := Disk.find_of_present refused
    obtain ⟨l, leads, -, -⟩ := Disk.find_join_inv isName_lock found
    exact ⟨l, leads⟩
  induction retries with
  | zero =>
    rw [makeLock, Action.runOn_asked, asked] at late
    cases created : d.create a.lockPath with
    | mk outcome c =>
      rw [created] at late
      cases outcome with
      | ok => cases late
      | error g =>
        obtain rfl := create_error created
        cases g <;> cases late
        exact ⟨rfl, taken _ created⟩
  | succ retries ih =>
    rw [makeLock, Action.runOn_asked, asked] at late
    cases created : d.create a.lockPath with
    | mk outcome c =>
      rw [created] at late
      cases outcome with
      | ok => cases late
      | error g =>
        obtain rfl := create_error created
        cases g with
        | present => exact ih late
        | _ => cases late

theorem modify_late {change : Option Summary → Except Failure Summary}
    (good : ∀ old x, change old = .error x → ¬ x.IsLate)
    (late : (a.modify token change).runOn d = (.error (.lockTimeout limit), e)) : e = d ∧ ∃ l, d.LeadsTo a.root l := by
  have isLate : (Failure.lockTimeout limit).IsLate := ⟨limit, rfl⟩
  rcases Action.runOn_bind_error_iff.1 late with waited | ⟨⟨⟩, b, -, rest⟩
  · rcases Action.runOn_bind_error_iff.1 waited with unmade | ⟨⟨⟩, c, -, unmarked⟩
    · exact makeLock_late unmade
    · exact absurd isLate (avoids_ask not_isLate_fault _ _ _ _ unmarked)
  · -- Whoever has the lock waits for nothing more.
    rcases Action.runOn_bind_error_iff.1 rest with early | ⟨outcome, c, attempted, rest⟩
    · exact absurd isLate (Action.avoids_ofScript _ _ _ _ early)
    have applied := Action.runOn_attempt_ok_iff.1 attempted
    rcases Action.runOn_bind_error_iff.1 rest with early | ⟨⟨⟩, c', -, last⟩
    · exact absurd isLate (Action.avoids_ofScript _ _ _ _ early)
    · cases last
      exact absurd isLate (avoids_applyChange not_isLate_fault good _ _ _ applied)

/-- A cleaning that waits for the lock in vain has swept all interfaces, and has done nothing else. -/
theorem clean_late {now cutoff : Timestamp} (leads : d.LeadsTo a.root l) (tree : d.IsTree l)
    (late : (a.clean token now cutoff).runOn d = (.error (.lockTimeout limit), e)) :
    ∃ names report, a.Swept l cutoff.startOfDay names report d e := by
  have isLate : (Failure.lockTimeout limit).IsLate := ⟨limit, rfl⟩
  unfold clean at late
  split at late
  · rcases Action.runOn_bind_error_iff.1 late with early | ⟨⟨⟩, d', checked, rest⟩
    · exact absurd isLate (avoids_checkExists a _ _ _ early)
    obtain rfl := (reads_checkExists a).unchanged checked
    rcases Action.runOn_bind_error_iff.1 rest with early | ⟨names, c, found, rest⟩
    · have named : a.interfaceNames.Avoids Failure.IsLate :=
        avoids_bind (avoids_ask not_isLate_fault _) fun _ => avoids_pure _
      exact absurd isLate (named _ _ _ early)
    rcases Action.runOn_bind_error_iff.1 rest with early | ⟨rs, c', swept, rest⟩
    · exact absurd isLate (Action.avoids_forEach (avoids_sweepInterface a cutoff.startOfDay) names _ _ _ early)
    rcases Action.runOn_bind_error_iff.1 rest with unmodified | ⟨_, _, -, last⟩
    · obtain ⟨rfl, l', after⟩ := modify_late (fun old x failed => by cases old <;> cases failed; simp [Failure.IsLate])
        unmodified
      exact ⟨names, ⟨rs⟩, (sweeps_ok leads tree found swept after).2⟩
    · cases last
  · cases late

end Archive

/-! ## Nothing to sweep -/

namespace Disk

variable {day : Timestamp} {l : Location}

/-- There is nothing on a disk that a sweep takes away. -/
def IsClean (d : Disk) (l : Location) (day : Timestamp) : Prop := ∀ i m, ¬ d.IsSwept l day i m

theorem IsClean.not_isStale (clean : d.IsClean l day) (i n : String) : ¬ d.IsStale l day i n := fun stale =>
  clean i (l ++ [i, n]) (.inl ⟨n, stale, List.prefix_rfl⟩)

theorem IsClean.not_isEarlier (clean : d.IsClean l day) {i n : String} (member : n ∈ d.partitionNames l i) :
    Archive.isEarlier day n = false := by
  have there := (mem_partitionNames.1 member).1
  simpa [IsStale, there] using clean.not_isStale i n

end Disk

theorem InterfaceSummary.reduce_zero (v : InterfaceSummary) (t : Timestamp) :
    v.reduce 0 0 t = { v with first := t } := by
  have nothing : ∀ n : UInt64, subCapped n 0 = n := fun n => UInt64.toNat_inj.1 (by rw [subCapped_toNat]; rfl)
  rw [reduce, nothing, nothing]

/-- A sweep that has removed no block sets the first time of an entry, or drops the entry if there is no block. -/
theorem Sweep.Counts.reduced_of_nothing {s : Sweep} {rest : List Descriptor} (counts : s.Counts [] rest)
    (old : Option InterfaceSummary) :
    s.reduced old = s.first.bind fun t => old.map fun v => { v with first := t } := by
  have fits : Index.Fits [] := ⟨by decide, by decide⟩
  have flows : s.flows = 0 := UInt64.toNat_inj.1 (counts.flows_of_fits fits)
  have traffic : s.traffic = 0 := UInt64.toNat_inj.1 (counts.traffic_of_fits fits)
  unfold Sweep.reduced
  cases s.first with
  | none => rfl
  | some t => rw [flows, traffic, Option.bind_some]; simp only [InterfaceSummary.reduce_zero]

namespace Archive

variable {a : Archive} {token token' token'' : LockToken} {limit : Duration} {day : Timestamp} {l m : Location}
  {i n : String} {names : List String} {report : SweepReport}

/-- What has been swept is clean: a directory that stays holds something that was not stale, which stays, too. -/
theorem Swept.isClean (swept : a.Swept l day names report d e) : e.IsClean l day := by
  have fresh : ∀ i n, ¬ e.IsStale l day i n := by
    rintro i n ⟨there, earlier⟩
    have stale : d.IsStale l day i n := ⟨swept.loses.within.held _ _ there, earlier⟩
    rw [swept.loses.away _ (Disk.exists_isSwept_iff.2 stale)] at there
    cases there
  rintro i m (⟨n, stale, -⟩ | ⟨⟨there, stale⟩, rfl⟩)
  · exact fresh i n stale
  · have kept : ¬ d.IsAllStale l day i := by
      rw [← Disk.exists_isSwept_interface_iff]
      intro gone
      rw [swept.loses.away _ gone] at there
      cases there
    refine kept ⟨swept.loses.within.held _ _ there, fun n present => ?_⟩
    by_contra other
    rw [← swept.loses.rest (l ++ [i, n]) fun gone => other (Disk.exists_isSwept_iff.1 gone)] at present
    exact fresh i n (stale n present)

theorem Swept.at?_of_isClean (swept : a.Swept l day names report d e) (clean : d.IsClean l day) (m : Location) :
    e.at? m = d.at? m :=
  swept.loses.rest m fun ⟨i, gone⟩ => clean i m gone

/-- A cleaning that finds nothing to remove tells anew of each interface that is there when its blocks begin, and
forgets it if there are none. -/
theorem clean_nothing {now cutoff : Timestamp} (leads : d.LeadsTo a.root l) (tree : d.IsTree l)
    (readable : ∀ i n, d.content? (l ++ [i, n, indexName]) ≠ none → a.Readable i n)
    (clean : d.IsClean l cutoff.startOfDay) (cleaned : (a.clean token now cutoff).runOn d = (.ok report, e)) :
    (∃ s c, a.Stored l s c e ∧ ∀ m, c.at? m = d.at? m) ∧
    (∀ i, d.at? (l ++ [i]) = some .directory → ∃ first, IsFirst? first (d.listed l i) ∧
      entryAt e l i = first.bind fun t => (entryAt d l i).map fun v => { v with first := t }) ∧
    ∀ i, d.at? (l ++ [i]) ≠ some .directory → entryAt e l i = entryAt d l i := by
  obtain ⟨names, c, old, swept, summary, stored⟩ := clean_ok leads tree cleaned
  have before := entryAt_of_summaryAt (swept.summaryAt.symm.trans summary)
  have entry := get?_reconcile (fun _ _ reports => reports.name) swept.distinct swept.reports old
  refine ⟨⟨_, c, stored, swept.at?_of_isClean clean⟩, fun i there => ?_, fun i absent => ?_⟩
  · rcases entry i with ⟨unlisted, -⟩ | ⟨r, -, reported, changed⟩
    · exact absurd ((swept.all i).2 there) unlisted
    have blocks := blocksOf_eq leads tree readable (tree.isName there)
    have counts := reported.counts
    have gone : (d.partitionNames l i).filter (isEarlier cutoff.startOfDay) = [] :=
      List.filter_eq_nil_iff.2 fun n member => by simp [clean.not_isEarlier member]
    have rest : (d.partitionNames l i).filter (fun n => !isEarlier cutoff.startOfDay n) = d.partitionNames l i :=
      List.filter_eq_self.2 fun n member => by simp [clean.not_isEarlier member]
    rw [blocks, blocks, gone, rest] at counts
    refine ⟨r.2.first, counts.first, ?_⟩
    rw [stored.entryAt, before, changed]
    exact counts.reduced_of_nothing _
  · rcases entry i with ⟨-, unchanged⟩ | ⟨r, listed, -, -⟩
    · rw [stored.entryAt, before, unchanged]
    · exact absurd ((swept.all i).1 listed) absent

end Archive

/-! ## Once and again -/

/-- The blocks that the indexes of partitions of earlier days list. -/
def Disk.staleBlocks (d : Disk) (l : Location) (day : Timestamp) (i : String) : List Descriptor :=
  ((d.partitionNames l i).filter (Archive.isEarlier day)).flatMap (d.indexAt l i)

namespace InterfaceSummary

variable {old once again : Option InterfaceSummary} {gone rest : List Descriptor} {first : Option Timestamp}

/-- An entry states what another does, except that its sums count some more blocks. -/
def Overcounts (more : List Descriptor) : (once again : Option InterfaceSummary) → Prop
  | none, again => again = none
  | some v, again => ∃ w, again = some w ∧ w.first = v.first ∧ w.flows.toNat = v.flows.toNat + flowSum more ∧
      w.traffic.toNat = v.traffic.toNat + trafficSum more

/-- An entry that agreed with all blocks counts those that are gone when no more than its first time is set. -/
theorem Agrees.overcounts (before : Agrees old (gone ++ rest)) (after : Agrees once rest)
    (begins : IsFirst? first rest) :
    Overcounts gone once (first.bind fun t => old.map fun v => { v with first := t }) := by
  cases once with
  | none =>
    obtain rfl : rest = [] := after
    cases first with
    | none => rfl
    | some t =>
      obtain ⟨⟨x, member, -⟩, -⟩ := begins
      cases member
  | some v =>
    obtain ⟨flows, traffic, begin⟩ := after
    have filled : rest ≠ [] := by
      obtain ⟨⟨x, member, -⟩, -⟩ := begin
      exact List.ne_nil_of_mem member
    cases first with
    | none => exact absurd begins filled
    | some t =>
      cases old with
      | none => exact absurd (List.append_eq_nil_iff.1 before).2 filled
      | some u =>
        obtain ⟨flows', traffic', -⟩ := before
        rw [Index.flowSum_append, ← flows, Nat.add_comm] at flows'
        rw [Index.trafficSum_append, ← traffic, Nat.add_comm] at traffic'
        exact ⟨_, rfl, Index.IsFirst.unique begins begin, flows', traffic'⟩

/-- The two are the same only if nothing is counted too much. -/
theorem Overcounts.eq_iff (counts : Overcounts gone once again) :
    again = once ↔ (once ≠ none → flowSum gone = 0 ∧ trafficSum gone = 0) := by
  cases once with
  | none => exact iff_of_true counts fun present => absurd rfl present
  | some v =>
    obtain ⟨w, rfl, first, flows, traffic⟩ := counts
    constructor
    · intro same _
      cases same
      omega
    · intro nothing
      obtain ⟨noFlows, noTraffic⟩ := nothing (by simp)
      have same : w = v := by
        cases w
        cases v
        simp only [mk.injEq]
        exact ⟨UInt64.toNat_inj.1 (by simpa [noFlows] using flows),
          UInt64.toNat_inj.1 (by simpa [noTraffic] using traffic), first⟩
      rw [same]

end InterfaceSummary

namespace Archive

open InterfaceSummary (Overcounts)

variable {a : Archive} {token token' token'' : LockToken} {limit : Duration} {day cutoff now now' now'' : Timestamp}
  {c' d' : Disk} {l m : Location} {i n : String} {names names' : List String} {report report' : SweepReport}

/-- The file by which the summary of an archive is locked. -/
def IsLock (l m : Location) : Prop := m = l ++ [lockName]

theorem not_isLock (l : Location) (i n : String) (rest : List String) : ¬ IsLock l (l ++ i :: n :: rest) := by
  simp [IsLock]

/-- Whether the lock is there does not matter to what is swept. -/
theorem isSwept_of_lock (locks : Edits (IsLock l) d e) : e.IsSwept l day i m ↔ d.IsSwept l day i m :=
  Disk.isSwept_congr locks.directory_iff fun n => locks.rest _ (not_isLock l i n [])

theorem Swept.at?_of_not_isStale (swept : a.Swept l day names report d e) (fresh : ¬ d.IsStale l day i n)
    (rest : List String) : e.at? (l ++ i :: n :: rest) = d.at? (l ++ i :: n :: rest) :=
  swept.loses.rest _ fun gone => fresh (Disk.exists_isSwept_iff.1 gone)

/-- What was listed is stale, or listed after the sweep. -/
theorem Swept.listed_parts (swept : a.Swept l day names report d e) (i : String) :
    (d.listed l i).Perm (d.staleBlocks l day i ++ e.listed l i) := by
  have fresh : ∀ n, n ∈ e.partitionNames l i → ¬ d.IsStale l day i n := by
    intro n member stale
    have there := (Disk.mem_partitionNames.1 member).1
    rw [swept.loses.away _ (Disk.exists_isSwept_iff.2 stale)] at there
    cases there
  have kept := Disk.listed_kept (d := d) (e := e) (l := l) (i := i) (fun n => !isEarlier day n) (fun n => ?_) fun n member =>
    Disk.indexAt_congr (swept.at?_of_not_isStale (fresh n member) [indexName])
  · have parts := Disk.listed_filter d l i fun n => !isEarlier day n
    simp only [Bool.not_not] at parts
    exact parts.trans (kept.append_left _)
  · constructor
    · intro member
      have stays := fresh n member
      rw [Disk.mem_partitionNames, swept.at?_of_not_isStale stays []] at member
      refine ⟨Disk.mem_partitionNames.2 member, ?_⟩
      simpa [Disk.IsStale, member.1] using stays
    · rintro ⟨member, late⟩
      rw [Disk.mem_partitionNames] at member ⊢
      rwa [swept.at?_of_not_isStale (fun stale => by simp [stale.2] at late) []]

/-- Two sweeps, of a disk with and without the lock, leave the same. -/
theorem Swept.at?_of_lock (swept : a.Swept l day names report d c) (locks : Edits (IsLock l) d d')
    (swept' : a.Swept l day names' report' d' c') (other : ¬ IsLock l m) : c'.at? m = c.at? m := by
  by_cases gone : ∃ i, d.IsSwept l day i m
  · obtain ⟨i, lost⟩ := gone
    rw [swept.loses.away m ⟨i, lost⟩, swept'.loses.away m ⟨i, (isSwept_of_lock locks).2 lost⟩]
  · rw [swept.loses.rest m gone, swept'.loses.rest m fun ⟨i, lost⟩ => gone ⟨i, (isSwept_of_lock locks).1 lost⟩,
      locks.rest m other]

/-- A disk is as another up to the files of the ledger, of which there is no more than the summary. -/
structure Settled (l : Location) (d e : Disk) : Prop where
  rest : ∀ m, ¬ IsLedgerFile l m → e.at? m = d.at? m
  draft : e.at? (l ++ [summaryDraftName]) = none
  lock : e.at? (l ++ [lockName]) = none

theorem Stored.settled {s : Summary} (stored : a.Stored l s c e) (same : ∀ m, ¬ IsLedgerFile l m → c.at? m = d.at? m) :
    Settled l d e :=
  ⟨fun m other => (stored.rest m other).trans (same m other), stored.draft, stored.lock⟩

theorem Settled.at?_eq (first : Settled l d e) (second : Settled l d f) (other : m ≠ l ++ [summaryName]) :
    e.at? m = f.at? m := by
  by_cases ledger : IsLedgerFile l m
  · obtain ⟨x, listed, rfl⟩ := ledger
    rcases mem_ledgerNames.1 listed with rfl | rfl | rfl
    · exact absurd rfl other
    · rw [first.draft, second.draft]
    · rw [first.lock, second.lock]
  · rw [first.rest m ledger, second.rest m ledger]

theorem not_isLedgerFile_of_isLock (other : ¬ IsLedgerFile l m) : ¬ IsLock l m :=
  fun here => other ⟨lockName, by simp [ledgerNames], here⟩

/-- The second call finds the disk swept. It sets first times, and entries without a directory stay. -/
theorem clean_again (before : a.Balanced l d) (swept : a.Swept l cutoff.startOfDay names report' d c)
    (released : Edits (IsLock l) c c') (again : (a.clean token now cutoff).runOn c' = (.ok report, e)) :
    Settled l c e ∧
    (∀ i, c.at? (l ++ [i]) = some .directory → ∃ first, IsFirst? first (c.listed l i) ∧
      entryAt e l i = first.bind fun t => (entryAt d l i).map fun v => { v with first := t }) ∧
    ∀ i, c.at? (l ++ [i]) ≠ some .directory → entryAt e l i = entryAt d l i := by
  have readable : ∀ i n, c'.content? (l ++ [i, n, indexName]) ≠ none → a.Readable i n := by
    intro i n held
    obtain ⟨s, held⟩ := Option.ne_none_iff_exists'.1 held
    rw [released.content? (not_isLock l i n _)] at held
    have there := swept.loses.within.held _ _ (Disk.content?_eq_some.1 held)
    exact before.readable i n (by rw [Disk.content?_eq_some.2 there]; simp)
  have clean : c'.IsClean l cutoff.startOfDay := fun i m lost => swept.isClean i m ((isSwept_of_lock released).1 lost)
  have entry : ∀ i, entryAt c' l i = entryAt d l i := by
    intro i
    have kept := released.content? (summary_ne_lock l)
    rw [entryAt, entryAt, ← swept.summaryAt, Disk.summaryAt, Disk.summaryAt, kept]
  obtain ⟨⟨s, b, stored, same⟩, present, absent⟩ := clean_nothing (released.leadsTo_iff.2 swept.leads)
    (released.isTree (swept.tree before.tree)) readable clean again
  refine ⟨stored.settled fun m other => ?_, fun i there => ?_, fun i gone => ?_⟩
  · rw [same, released.rest m (not_isLedgerFile_of_isLock other)]
  · obtain ⟨first, begins, told⟩ := present i (released.directory_iff.2 there)
    have listed := Disk.listed_of_below (fun i n rest => released.rest _ (not_isLock l i n rest)) i
    exact ⟨first, begins.perm listed, by rw [told, entry]⟩
  · rw [absent i fun there => gone (released.directory_iff.1 there), entry]

/-- A call that has the lock in time sweeps the same and keeps the balance. -/
theorem clean_once (before : a.Balanced l d) (swept : a.Swept l cutoff.startOfDay names report' d c)
    (free : Edits (IsLock l) d d') (once : (a.clean token now cutoff).runOn d' = (.ok report, e)) :
    Settled l c e ∧ a.Balanced l e := by
  have unlocked := (before.of_edits (.refl d) free (fun j m => not_isLock l j m _) (summary_ne_lock l)).1
  obtain ⟨names', b, old, swept', -, stored⟩ := clean_ok unlocked.leads unlocked.tree once
  refine ⟨stored.settled fun m other => ?_, unlocked.clean once⟩
  exact swept.at?_of_lock free swept' (not_isLedgerFile_of_isLock other)

/-- What a cleaning leaves that is repeated because it came too late, beside what it would have left in time. -/
structure Overstates (l : Location) (day : Timestamp) (d again once : Disk) : Prop where
  /-- The trees are the same, up to what the summary states. -/
  tree : ∀ m, m ≠ l ++ [summaryName] → again.at? m = once.at? m
  /-- An interface that is gone keeps its entry as it was, where it should have none. -/
  gone : ∀ i, d.IsAllStale l day i → entryAt again l i = entryAt d l i ∧ entryAt once l i = none
  /-- The flows and the traffic of what was removed are counted for an interface that stays. -/
  kept : ∀ i, ¬ d.IsAllStale l day i → Overcounts (d.staleBlocks l day i) (entryAt once l i) (entryAt again l i)
  /-- So an entry is right only if nothing that counts was removed. -/
  right : ∀ i, entryAt again l i = entryAt once l i ↔
    (d.IsAllStale l day i → d.staleBlocks l day i = []) ∧
    (entryAt once l i ≠ none → flowSum (d.staleBlocks l day i) = 0 ∧ trafficSum (d.staleBlocks l day i) = 0)

/-- A cleaning that could not have the lock in time is called again when the lock is free. Then the tree is as if the
first call had succeeded, but the summary counts what the first call removed. -/
theorem repeated_clean (before : a.Balanced l d)
    (late : (a.clean token now cutoff).runOn d = (.error (.lockTimeout limit), c)) (released : Edits (IsLock l) c c')
    (again : (a.clean token' now' cutoff).runOn c' = (.ok report, e)) (free : Edits (IsLock l) d d')
    (once : (a.clean token'' now'' cutoff).runOn d' = (.ok report', f)) :
    Overstates l cutoff.startOfDay d e f := by
  obtain ⟨names, first, swept⟩ := clean_late before.leads before.tree late
  obtain ⟨settled, present, absent⟩ := clean_again before swept released again
  obtain ⟨settled', balanced⟩ := clean_once before swept free once
  have remains : ∀ i, (f.listed l i).Perm (c.listed l i) :=
    Disk.listed_of_below fun i n rest => settled'.rest _ (not_isLedgerFile l i n rest)
  have parts : ∀ i, Agrees (entryAt d l i) (d.staleBlocks l cutoff.startOfDay i ++ f.listed l i) := fun i =>
    (before.agrees i).perm ((swept.listed_parts i).trans ((remains i).symm.append_left _))
  have dropped : ∀ i, c.at? (l ++ [i]) ≠ some .directory → f.listed l i = [] ∧ entryAt f l i = none := by
    intro i gone
    have nothing := remains i
    rw [Disk.listed_of_absent (swept.tree before.tree) gone] at nothing
    have empty := nothing.eq_nil
    exact ⟨empty, (balanced.agrees i).eq_none_iff.2 empty⟩
  have lost : ∀ i, d.IsAllStale l cutoff.startOfDay i → c.at? (l ++ [i]) ≠ some .directory := by
    intro i allStale
    rw [swept.loses.away _ (Disk.exists_isSwept_interface_iff.2 allStale)]
    simp
  have gone : ∀ i, d.IsAllStale l cutoff.startOfDay i → entryAt e l i = entryAt d l i ∧ entryAt f l i = none :=
    fun i allStale => ⟨absent i (lost i allStale), (dropped i (lost i allStale)).2⟩
  have kept : ∀ i, ¬ d.IsAllStale l cutoff.startOfDay i →
      Overcounts (d.staleBlocks l cutoff.startOfDay i) (entryAt f l i) (entryAt e l i) := by
    intro i stays
    by_cases there : c.at? (l ++ [i]) = some .directory
    · obtain ⟨first, begins, told⟩ := present i there
      rw [told]
      exact (parts i).overcounts (balanced.agrees i) (begins.perm (remains i).symm)
    · have never : d.at? (l ++ [i]) ≠ some .directory := by
        rwa [← swept.loses.rest _ fun gone => stays (Disk.exists_isSwept_interface_iff.1 gone)]
      rw [(dropped i there).2, absent i there]
      exact (before.agrees i).eq_none_iff.2 (Disk.listed_of_absent before.tree never)
  refine ⟨fun m => settled.at?_eq settled', gone, kept, fun i => ?_⟩
  by_cases allStale : d.IsAllStale l cutoff.startOfDay i
  · have agrees := parts i
    rw [(dropped i (lost i allStale)).1, List.append_nil] at agrees
    rw [(gone i allStale).1, (gone i allStale).2, agrees.eq_none_iff]
    exact ⟨fun nothing => ⟨fun _ => nothing, fun present => absurd rfl present⟩, fun right => right.1 allStale⟩
  · rw [(kept i allStale).eq_iff]
    exact (and_iff_right fun all => absurd all allStale).symm

/-! ### A cleaning while the lock is held -/

def unlockedDisk (d : Disk) : Disk := (d.remove newArchive.lockPath).2

/-- What a cleaning up to the second day leaves. -/
def clearedDisk (d : Disk) : Disk := ((newArchive.clean [] 200000 86400).runOn d).2

theorem edits_unlocked (leads : d.LeadsTo newArchive.root ["data"]) : Edits (IsLock ["data"]) d (unlockedDisk d) :=
  Disk.edits_remove (leadsInto_root leads isName_lock rfl)

theorem late_clean : (newArchive.clean [] 200000 86400).runOn lockedDisk =
    (.error (.lockTimeout (.ofSeconds 1)), clearedDisk lockedDisk) := Prod.ext (by decide +kernel) rfl

theorem clean_unlocked : (newArchive.clean [] 200000 86400).runOn (unlockedDisk lockedDisk) =
    (.ok ⟨[("eth0", ⟨1, 7, none, true, 1⟩)]⟩, clearedDisk (unlockedDisk lockedDisk)) :=
  Prod.ext (Action.toOption_eq_some.1 (by decide +kernel)) rfl

theorem clean_unlocked_again : (newArchive.clean [] 200000 86400).runOn (unlockedDisk (clearedDisk lockedDisk)) =
    (.ok ⟨[]⟩, clearedDisk (unlockedDisk (clearedDisk lockedDisk))) :=
  Prod.ext (Action.toOption_eq_some.1 (by decide +kernel)) rfl

theorem repeated_clean_locked : Overstates ["data"] (86400 : Timestamp).startOfDay lockedDisk
    (clearedDisk (unlockedDisk (clearedDisk lockedDisk))) (clearedDisk (unlockedDisk lockedDisk)) := by
  have balanced := consistent_lockedDisk.balanced
  obtain ⟨names, report, swept⟩ := clean_late balanced.leads balanced.tree late_clean
  exact repeated_clean balanced late_clean (edits_unlocked swept.leads) clean_unlocked_again
    (edits_unlocked balanced.leads) clean_unlocked

/-- A cleaning that waits for the lock in vain has removed the only block. Repeated, it succeeds and reports nothing, and
the summary tells of a flow that is not there. In time, it would have left no entry. -/
theorem repeated_clean_leaves_entry :
    (newArchive.clean [] 200000 86400).runOn lockedDisk =
      (.error (.lockTimeout (.ofSeconds 1)), clearedDisk lockedDisk) ∧
    (newArchive.clean [] 200000 86400).runOn (unlockedDisk (clearedDisk lockedDisk)) =
      (.ok ⟨[]⟩, clearedDisk (unlockedDisk (clearedDisk lockedDisk))) ∧
    (clearedDisk (unlockedDisk (clearedDisk lockedDisk))).listed ["data"] "eth0" = [] ∧
    entryAt (clearedDisk (unlockedDisk (clearedDisk lockedDisk))) ["data"] "eth0" = some ⟨1, 7, 5⟩ ∧
    entryAt (clearedDisk (unlockedDisk lockedDisk)) ["data"] "eth0" = none :=
  ⟨late_clean, clean_unlocked_again, by decide +kernel⟩

end Archive

end FlowArchive
