import FlowArchive.Proofs.SharedSweeping
import FlowArchive.Proofs.SharedWriting

/-!
# Writing and cleaning at the same time

A write and a cleaning on one disk have their turns in any order. If the directory of the interface holds something
that is not stale, the block stays whatever the order. The summary is right in the end of every other interface, and of
that of the block if a block that stays is as early. Otherwise it may come out wrong: the cleaning decides by what it
read before the write.
-/

namespace FlowArchive

open FlowArchive.Path (IsName)
open InterfaceSummary (Agrees)
open scoped List

namespace Archive

namespace Meeting

variable {a : Archive}

def start (g : a.Meeting) : Moment g where
  disk := g.before
  holder := none
  told _ := false
  home := rfl
  tree := g.consistent.tree
  rest _ _ _ := .inl rfl
  partition := .inl rfl
  index := .inl rfl
  readable held := g.consistent.readable _ _ (by rwa [← g.index_eq])
  ledger := g.free
  lock held := absurd rfl held
  agrees j _ := by
    have counted : g.counted (fun _ => false) j = g.removed j ++ g.retained j := by simp [counted]
    rw [counted]
    exact (g.consistent.agrees j).perm (g.listed_perm j)

end Meeting

namespace Moment

variable {a : Archive} {g : a.Meeting} {s : Moment g} {j n : String}

/-! ## What both leave -/

/-- Apart from that of the block, the partitions that remain are those that are not stale. -/
theorem Clears.mem_partitionNames (clears : Clears s) (other : ¬ g.IsOwn j n) :
    n ∈ s.disk.partitionNames g.place j ↔
      n ∈ (g.before.partitionNames g.place j).filter fun n => !isEarlier g.day n := by
  rw [List.mem_filter, Disk.mem_partitionNames, Disk.mem_partitionNames]
  by_cases doomed : g.IsDoomed (g.place ++ [j, n])
  · have stale := g.isDoomed_partition.1 doomed
    simp [clears _ doomed, stale.2]
  · rw [s.at?_apart (not_isLedgerFile _ j n []) (g.apart_of_not_own other []) doomed, and_assoc]
    refine and_congr_right fun there => (and_iff_left_of_imp fun _ => ?_).symm
    have fresh : ¬ g.before.IsStale g.place g.day j n := fun stale => doomed (g.isDoomed_partition.2 stale)
    simpa [Disk.IsStale, there] using fresh

theorem Clears.indexAt (clears : Clears s) (other : ¬ g.IsOwn j n) (member : n ∈ s.disk.partitionNames g.place j) :
    s.disk.indexAt g.place j n = g.before.indexAt g.place j n := by
  have fresh := (List.mem_filter.1 ((clears.mem_partitionNames other).1 member)).2
  rcases s.reads_fresh (j := j) (by simpa using fresh) with same | ⟨own, -⟩
  · exact same
  · exact absurd own other

/-- Where a block was listed, its partition is there in the end if it is not stale. -/
theorem mem_partitionNames_of_listed (entered : Entered s) (clears : Clears s)
    (listed : g.before.indexAt g.place j n ≠ []) : n ∈ s.disk.partitionNames g.place j ↔
      n ∈ (g.before.partitionNames g.place j).filter fun n => !isEarlier g.day n := by
  by_cases own : g.IsOwn j n
  · obtain ⟨rfl, rfl⟩ := own
    have index := fun absent => listed (Disk.indexAt_of_absent absent)
    have before : g.before.at? (g.place ++ [g.interface, partitionName g.time.startOfDay]) = some .directory :=
      (g.consistent.tree [g.interface, partitionName g.time.startOfDay] indexName (by simpa using index)).2
    rw [List.mem_filter, Disk.mem_partitionNames, Disk.mem_partitionNames, before, g.isEarlier_own]
    exact iff_of_true ⟨entered.1, by simp [partitionDay?_partitionName]⟩ (by simp [partitionDay?_partitionName])
  · exact clears.mem_partitionNames own

/-- What is listed in the end: what is not stale, and the block. -/
theorem listed_perm (entered : Entered s) (clears : Clears s) (j : String) :
    s.disk.listed g.place j ~ g.retained j ++ if j = g.interface then [g.block] else [] := by
  have nodup := Disk.nodup_partitionNames s.disk g.place j
  have before : (s.disk.partitionNames g.place j).flatMap (g.before.indexAt g.place j) ~ g.retained j :=
    flatMap_perm nodup ((Disk.nodup_partitionNames g.before g.place j).filter _) fun n listed =>
      mem_partitionNames_of_listed entered clears listed
  rw [Disk.listed]
  split
  next here =>
    -- The partition of the block is taken out of the listing, so that the others list what they did.
    subst here
    have own : partitionName g.time.startOfDay ∈ s.disk.partitionNames g.place g.interface :=
      Disk.mem_partitionNames.2 ⟨entered.1, by simp [partitionDay?_partitionName]⟩
    have others : ∀ n ∈ (s.disk.partitionNames g.place g.interface).erase (partitionName g.time.startOfDay),
        s.disk.indexAt g.place g.interface n = g.before.indexAt g.place g.interface n := by
      intro n member
      refine clears.indexAt (fun same => nodup.not_mem_erase (same.2 ▸ member)) (List.mem_of_mem_erase member)
    have whole := List.perm_cons_erase own
    calc (s.disk.partitionNames g.place g.interface).flatMap (s.disk.indexAt g.place g.interface)
      _ ~ g.before.indexAt g.place g.interface (partitionName g.time.startOfDay) ++ ([g.block] ++
            ((s.disk.partitionNames g.place g.interface).erase (partitionName g.time.startOfDay)).flatMap
              (g.before.indexAt g.place g.interface)) := by
          rw [← List.append_assoc, ← indexAt_of_entered entered.2.2, ← List.flatMap_congr others]
          exact whole.flatMap_right _
      _ ~ (g.before.indexAt g.place g.interface (partitionName g.time.startOfDay) ++
            ((s.disk.partitionNames g.place g.interface).erase (partitionName g.time.startOfDay)).flatMap
              (g.before.indexAt g.place g.interface)) ++ [g.block] := by
          rw [List.append_assoc]
          exact List.perm_append_comm.append_left _
      _ ~ g.retained g.interface ++ [g.block] := ((whole.flatMap_right _).symm.trans before).append_right _
  next other =>
    rw [List.append_nil, List.flatMap_congr fun n member => clears.indexAt (fun own => other own.1) member]
    exact before

/-- What both have told the summary is what is listed. -/
theorem agrees_listed (entered : Entered s) (clears : Clears s) (wrote : s.told .writer = true)
    (cleaned : s.told .cleaner = true) (j : String) (early : j = g.interface → g.Early) :
    Agrees (entryAt s.disk g.place j) (s.disk.listed g.place j) := by
  refine (s.agrees j early).perm ?_
  rw [Meeting.counted, cleaned, wrote, if_pos rfl]
  simp only [true_and]
  exact (listed_perm entered clears j).symm

end Moment

/-! ## Any order -/

variable {a : Archive} {token token' : LockToken} {d : Disk} {l : Location} {i : String} {t now cutoff : Timestamp}
  {fs : List Flow} {e : Disk.Shared (Except Failure Unit)}

/-- A write and a cleaning that both succeed, in whatever order they have their turns: if the block is not of a day
before the cutoff and the directory of its interface holds something that is not stale, the block is on the disk and in
the index of its partition. The summary agrees with what is listed, for the interface of the block at least if a block
that stays is as early. -/
theorem write_meets_clean (before : a.Consistent l d) (firm : d.LeadsFirmly a.root l)
    (free : ∀ x ∈ ledgerNames, d.at? (l ++ [x]) ≠ some .directory) (late : cutoff.startOfDay ≤ t.startOfDay)
    (kept : ∃ n, d.at? (l ++ [i, n]) ≠ none ∧ ¬ d.IsStale l cutoff.startOfDay i n)
    (fits : Index.Fits (d.listed l i ++ [describe t fs]))
    (reached : Disk.Shared.Reaches
      ⟨d, [(a.writeBlock token i t fs).quiet.script, (a.clean token' now cutoff).quiet.script]⟩ e)
    (ended : e.EndsWith [.ok (), .ok ()]) :
    e.disk.content? (blockPlace l i t) = some (Block.encode fs) ∧
    partitionName t.startOfDay ∈ e.disk.partitionNames l i ∧
    e.disk.indexAt l i (partitionName t.startOfDay) =
      d.indexAt l i (partitionName t.startOfDay) ++ [describe t fs] ∧
    ∀ j, (j = i → ∃ u y, cutoff.startOfDay ≤ u ∧ d.at? (l ++ [i, partitionName u]) = some .directory ∧
        y ∈ d.indexAt l i (partitionName u) ∧ y.time ≤ t) →
      Agrees (entryAt e.disk l j) (e.disk.listed l j) := by
  -- Each of the two keeps to its terms from the first moment on; the rest is read off the last moment.
  let g : a.Meeting := ⟨l, d, i, t, fs, cutoff.startOfDay, before, firm, free, late, kept, fits⟩
  have writes : (a.writeBlock token i t fs).quiet.Keeps (Moment.terms g .writer)
      (Action.Success fun _ s => Moment.Entered s ∧ s.told .writer = true) g.start :=
    (Moment.keeps_writeBlock g.start ⟨rfl, rfl⟩).quiet
      (Terms.stable_and (Moment.ofOwn_entered g).stable (Moment.stable_told true))
  have nothing : g.start.Lost fun _ => False := ⟨rfl, fun _ _ => False.elim, fun _ _ _ => rfl⟩
  have cleans : (a.clean token' now cutoff).quiet.Keeps (Moment.terms g .cleaner)
      (Action.Success fun _ s => Moment.Clears s ∧ s.told .cleaner = true) g.start :=
    (Moment.keeps_clean rfl nothing).quiet
      (Terms.stable_and (Moment.ofOwn_clears g).stable (Moment.stable_told true))
  obtain ⟨s, same, wrote, cleaned⟩ := Disk.Shared.ends_of_keeps (T := Moment.terms g .writer)
    (U := Moment.terms g .cleaner) rfl (fun _ _ => id) (fun _ _ => id) writes cleans reached ended
  obtain ⟨entered, told⟩ := Action.success_ok.1 wrote
  obtain ⟨clears, told'⟩ := Action.success_ok.1 cleaned
  rw [← same]
  refine ⟨?_, ?_, Moment.indexAt_of_entered entered.2.2, fun j early => ?_⟩
  · have block := entered.2.1
    rw [Moment.place_snoc] at block
    exact Disk.content?_eq_some.2 block
  · exact Disk.mem_partitionNames.2 ⟨entered.1, by simp [partitionDay?_partitionName]⟩
  · refine Moment.agrees_listed entered clears told told' j fun here => ?_
    obtain ⟨u, y, stays, there, member, first⟩ := early here
    have partition : partitionName u ∈ (d.partitionNames l i).filter fun n => !isEarlier cutoff.startOfDay n := by
      rw [List.mem_filter, Disk.mem_partitionNames, isEarlier_partitionName]
      exact ⟨⟨there, by simp [partitionDay?_partitionName]⟩, by simp [Int64.not_lt.2 stays]⟩
    exact ⟨y, List.mem_flatMap.2 ⟨_, partition, member⟩, first⟩

/-! ### A write in the middle of a cleaning -/

def diskAt (t : Timestamp) : Disk := ((newArchive.writeBlock [] "eth0" t [newFlow]).runOn newDisk).2

/-- A write of the third day and a cleaning up to the second, before the first turn. -/
def meetingOn (d : Disk) : Disk.Shared (Except Failure Unit) :=
  ⟨d, [(newArchive.writeBlock [] "eth0" 200000 [newFlow]).quiet.script,
    (newArchive.clean [] 300000 100000).quiet.script]⟩

/-- The cleaning has some turns, then the write has all of its turns, then the cleaning has the rest. -/
def turnsAround (first last : Nat) : List Nat := List.replicate first 1 ++ List.replicate 14 0 ++ List.replicate last 1

theorem consistent_diskAt (t : Timestamp) (wrote : (newArchive.writeBlock [] "eth0" t [newFlow]).runOn newDisk =
    (.ok (describe t [newFlow]), diskAt t)) (fits : Index.Fits ((diskAt t).listed ["data"] "eth0")) :
    newArchive.Consistent ["data"] (diskAt t) :=
  (isFresh_newDisk.consistent.write wrote fits).1

theorem write_meets_clean_later_day : (meetingOn (diskAt 100000)).MayEnd [.ok (), .ok ()] fun d =>
    d.content? (blockPlace ["data"] "eth0" 200000) = some (Block.encode [newFlow]) ∧
    partitionName (200000 : Timestamp).startOfDay ∈ d.partitionNames ["data"] "eth0" ∧
    d.indexAt ["data"] "eth0" (partitionName (200000 : Timestamp).startOfDay) =
      (diskAt 100000).indexAt ["data"] "eth0" (partitionName (200000 : Timestamp).startOfDay) ++
        [describe 200000 [newFlow]] ∧
    ∀ j, Agrees (entryAt d ["data"] j) (d.listed ["data"] j) := by
  have before : newArchive.Consistent ["data"] (diskAt 100000) :=
    consistent_diskAt 100000 (Prod.ext (Action.toOption_eq_some.1 (by decide +kernel)) rfl)
      ⟨by decide +kernel, by decide +kernel⟩
  have firm := before.leads.firmly (by decide +kernel)
  have kept : ∃ n, (diskAt 100000).at? (["data"] ++ ["eth0", n]) ≠ none ∧
      ¬ (diskAt 100000).IsStale ["data"] (100000 : Timestamp).startOfDay "eth0" n :=
    ⟨"86400", by decide +kernel, fun stale => absurd stale.2 (by decide +kernel)⟩
  have ends : (meetingOn (diskAt 100000)).MayEnd [.ok (), .ok ()] fun _ => True :=
    Disk.Shared.mayEnd_of_follow (turnsAround 4 7) (by decide +kernel)
  obtain ⟨e, reached, ended, -⟩ := ends
  obtain ⟨block, partition, index, agrees⟩ := write_meets_clean before firm (by decide +kernel) (by decide +kernel) kept
    ⟨by decide +kernel, by decide +kernel⟩ reached ended
  exact ⟨e, reached, ended, block, partition, index, fun j => agrees j fun _ =>
    ⟨86400, describe 100000 [newFlow], by decide +kernel, by decide +kernel, by decide +kernel, by decide +kernel⟩⟩

/-- In the middle of a cleaning a write may go wrong although both succeed, and although its block is of a day after the
cutoff. If all that the cleaning has seen of the interface is stale, it takes away the block with the directory, or it
only takes away the entry of the summary. If all that it has seen is later than the block, it takes back the time. -/
theorem write_lost_in_cleaning :
    (100000 : Timestamp).startOfDay < (200000 : Timestamp).startOfDay ∧
    newArchive.Consistent ["data"] (diskAt 5) ∧ newArchive.Consistent ["data"] (diskAt 300000) ∧
    ((meetingOn (diskAt 5)).MayEnd [.ok (), .ok ()] fun d =>
      d.at? (blockPlace ["data"] "eth0" 200000) = none ∧ d.listed ["data"] "eth0" = []) ∧
    ((meetingOn (diskAt 5)).MayEnd [.ok (), .ok ()] fun d =>
      d.listed ["data"] "eth0" = [describe 200000 [newFlow]] ∧ entryAt d ["data"] "eth0" = none) ∧
    (meetingOn (diskAt 300000)).MayEnd [.ok (), .ok ()] fun d =>
      d.listed ["data"] "eth0" = [describe 200000 [newFlow], describe 300000 [newFlow]] ∧
        entryAt d ["data"] "eth0" = some ⟨2, 14, 300000⟩ := by
  refine ⟨by decide +kernel, ?_, ?_, ?_, ?_, ?_⟩
  · exact consistent_diskAt 5 (Prod.ext (Action.toOption_eq_some.1 (by decide +kernel)) rfl)
      ⟨by decide +kernel, by decide +kernel⟩
  · exact consistent_diskAt 300000 (Prod.ext (Action.toOption_eq_some.1 (by decide +kernel)) rfl)
      ⟨by decide +kernel, by decide +kernel⟩
  · exact Disk.Shared.mayEnd_of_follow (turnsAround 5 8) (by decide +kernel)
  · exact Disk.Shared.mayEnd_of_follow (turnsAround 6 7) (by decide +kernel)
  · exact Disk.Shared.mayEnd_of_follow (turnsAround 4 7) (by decide +kernel)

end Archive

end FlowArchive
