import FlowArchive.Proofs.RepeatedCleaning

/-!
# What a change of the ledger comes to

Where nothing is in the way, requests succeed. So a change of the summary comes to what the change itself does, as long
as nobody has the lock and no directory stands where the files of the ledger do. If it fails, everything is as before.
And whether a block can be written does not depend on its flows.
-/

namespace FlowArchive

open FlowArchive.Path (IsName)
open Disk (snoc_ne_nil Within Loses)

/-! ## Requests that succeed -/

namespace Disk

variable {c d e : Disk} {p : Path} {l : Location} {x y : String} {s : Bytes}

theorem LeadsTo.parentFault? (leads : d.LeadsTo p l) (x : String) : d.parentFault? (l ++ [x]) = none := by
  rw [Disk.parentFault?, List.dropLast_concat, leads.directory]

theorem create_of_absent (leads : d.LeadsTo p l) (name : IsName x) (fine : joinFault? p x = none)
    (absent : d.at? (l ++ [x]) = none) : d.create (p.join x) = (.ok (), d.put (l ++ [x]) (.file [])) := by
  simp only [create, find_join_ok leads name fine, absent, leads.parentFault? x]

theorem change_of_free (leads : d.LeadsTo p l) (name : IsName x) (fine : joinFault? p x = none)
    (free : d.at? (l ++ [x]) ≠ some .directory) (f : Bytes → Bytes) :
    d.change (p.join x) f = (.ok (), d.put (l ++ [x]) (.file (f ((d.content? (l ++ [x])).getD [])))) := by
  rw [change, find_join_ok leads name fine, content?]
  cases there : d.at? (l ++ [x]) with
  | none => simp only [leads.parentFault? x, Option.getD_none]
  | some entry =>
    cases entry with
    | directory => exact absurd there free
    | file s => rfl

theorem change_of_fault (leads : d.LeadsTo p l) (name : IsName x) {f : Fault} (fault : joinFault? p x = some f)
    (g : Bytes → Bytes) : d.change (p.join x) g = (.error f, d) := by
  rw [change, find_join leads name, fault]

theorem sync_of_present (leads : d.LeadsTo p l) (name : IsName x) (fine : joinFault? p x = none)
    (there : d.at? (l ++ [x]) ≠ none) : d.sync (p.join x) = .ok () := by
  obtain ⟨entry, there⟩ := Option.ne_none_iff_exists'.1 there
  rw [sync, find_join_ok leads name fine, there]

theorem rename_of_file (leads : d.LeadsTo p l) (name : IsName x) (name' : IsName y) (fine : joinFault? p x = none)
    (fine' : joinFault? p y = none) (there : d.at? (l ++ [x]) = some (.file s))
    (free : d.at? (l ++ [y]) ≠ some .directory) :
    d.rename (p.join x) (p.join y) =
      (.ok (), { d with entries := (d.entries.erase (l ++ [x])).insert (l ++ [y]) (.file s) }) := by
  rw [rename, find_join_ok leads name fine, find_join_ok leads name' fine', there]
  cases target : d.at? (l ++ [y]) with
  | none => simp only [leads.parentFault? y]
  | some entry =>
    cases entry with
    | directory => exact absurd target free
    | file s' => simp only [leads.parentFault? y]

/-- A directory is removed if the path to the one that holds it does not lead through it. -/
theorem removeTree_of_directory (leads : d.LeadsTo p l) (name : IsName x) (fine : joinFault? p x = none)
    (there : d.at? (l ++ [x]) = some .directory) (apart : (d.emptied (l ++ [x])).LeadsTo p l) :
    ∃ e, d.removeTree (p.join x) = (.ok (), e) ∧ Loses d e fun m => l ++ [x] <+: m := by
  have entered := apart.enter
  rw [start_congr (within_emptied d (l ++ [x])).home] at entered
  have removed : ∃ e, d.removeTree (p.join x) = (.ok (), e) := by
    simp only [removeTree, find_join_ok leads name fine, there, removeDirectory, start_join name, enterAbove_snoc name,
      entered, Except.map]
    exact ⟨_, rfl⟩
  obtain ⟨e, removed⟩ := removed
  rcases removeTree_apart leads name apart removed with ⟨⟨f, failed⟩, -⟩ | ⟨-, loses⟩
  · cases failed
  · exact ⟨e, removed, loses⟩

/-- Two disks on which the same is found everywhere. -/
structure Alike (d e : Disk) : Prop where
  home : e.home = d.home
  same : ∀ m, e.at? m = d.at? m

end Disk

/-! ## The ledger -/

namespace Archive

variable {a : Archive} {token : LockToken} {b c d e : Disk} {p : Path} {l m : Location} {s : Summary} {f : Fault}
  {x : Failure} {change : Option Summary → Except Failure Summary}

/-- Nobody has the lock of the ledger, and no directory stands where its files do. -/
structure Unlocked (a : Archive) (l : Location) (d : Disk) : Prop where
  leads : d.LeadsTo a.root l
  lock : d.at? (l ++ [lockName]) = none
  draft : d.at? (l ++ [summaryDraftName]) ≠ some .directory
  summary : d.at? (l ++ [summaryName]) ≠ some .directory

/-- What a change of the summary comes to where the ledger is unlocked. -/
def outcomeOfChange (a : Archive) (change : Option Summary → Except Failure Summary) (old : Option Summary) :
    Except Failure Summary :=
  match Disk.joinFault? a.root lockName, change old, Disk.joinFault? a.root summaryDraftName with
  | some f, _, _ => .error (.fault f)
  | none, .error x, _ => .error x
  | none, .ok _, some f => .error (.fault f)
  | none, .ok s, none => .ok s

theorem Locked.other {mark : Bytes} (locked : Locked l mark d c) (other : m ≠ l ++ [lockName]) :
    c.at? m = d.at? m := by
  rw [locked.entries, if_neg other]

theorem makeLock_of_created (created : d.create a.lockPath = (.ok (), c)) (retries : Nat) :
    (a.makeLock retries).runOn d = (.ok (), c) := by
  have asked : d.perform (.create a.lockPath) = (.ok (), c) := created
  cases retries <;> rw [makeLock, Action.runOn_asked, asked] <;> rfl

theorem makeLock_of_fault (other : f ≠ .present) (failed : d.create a.lockPath = (.error f, d)) (retries : Nat) :
    (a.makeLock retries).runOn d = (.error (.fault f), d) := by
  have asked : d.perform (.create a.lockPath) = (.error f, d) := failed
  cases retries <;> rw [makeLock, Action.runOn_asked, asked] <;> cases f <;> first | rfl | exact absurd rfl other

namespace Unlocked

theorem acquire (unlocked : a.Unlocked l d) (fine : Disk.joinFault? a.root lockName = none) (token : LockToken) :
    ∃ c mark, (a.acquire token).runOn d = (.ok (), c) ∧ Locked l mark d c := by
  have created := Disk.create_of_absent unlocked.leads isName_lock fine unlocked.lock
  have free : d.at? (l ++ [lockName]) ≠ some .directory := by simp [unlocked.lock]
  have leads := unlocked.leads.mono (Disk.keepsDirectories_put free (.file []))
  have made : (d.put (l ++ [lockName]) (.file [])).at? (l ++ [lockName]) ≠ some .directory := by
    simp [Disk.at?_put _ (snoc_ne_nil l lockName)]
  have marked := Disk.change_of_free leads isName_lock fine made (· ++ token)
  have ran : (a.acquire token).runOn d = (.ok (), _) :=
    (Action.runOn_bind_of_ok (makeLock_of_created created _)).trans (Action.runOn_ask_ok_iff.2 marked)
  obtain ⟨k, mark, leads', -, locked⟩ := acquire_ok ran
  obtain rfl := leads'.unique unlocked.leads
  exact ⟨_, mark, ran, locked⟩

theorem acquire_fault (unlocked : a.Unlocked l d) (fault : Disk.joinFault? a.root lockName = some f)
    (token : LockToken) : (a.acquire token).runOn d = (.error (.fault f), d) := by
  have found : d.find a.lockPath = .error f := by rw [lockPath, Disk.find_join unlocked.leads isName_lock, fault]
  have created : d.create a.lockPath = (.error f, d) := by rw [Disk.create, found]
  have other : f ≠ .present := by
    rintro rfl
    obtain ⟨r, present⟩ := Disk.find_of_present created
    rw [found] at present
    cases present
  exact Action.runOn_bind_of_error (makeLock_of_fault other created _)

end Unlocked

/-- As long as anything stands in the place of the lock, every change waits for it in vain. -/
theorem modify_of_blocked (leads : d.LeadsTo a.root l) (fine : Disk.joinFault? a.root lockName = none)
    (blocked : d.at? (l ++ [lockName]) ≠ none) (token : LockToken)
    (change : Option Summary → Except Failure Summary) :
    (a.modify token change).runOn d = (.error (.lockTimeout a.lockLimit), d) := by
  have taken : d.perform (.create a.lockPath) = (.error .present, d) := by
    obtain ⟨entry, there⟩ := Option.ne_none_iff_exists'.1 blocked
    change d.create a.lockPath = _
    rw [Disk.create, lockPath, Disk.find_join_ok leads isName_lock fine, there]
    cases entry <;> rfl
  have waited : ∀ retries, (a.makeLock retries).runOn d = (.error (.lockTimeout a.lockLimit), d) := by
    intro retries
    induction retries with
    | zero =>
      rw [makeLock, Action.runOn_asked, taken]
      rfl
    | succ retries ih =>
      rw [makeLock, Action.runOn_asked, taken]
      exact ih
  exact Action.runOn_bind_of_error (Action.runOn_bind_of_error (waited _))

/-- A change is made between the taking and the release of the lock. -/
theorem modify_of_applied {outcome : Except Failure Summary} (acquired : (a.acquire token).runOn d = (.ok (), c))
    (applied : (a.applyChange change).runOn c = (outcome, b)) :
    (a.modify token change).runOn d = (outcome, (a.release.run b).2) := by
  have attempted := Action.runOn_attempt_ok_iff.2 applied
  rw [modify, Action.runOn_bind_of_ok acquired, Action.runOn_bind_of_ok attempted,
    Action.runOn_bind_of_ok (Action.runOn_ofScript a.release b)]
  rfl

theorem applyChange_of_committed {outcome : Except Failure Unit} (leads : d.LeadsTo a.root l)
    (fine : Disk.joinFault? a.root summaryName = none) (changed : change (d.summaryAt l) = .ok s)
    (committed : (a.commit s).runOn d = (outcome, e)) :
    (a.applyChange change).runOn d = (outcome.map fun _ => s, e) := by
  obtain ⟨stored, read, same⟩ := runOn_storedSummary a d
  have attempted : a.storedSummary.attempt.runOn d = (.ok stored, d) := by rw [Action.runOn_attempt, read]
  rw [read_summary leads fine] at same
  rw [applyChange, Action.runOn_bind_of_ok attempted, same, changed,
    Action.runOn_bind_of_ok (Action.runOn_ofExcept (.ok s) d)]
  cases outcome with
  | ok => exact Action.runOn_bind_of_ok committed
  | error x => exact Action.runOn_bind_of_error committed

theorem applyChange_of_refused (leads : d.LeadsTo a.root l) (fine : Disk.joinFault? a.root summaryName = none)
    (refused : change (d.summaryAt l) = .error x) : (a.applyChange change).runOn d = (.error x, d) := by
  obtain ⟨stored, read, same⟩ := runOn_storedSummary a d
  have attempted : a.storedSummary.attempt.runOn d = (.ok stored, d) := by rw [Action.runOn_attempt, read]
  rw [read_summary leads fine] at same
  rw [applyChange, Action.runOn_bind_of_ok attempted, same, refused]
  exact Action.runOn_bind_of_error (Action.runOn_ofExcept (.error x) d)

/-- A file is replaced if no directory is in the way. -/
theorem replaceFile_of_free {x y : String} (leads : d.LeadsTo p l) (nameDraft : IsName x) (name : IsName y)
    (different : x ≠ y) (fineDraft : Disk.joinFault? p x = none) (fine : Disk.joinFault? p y = none)
    (draft : d.at? (l ++ [x]) ≠ some .directory) (free : d.at? (l ++ [y]) ≠ some .directory) (content : Bytes) :
    ∃ e, (replaceFile p x y content).runOn d = (.ok (), e) := by
  have wrote := Disk.change_of_free leads nameDraft fineDraft draft fun _ => content
  have there : (d.put (l ++ [x]) (.file content)).at? (l ++ [x]) = some (.file content) := by
    rw [Disk.at?_put _ (snoc_ne_nil l x), if_pos rfl]
  have leads' := leads.mono (Disk.keepsDirectories_put draft (.file content))
  have synced := Disk.sync_of_present leads' nameDraft fineDraft (by simp [there])
  have free' : (d.put (l ++ [x]) (.file content)).at? (l ++ [y]) ≠ some .directory := by
    rw [Disk.at?_put _ (snoc_ne_nil l x), if_neg fun same => different (Disk.snoc_inj.1 same).2.symm]
    exact free
  have moved := Disk.rename_of_file leads' nameDraft name fineDraft fine there free'
  exact ⟨_, Action.runOn_bind_ok_iff.2 ⟨(), _, Action.runOn_ask_ok_iff.2 wrote, Action.runOn_bind_ok_iff.2
    ⟨(), _, Action.runOn_ask_ok_iff.2 (Prod.ext synced rfl), Action.runOn_ask_ok_iff.2 moved⟩⟩⟩

theorem fineDraft_of_replaceFile {x y : String} {content : Bytes} (leads : d.LeadsTo p l) (nameDraft : IsName x)
    (replaced : (replaceFile p x y content).runOn d = (.ok (), e)) : Disk.joinFault? p x = none := by
  obtain ⟨⟨⟩, b, wrote, -⟩ := Action.runOn_bind_ok_iff.1 replaced
  exact (Disk.change_join leads nameDraft (Action.runOn_ask_ok_iff.1 wrote)).1

theorem commit_of_fault (leads : d.LeadsTo a.root l) (fault : Disk.joinFault? a.root summaryDraftName = some f)
    (s : Summary) : (a.commit s).runOn d = (.error (.fault f), d) := by
  have unwritten : d.change a.summaryDraftPath (fun _ => s.write) = (.error f, d) :=
    Disk.change_of_fault leads isName_summaryDraft fault _
  exact Action.runOn_bind_of_error (Action.runOn_ask_of_error unwritten)

/-- Once the lock is given back that was taken and nothing else was done, everything is as before. -/
theorem Locked.alike {mark : Bytes} (locked : Locked l mark d c) (leads : d.LeadsTo a.root l)
    (fine : Disk.joinFault? a.root lockName = none) : Disk.Alike d (a.release.run c).2 := by
  have held : c.at? (l ++ [lockName]) = some (.file mark) := by rw [locked.entries, if_pos rfl]
  rw [release_ok (leads.mono locked.keeps) fine held]
  refine ⟨locked.keeps.home, fun m => ?_⟩
  rw [Disk.at?_erase _ (snoc_ne_nil l lockName)]
  split
  next here => rw [here, locked.free]
  next other => exact locked.other other

/-- Where the ledger is unlocked, a change stores the summary that it makes, or leaves everything as it was. -/
theorem Unlocked.runOn_modify (unlocked : a.Unlocked l d) (token : LockToken)
    (change : Option Summary → Except Failure Summary) :
    ∃ e, (a.modify token change).runOn d = (a.outcomeOfChange change (d.summaryAt l), e) ∧
      match a.outcomeOfChange change (d.summaryAt l) with
      | .ok s => a.Stored l s d e
      | .error _ => Disk.Alike d e := by
  unfold outcomeOfChange
  cases fineLock : Disk.joinFault? a.root lockName with
  | some f => exact ⟨d, Action.runOn_bind_of_error (unlocked.acquire_fault fineLock token), rfl, fun _ => rfl⟩
  | none =>
    obtain ⟨c, mark, acquired, locked⟩ := unlocked.acquire fineLock token
    have leads := unlocked.leads.mono locked.keeps
    have fine : Disk.joinFault? a.root summaryName = none :=
      Disk.joinFault?_of_le isName_lock isName_summary (by decide +kernel) (by decide +kernel) fineLock
    have seen : c.summaryAt l = d.summaryAt l := by
      rw [Disk.summaryAt, Disk.summaryAt, Disk.content?_congr (locked.other (summary_ne_lock l))]
    have alike := locked.alike unlocked.leads fineLock
    cases changed : change (d.summaryAt l) with
    | error x =>
      rw [← seen] at changed
      exact ⟨_, modify_of_applied acquired (applyChange_of_refused leads fine changed), alike⟩
    | ok s =>
      rw [← seen] at changed
      cases fineDraft : Disk.joinFault? a.root summaryDraftName with
      | some f =>
        have committed := commit_of_fault leads fineDraft s
        exact ⟨_, modify_of_applied acquired (applyChange_of_committed leads fine changed committed), alike⟩
      | none =>
        have draft := unlocked.draft
        have summary := unlocked.summary
        rw [← locked.other (draft_ne_lock l)] at draft
        rw [← locked.other (summary_ne_lock l)] at summary
        obtain ⟨b, committed⟩ : ∃ b, (a.commit s).runOn c = (.ok (), b) :=
          replaceFile_of_free leads isName_summaryDraft isName_summary (by decide +kernel) fineDraft fine draft
            summary _
        have modified := modify_of_applied acquired (applyChange_of_committed leads fine changed committed)
        obtain ⟨k, leads', -, stored⟩ := modify_ok modified
        obtain rfl := leads'.unique unlocked.leads
        exact ⟨_, modified, stored⟩

/-- A change that has succeeded has found the ledger unlocked, and none of its names too long. -/
theorem unlocked_of_modify (leads : d.LeadsTo a.root l) (modified : (a.modify token change).runOn d = (.ok s, e)) :
    a.Unlocked l d ∧ Disk.joinFault? a.root lockName = none ∧ Disk.joinFault? a.root summaryDraftName = none := by
  obtain ⟨k, leads', -, stored⟩ := modify_ok modified
  obtain rfl := leads'.unique leads
  obtain ⟨⟨⟩, b, acquired, rest⟩ := Action.runOn_bind_ok_iff.1 modified
  obtain ⟨k', mark, leads'', fineLock, locked⟩ := acquire_ok acquired
  obtain rfl := leads''.unique leads
  obtain ⟨outcome, c, applied, rest⟩ := Action.runOn_bind_ok_iff.1 rest
  obtain ⟨⟨⟩, c', -, last⟩ := Action.runOn_bind_ok_iff.1 rest
  cases last
  obtain ⟨-, committed⟩ := applyChange_ok (Action.runOn_attempt_ok_iff.1 applied)
  have fineDraft := fineDraft_of_replaceFile (leads.mono locked.keeps) isName_summaryDraft committed
  have free : ∀ y ∈ ledgerNames, d.at? (k' ++ [y]) ≠ some .directory := stored.free
  exact ⟨⟨leads, locked.free, free _ (by simp [ledgerNames]), free _ (by simp [ledgerNames])⟩, fineLock, fineDraft⟩

/-! ## Writing -/

/-- A block is filed if no directory is in the way. -/
theorem file_of_free {t : Timestamp} {k : Location} (leads : d.LeadsTo p k)
    (fineDraft : Disk.joinFault? p (draftName t) = none) (fineBlock : Disk.joinFault? p (blockName t) = none)
    (fineIndex : Disk.joinFault? p indexName = none)
    (free : ∀ x ∈ [blockName t, indexName, draftName t], d.at? (k ++ [x]) ≠ some .directory) (fs : List Flow) :
    ∃ c e, (storeBlock p t fs).runOn d = (.ok (), c) ∧ (indexBlock p (describe t fs)).runOn c = (.ok (), e) := by
  obtain ⟨c, stored⟩ : ∃ c, (storeBlock p t fs).runOn d = (.ok (), c) :=
    replaceFile_of_free leads (isName_draft t) (isName_block t) (blockName_ne_draftName t t).symm fineDraft fineBlock
      (free _ (by simp)) (free _ (by simp)) _
  obtain ⟨-, replaced⟩ := replaceFile_ok leads (isName_draft t) (isName_block t) stored
  have freeIndex : c.at? (k ++ [indexName]) ≠ some .directory := by
    rw [replaced.entries, if_neg fun same => blockName_ne_index t (Disk.snoc_inj.1 same).2.symm,
      if_neg fun same => draftName_ne_index t (Disk.snoc_inj.1 same).2.symm]
    exact free _ (by simp)
  have leads' := leads.mono replaced.keeps
  have appended := Disk.change_of_free leads' isName_index fineIndex freeIndex (· ++ Index.writeEntry (describe t fs))
  have synced : ∀ s, (c.put (k ++ [indexName]) (.file s)).sync (indexPath p) = .ok () := by
    intro s
    refine Disk.sync_of_present (leads'.mono (Disk.keepsDirectories_put freeIndex (.file s))) isName_index fineIndex ?_
    rw [Disk.at?_put _ (snoc_ne_nil k indexName), if_pos rfl]
    simp
  exact ⟨c, _, stored, Action.runOn_bind_ok_iff.2
    ⟨(), _, Action.runOn_ask_ok_iff.2 appended, Action.runOn_ask_ok_iff.2 (Prod.ext (synced _) rfl)⟩⟩

/-- A write looks neither at the number of flows nor at their size: where one block is written, any other block of the
same time would have been. -/
theorem writeBlock_any {token : LockToken} {i : String} {t : Timestamp} {fs : List Flow} {x : Descriptor}
    (leads : d.LeadsTo a.root l) (wrote : (a.writeBlock token i t fs).runOn d = (.ok x, e)) (gs : List Flow) :
    ∃ c, (a.writeBlock token i t gs).runOn d = (.ok (describe t gs), c) := by
  obtain ⟨valid, rfl, b, b', c, s, made, absent, stored, indexed, modified⟩ := writeBlock_steps wrote
  have leadsB : b.LeadsTo a.root l := by
    have extended := Disk.makeDirectories_extends d (a.partitionPath i t)
    rw [made] at extended
    exact leads.mono extended.keepsDirectories
  obtain ⟨k, inside⟩ := leadsTo_of_storeBlock stored
  obtain ⟨rfl, -, -⟩ := leadsTo_partition leadsB (isName_of_isInterfaceName valid) (isName_partition _) inside
  obtain ⟨fineBlock, fineIndex, filed⟩ := file_ok inside stored indexed
  have fineDraft := fineDraft_of_replaceFile inside (isName_draft t) stored
  obtain ⟨b'', c', stored', indexed'⟩ := file_of_free inside fineDraft fineBlock fineIndex filed.free gs
  obtain ⟨-, -, filed'⟩ := file_ok inside stored' indexed'
  -- The ledger is as it is where the one block has been filed.
  obtain ⟨unlocked, fineLock, fineSummary⟩ := unlocked_of_modify (leadsB.mono filed.keeps) modified
  have same : ∀ y, c'.at? (l ++ [y]) = c.at? (l ++ [y]) := fun y => by
    rw [filed'.rest _ (by simp) (by simp) (by simp), filed.rest _ (by simp) (by simp) (by simp)]
  have unlocked' : a.Unlocked l c' := by
    obtain ⟨-, lock, draft, summary⟩ := unlocked
    rw [← same] at lock draft summary
    exact ⟨leadsB.mono filed'.keeps, lock, draft, summary⟩
  obtain ⟨e', modified', -⟩ := unlocked'.runOn_modify token fun old => .ok (Summary.append old i (describe t gs))
  rw [outcomeOfChange, fineLock, fineSummary] at modified'
  exact ⟨e', writeBlock_of_steps valid made absent stored' indexed' modified'⟩

end Archive

end FlowArchive
