import FlowArchive.Archive.Ledger
import FlowArchive.Proofs.Action
import FlowArchive.Proofs.SummaryDocument
import FlowArchive.Proofs.Trees

/-!
# Changes of the ledger

A change that succeeds found no lock, applied itself to the summary that was stored, and leaves the new summary,
no draft and no lock. It does nothing else to the disk.
-/

namespace FlowArchive

open FlowArchive.Path (IsName)
open Disk (snoc_ne_nil)

/-- The summary that stands in an archive's directory, if it can be read. -/
def Disk.summaryAt (d : Disk) (l : Location) : Option Summary :=
  (d.content? (l ++ [Archive.summaryName])).bind Summary.read?

namespace Archive

variable {a : Archive} {token : LockToken} {d e : Disk} {l m : Location} {s : Summary}

/-- The name of the file that a new summary is written to. -/
def summaryDraftName : String := summaryName ++ ".tmp"

def ledgerNames : List String := [summaryName, summaryDraftName, lockName]

theorem mem_ledgerNames {x : String} :
    x ∈ ledgerNames ↔ x = summaryName ∨ x = summaryDraftName ∨ x = lockName := by
  simp [ledgerNames]

/-- The file of a name of the ledger in the directory of an archive. -/
def IsLedgerFile (l m : Location) : Prop := ∃ x ∈ ledgerNames, m = l ++ [x]

/-- What is further down is no file of the ledger. -/
theorem not_isLedgerFile (l : Location) (i n : String) (rest : List String) :
    ¬ IsLedgerFile l (l ++ i :: n :: rest) := by
  rintro ⟨x, -, same⟩
  simp at same

theorem isName_summary : IsName summaryName := by decide +kernel
theorem isName_summaryDraft : IsName summaryDraftName := by decide +kernel
theorem isName_lock : IsName lockName := by decide +kernel

theorem summary_ne_lock (l : Location) : l ++ [summaryName] ≠ l ++ [lockName] := fun same =>
  absurd (Disk.snoc_inj.1 same).2 (by decide +kernel)

theorem draft_ne_lock (l : Location) : l ++ [summaryDraftName] ≠ l ++ [lockName] := fun same =>
  absurd (Disk.snoc_inj.1 same).2 (by decide +kernel)

theorem draft_ne_summary (l : Location) : l ++ [summaryDraftName] ≠ l ++ [summaryName] := fun same =>
  absurd (Disk.snoc_inj.1 same).2 (by decide +kernel)

/-- A summary has been stored, and nothing else has changed. -/
structure Stored (a : Archive) (l : Location) (s : Summary) (d e : Disk) : Prop where
  home : e.home = d.home
  summary : e.at? (l ++ [summaryName]) = some (.file s.write)
  draft : e.at? (l ++ [summaryDraftName]) = none
  lock : e.at? (l ++ [lockName]) = none
  rest : ∀ m, ¬ IsLedgerFile l m → e.at? m = d.at? m
  /-- No directory was in the way. -/
  free : ∀ x ∈ ledgerNames, d.at? (l ++ [x]) ≠ some .directory
  tree : ∀ k, d.IsTree k → e.IsTree k
  fine : Disk.joinFault? a.root summaryName = none

theorem Stored.keepsDirectories (stored : a.Stored l s d e) : Disk.KeepsDirectories d e := by
  refine ⟨stored.home, fun m there => ?_⟩
  rw [stored.rest m]
  · exact there
  · rintro ⟨x, listed, rfl⟩
    exact stored.free x listed there

/-- The ledger has no directories. -/
theorem Stored.directory_iff (stored : a.Stored l s d e) :
    e.at? m = some .directory ↔ d.at? m = some .directory := by
  refine ⟨fun there => ?_, fun there => stored.keepsDirectories.kept m there⟩
  rw [← stored.rest m]
  · exact there
  · rintro ⟨x, listed, rfl⟩
    rcases mem_ledgerNames.1 listed with rfl | rfl | rfl
    · rw [stored.summary] at there
      cases there
    · rw [stored.draft] at there
      cases there
    · rw [stored.lock] at there
      cases there

theorem summaryAt_of_written (written : d.at? (l ++ [summaryName]) = some (.file s.write)) : d.summaryAt l = some s := by
  rw [Disk.summaryAt, Disk.content?_eq_some.2 written, Option.bind_some, Summary.read_write]

theorem Stored.summaryAt (stored : a.Stored l s d e) : e.summaryAt l = some s := summaryAt_of_written stored.summary

/-! ## Replacing a file -/

/-- Writes a file under a draft name and moves it to its own. -/
def replaceFile (p : Path) (x y : String) (s : Bytes) : Action Unit := do
  Action.ask (.write (p.join x) s)
  Action.ask (.sync (p.join x))
  Action.ask (.rename (p.join x) (p.join y))

/-- A file in a directory has been replaced by way of a draft. -/
structure Replaced (k : Location) (x y : String) (s : Bytes) (d e : Disk) : Prop where
  freeDraft : d.at? (k ++ [x]) ≠ some .directory
  free : d.at? (k ++ [y]) ≠ some .directory
  keeps : Disk.KeepsDirectories d e
  tree : ∀ l, d.IsTree l → e.IsTree l
  entries : ∀ m, e.at? m = if m = k ++ [y] then some (.file s) else if m = k ++ [x] then none else d.at? m

theorem replaceFile_ok {p : Path} {k : Location} {x y : String} {content : Bytes} (leads : d.LeadsTo p k)
    (nameDraft : IsName x) (name : IsName y) (replaced : (replaceFile p x y content).runOn d = (.ok (), e)) :
    Disk.joinFault? p y = none ∧ Replaced k x y content d e := by
  obtain ⟨⟨⟩, c, drafted, rest⟩ := Action.runOn_bind_ok_iff.1 replaced
  obtain ⟨⟨⟩, c', synced, moved⟩ := Action.runOn_bind_ok_iff.1 rest
  have written : d.change (p.join x) (fun _ => content) = (.ok (), c) := Action.runOn_ask_ok_iff.1 drafted
  obtain ⟨-, freeDraft, rfl⟩ := Disk.change_join leads nameDraft written
  obtain rfl : _ = c' := congrArg Prod.snd (Action.runOn_ask_ok_iff.1 synced)
  have renamed : Disk.rename _ (p.join x) (p.join y) = (.ok (), e) := Action.runOn_ask_ok_iff.1 moved
  have keeps := Disk.keepsDirectories_put freeDraft (.file content)
  have leads' := leads.mono keeps
  obtain ⟨fine, free, there, source, rfl⟩ := Disk.rename_join leads' nameDraft name renamed
  obtain rfl : content = there := by
    rw [Disk.at?_put _ (snoc_ne_nil _ _), if_pos rfl] at source
    cases source
    rfl
  refine ⟨fine, freeDraft, fun there => free (keeps.kept _ there), ?_, fun l tree => ?_, fun m => ?_⟩
  · exact keeps.trans (Disk.keepsDirectories_rename source free)
  · exact (tree.put leads.directory nameDraft (.inr freeDraft)).rename leads'.directory name source free
  · rw [Disk.at?_renamed, Disk.at?_put _ (snoc_ne_nil _ _)]
    split
    · rfl
    · split <;> rfl

/-! ## The lock -/

theorem create_error {p : Path} {f : Fault} (failed : d.create p = (.error f, e)) : e = d := by
  unfold Disk.create at failed
  split at failed
  · cases failed; rfl
  · cases failed; rfl
  · split at failed <;> cases failed
    rfl

/-- However often the lock is tried, it is taken at once or not at all. -/
theorem makeLock_ok {retries : Nat} (made : (a.makeLock retries).runOn d = (.ok (), e)) :
    d.create a.lockPath = (.ok (), e) := by
  have asked : ∀ c : Disk, c.perform (.create a.lockPath) = c.create a.lockPath := fun _ => rfl
  induction retries generalizing d with
  | zero =>
    rw [makeLock, Action.runOn_asked, asked] at made
    cases created : d.create a.lockPath with
    | mk outcome c =>
      rw [created] at made
      cases outcome with
      | ok => cases made; rfl
      | error f => cases f <;> cases made
  | succ retries ih =>
    rw [makeLock, Action.runOn_asked, asked] at made
    cases created : d.create a.lockPath with
    | mk outcome c =>
      rw [created] at made
      cases outcome with
      | ok => cases made; rfl
      | error f =>
        obtain rfl := create_error created
        cases f with
        | present =>
          have again := ih (d := c) made
          rw [created] at again
          cases again
        | _ => cases made

/-- What is read of the stored summary; one that cannot be read counts as absent. -/
theorem runOn_storedSummary (a : Archive) (d : Disk) : ∃ outcome, a.storedSummary.runOn d = (outcome, d) ∧
    outcome.toOption.join = (d.read a.summaryPath).toOption.bind Summary.read? := by
  have asked : d.perform (.read a.summaryPath) = (d.read a.summaryPath, d) := rfl
  rw [storedSummary, Action.runOn_asked, asked]
  cases stored : d.read a.summaryPath with
  | ok s =>
    cases read : Summary.read? s with
    | none => exact ⟨.error .unreadableSummary, by simp only [read]; rfl, by simp [Except.toOption, read]⟩
    | some summary => exact ⟨.ok (some summary), by simp only [read]; rfl, by simp [Except.toOption, read]⟩
  | error f =>
    cases f with
    | missing => exact ⟨.ok none, rfl, rfl⟩
    | _ => exact ⟨.error (.fault _), rfl, rfl⟩

/-! ## The change -/

/-- The lock of an archive has been taken, and nothing else has changed. -/
structure Locked (l : Location) (mark : Bytes) (d e : Disk) : Prop where
  free : d.at? (l ++ [lockName]) = none
  keeps : Disk.KeepsDirectories d e
  tree : ∀ k, d.IsTree k → e.IsTree k
  entries : ∀ m, e.at? m = if m = l ++ [lockName] then some (.file mark) else d.at? m

theorem acquire_ok (acquired : (a.acquire token).runOn d = (.ok (), e)) :
    ∃ l mark, d.LeadsTo a.root l ∧ Disk.joinFault? a.root lockName = none ∧ Locked l mark d e := by
  obtain ⟨⟨⟩, c, made, marked⟩ := Action.runOn_bind_ok_iff.1 acquired
  have created := makeLock_ok made
  have found : ∃ r, d.find a.lockPath = .ok r := by
    cases found : d.find a.lockPath with
    | ok r => exact ⟨r, rfl⟩
    | error f => simp [Disk.create, found] at created
  obtain ⟨r, found⟩ := found
  obtain ⟨l, leads, -, -⟩ := Disk.find_join_inv isName_lock found
  obtain ⟨fine, free, rfl⟩ := Disk.create_join leads isName_lock created
  have empty : d.at? (l ++ [lockName]) ≠ some .directory := by simp [free]
  have keeps := Disk.keepsDirectories_put empty (.file [])
  have changed : Disk.change _ (a.root.join lockName) (· ++ token) = (.ok (), e) := Action.runOn_ask_ok_iff.1 marked
  obtain ⟨-, freeAgain, rfl⟩ := Disk.change_join (leads.mono keeps) isName_lock changed
  generalize (Disk.content? _ _).getD [] ++ token = mark
  refine ⟨l, mark, leads, fine, free, keeps.trans (Disk.keepsDirectories_put freeAgain _), ?_, ?_⟩
  · intro k tree
    exact (tree.put leads.directory isName_lock (.inr empty)).put (keeps.kept l leads.directory) isName_lock
      (.inr freeAgain)
  · intro m
    rw [Disk.at?_put _ (snoc_ne_nil _ _), Disk.at?_put _ (snoc_ne_nil _ _)]
    split <;> rfl

theorem release_ok {mark : Bytes} (leads : d.LeadsTo a.root l) (fine : Disk.joinFault? a.root lockName = none)
    (held : d.at? (l ++ [lockName]) = some (.file mark)) :
    (a.release.run d).2 = { d with entries := d.entries.erase (l ++ [lockName]) } := by
  have removed : d.remove a.lockPath = (.ok (), { d with entries := d.entries.erase (l ++ [lockName]) }) :=
    Disk.remove_join leads isName_lock fine held
  exact congrArg Prod.snd removed

theorem applyChange_ok {change : Option Summary → Except Failure Summary}
    (applied : (a.applyChange change).runOn d = (.ok s, e)) :
    change ((d.read a.summaryPath).toOption.bind Summary.read?) = .ok s ∧ (a.commit s).runOn d = (.ok (), e) := by
  obtain ⟨stored, read, same⟩ := runOn_storedSummary a d
  have attempted : a.storedSummary.attempt.runOn d = (.ok stored, d) := by rw [Action.runOn_attempt, read]
  rw [applyChange, Action.runOn_bind_of_ok attempted, same] at applied
  obtain ⟨new, c, changed, rest⟩ := Action.runOn_bind_ok_iff.1 applied
  obtain ⟨⟨⟩, c', committed, last⟩ := Action.runOn_bind_ok_iff.1 rest
  cases last
  cases changed' : change ((d.read a.summaryPath).toOption.bind Summary.read?) with
  | error f => rw [changed'] at changed; cases changed
  | ok s' =>
    rw [changed'] at changed
    cases changed
    exact ⟨rfl, committed⟩

theorem read_summary (leads : d.LeadsTo a.root l) (fine : Disk.joinFault? a.root summaryName = none) :
    (d.read a.summaryPath).toOption.bind Summary.read? = d.summaryAt l := by
  rw [Disk.summaryAt, Disk.read, summaryPath, Disk.find_join_ok leads isName_summary fine, Disk.content?]
  cases d.at? (l ++ [summaryName]) with
  | none => rfl
  | some entry => cases entry <;> rfl

/-- A summary that was replaced between the taking and the release of the lock has been stored. -/
theorem Locked.stored {mark : Bytes} {b c : Disk} (locked : Locked l mark d b)
    (replaced : Replaced l summaryDraftName summaryName s.write b c) (fine : Disk.joinFault? a.root summaryName = none) :
    a.Stored l s d { c with entries := c.entries.erase (l ++ [lockName]) } := by
  have entries : ∀ m, ({ c with entries := c.entries.erase (l ++ [lockName]) } : Disk).at? m =
      if m = l ++ [lockName] then none else if m = l ++ [summaryName] then some (.file s.write)
      else if m = l ++ [summaryDraftName] then none else d.at? m := by
    intro m
    rw [Disk.at?_erase _ (snoc_ne_nil _ _), replaced.entries, locked.entries]
    split <;> rfl
  have freeDraft := replaced.freeDraft
  have freeSummary := replaced.free
  rw [locked.entries, if_neg (draft_ne_lock l)] at freeDraft
  rw [locked.entries, if_neg (summary_ne_lock l)] at freeSummary
  constructor
  case home => exact replaced.keeps.home.trans locked.keeps.home
  case summary => rw [entries, if_neg (summary_ne_lock l), if_pos rfl]
  case draft => rw [entries, if_neg (draft_ne_lock l), if_neg (draft_ne_summary l), if_pos rfl]
  case lock => rw [entries, if_pos rfl]
  case rest =>
    intro m other
    rw [entries, if_neg fun here => other ⟨_, mem_ledgerNames.2 (.inr (.inr rfl)), here⟩,
      if_neg fun here => other ⟨_, mem_ledgerNames.2 (.inl rfl), here⟩,
      if_neg fun here => other ⟨_, mem_ledgerNames.2 (.inr (.inl rfl)), here⟩]
  case free =>
    intro x listed
    rcases mem_ledgerNames.1 listed with rfl | rfl | rfl
    · exact freeSummary
    · exact freeDraft
    · rw [locked.free]
      simp
  case tree =>
    intro k tree
    refine (replaced.tree k (locked.tree k tree)).erase ?_
    rw [replaced.entries, if_neg (summary_ne_lock l).symm, if_neg (draft_ne_lock l).symm, locked.entries, if_pos rfl]
    simp
  case fine => exact fine

/-- What the change of a ledger that succeeds comes to. -/
theorem modify_ok {change : Option Summary → Except Failure Summary}
    (modified : (a.modify token change).runOn d = (.ok s, e)) :
    ∃ l, d.LeadsTo a.root l ∧ change (d.summaryAt l) = .ok s ∧ a.Stored l s d e := by
  obtain ⟨⟨⟩, b, acquired, rest⟩ := Action.runOn_bind_ok_iff.1 modified
  obtain ⟨l, mark, leads, fineLock, locked⟩ := acquire_ok acquired
  obtain ⟨outcome, c, applied, rest⟩ := Action.runOn_bind_ok_iff.1 rest
  obtain ⟨⟨⟩, c', released, last⟩ := Action.runOn_bind_ok_iff.1 rest
  rw [Action.runOn_ofScript] at released
  cases last
  obtain ⟨changed, committed⟩ := applyChange_ok (Action.runOn_attempt_ok_iff.1 applied)
  have leads' := leads.mono locked.keeps
  obtain ⟨fine, replaced⟩ := replaceFile_ok leads' isName_summaryDraft isName_summary committed
  have held : c.at? (l ++ [lockName]) = some (.file mark) := by
    rw [replaced.entries, if_neg (summary_ne_lock l).symm, if_neg (draft_ne_lock l).symm, locked.entries, if_pos rfl]
  obtain rfl : (a.release.run c).2 = e := congrArg Prod.snd released
  rw [release_ok (leads'.mono replaced.keeps) fineLock held]
  refine ⟨l, leads, ?_, locked.stored replaced fine⟩
  -- The change saw the summary through the lock, which is another file.
  have unchanged : b.content? (l ++ [summaryName]) = d.content? (l ++ [summaryName]) :=
    Disk.content?_congr (by rw [locked.entries, if_neg (summary_ne_lock l)])
  rwa [read_summary leads' fine, Disk.summaryAt, unchanged] at changed

/-! ## How a change fails -/

variable {bad : Failure → Prop} {change : Option Summary → Except Failure Summary}

theorem avoids_makeLock (faults : ∀ g, ¬ bad (.fault g)) (inTime : ¬ bad (.lockTimeout a.lockLimit)) (retries : Nat) :
    (a.makeLock retries).Avoids bad := by
  induction retries with
  | zero =>
    intro d x e failed
    rw [makeLock, Action.runOn_asked] at failed
    split at failed
    · cases failed
    · cases failed
      exact inTime
    · cases failed
      exact faults _
  | succ retries ih =>
    intro d x e failed
    rw [makeLock, Action.runOn_asked] at failed
    split at failed
    · cases failed
    · exact ih _ x e failed
    · cases failed
      exact faults _

theorem avoids_replaceFile (faults : ∀ g, ¬ bad (.fault g)) (p : Path) (x y : String) (s : Bytes) :
    (replaceFile p x y s).Avoids bad :=
  Action.avoids_bind (Action.avoids_ask faults _) fun _ =>
    Action.avoids_bind (Action.avoids_ask faults _) fun _ => Action.avoids_ask faults _

/-- Under the lock, nothing fails but requests and the change. -/
theorem avoids_applyChange (faults : ∀ g, ¬ bad (.fault g)) (good : ∀ old x, change old = .error x → ¬ bad x) :
    (a.applyChange change).Avoids bad := by
  refine Action.avoids_bind (Action.avoids_ofScript _) fun old => ?_
  refine Action.avoids_bind (Action.avoids_ofExcept (good _)) fun new => ?_
  exact Action.avoids_bind (avoids_replaceFile faults _ _ _ _) fun _ => Action.avoids_pure new

theorem avoids_modify (faults : ∀ g, ¬ bad (.fault g)) (inTime : ¬ bad (.lockTimeout a.lockLimit))
    (good : ∀ old x, change old = .error x → ¬ bad x) : (a.modify token change).Avoids bad := by
  refine Action.avoids_bind ?_ fun _ => ?_
  · exact Action.avoids_bind (avoids_makeLock faults inTime _) fun _ => Action.avoids_ask faults _
  · intro d x e failed
    rcases Action.runOn_bind_error_iff.1 failed with early | ⟨outcome, c, attempted, rest⟩
    · exact Action.avoids_ofScript _ d x e early
    have applied := Action.runOn_attempt_ok_iff.1 attempted
    rcases Action.runOn_bind_error_iff.1 rest with early | ⟨⟨⟩, c', -, last⟩
    · exact Action.avoids_ofScript _ c x e early
    · cases last
      exact avoids_applyChange faults good d x c applied

end Archive

end FlowArchive
