import FlowArchive.Proofs.Answers
import FlowArchive.Proofs.Progress

/-!
# Changes of the ledger that fail

A change of the ledger can fail at any of its requests. Once the lock is taken, every way out of the change gives it
back, and whoever reads the summary later reads the new one if the change succeeded and else the old one. The only way
out that leaves the lock is one before the lock counts as taken: it has been made, but could not be marked.
-/

namespace FlowArchive

open FlowArchive.Path (IsName)
open Disk (Edits snoc_ne_nil)

variable {mayRefuse : Request → Prop} {b c d e : Disk} {f : Failure} {g : Fault}

/-! ## Parts of an action -/

theorem Script.Ends.bind {α β : Type} {s : Script α} {f : α → Script β} {a : α} {v : β} (first : s.Ends mayRefuse d a c)
    (rest : (f a).Ends mayRefuse c v e) : (s >>= f).Ends mayRefuse d v e := by
  change (Script.bind s f).Ends mayRefuse d v e
  induction first with
  | done a d => exact rest
  | answered _ ih => exact .answered (ih rest)
  | refused g allowed remains _ ih => exact .refused g allowed remains (ih rest)

namespace Action

variable {α β : Type} {r : Request}

/-- A chain of actions ends in its first part, which fails, or with what follows. -/
theorem ends_bind {t : Action α} {f : α → Action β} {o : Except Failure β} (ended : (t >>= f).Ends mayRefuse d o e) :
    (∃ x, o = .error x ∧ t.Ends mayRefuse d (.error x) e) ∨
      ∃ a c, t.Ends mayRefuse d (.ok a) c ∧ (f a).Ends mayRefuse c o e := by
  obtain ⟨outcome, c, first, rest⟩ := Script.Ends.of_bind (s := t.script) (f := ExceptT.bindCont f) ended
  cases outcome with
  | error x =>
    cases rest
    exact .inl ⟨x, rfl, first⟩
  | ok a => exact .inr ⟨a, c, first, rest⟩

theorem ends_of_runOn {t : Action α} {o : Except Failure α} (ran : t.runOn d = (o, e)) : t.Ends mayRefuse d o e := by
  have ended := Script.ends_run mayRefuse t.script d
  change Script.Ends _ _ _ (t.runOn d).1 (t.runOn d).2 at ended
  rwa [ran] at ended

theorem ends_of_bind_ok {t : Action α} {f : α → Action β} {a : α} {o : Except Failure β}
    (first : t.Ends mayRefuse d (.ok a) c) (rest : (f a).Ends mayRefuse c o e) : (t >>= f).Ends mayRefuse d o e :=
  Script.Ends.bind (f := ExceptT.bindCont f) first rest

theorem ends_of_bind_error {t : Action α} {f : α → Action β} {x : Failure} (failed : t.Ends mayRefuse d (.error x) e) :
    (t >>= f).Ends mayRefuse d (.error x) e :=
  Script.Ends.bind (f := ExceptT.bindCont f) failed (.done _ _)

theorem ends_of_attempt {t : Action α} {o : Except Failure α} (ended : t.Ends mayRefuse d o e) :
    t.attempt.Ends mayRefuse d (.ok o) e :=
  Script.Ends.bind (f := fun o => (pure (.ok o) : Script (Except Failure (Except Failure α)))) ended (.done _ _)

theorem ends_of_refused (g : Fault) (allowed : mayRefuse r) (remains : d.Remains r e) :
    (ask r).Ends mayRefuse d (.error (.fault g)) e := .refused g allowed remains (.done _ _)

/-- An action that begins with a request goes on from an answer to it. -/
theorem ends_answers {next : Except Fault r.Answer → Script (Except Failure α)} {o : Except Failure α}
    (ended : Ends mayRefuse (ExceptT.mk ((Script.request r).bind next)) d o e) :
    ∃ answer c, d.Answers mayRefuse r answer c ∧ (next answer).Ends mayRefuse c o e := by
  cases ended with
  | answered rest => exact ⟨_, _, .performed rfl, rest⟩
  | refused f allowed remains rest => exact ⟨_, _, .refused f allowed remains, rest⟩

theorem ends_ask {o : Except Failure r.Answer} (ended : (ask r).Ends mayRefuse d o e) :
    ∃ answer, d.Answers mayRefuse r answer e ∧ o = answer.mapError .fault := by
  obtain ⟨answer, c, answers, rest⟩ := ends_answers ended
  cases answer <;> cases rest <;> exact ⟨_, answers, rfl⟩

end Action

namespace Archive

variable {a : Archive} {token : LockToken} {l : Location} {s : Summary}
  {change : Option Summary → Except Failure Summary}

/-! ## The lock -/

/-- The lock is made by a request that is answered, or nothing has changed. -/
theorem ends_makeLock {retries : Nat} {o : Except Failure Unit} (ended : (a.makeLock retries).Ends mayRefuse d o e) :
    o = .ok () ∧ d.create a.lockPath = (.ok (), e) ∨ (∃ f, o = .error f) ∧ e = d := by
  induction retries generalizing d with
  | zero =>
    rw [makeLock] at ended
    obtain ⟨answer, c, answers, rest⟩ := Action.ends_answers ended
    cases answer with
    | ok =>
      cases rest
      exact .inl ⟨rfl, answers.ran_of_ok⟩
    | error g =>
      obtain rfl := answers.unchanged trivial
      cases g <;> cases rest <;> exact .inr ⟨⟨_, rfl⟩, rfl⟩
  | succ retries ih =>
    rw [makeLock] at ended
    obtain ⟨answer, c, answers, rest⟩ := Action.ends_answers ended
    cases answer with
    | ok =>
      cases rest
      exact .inl ⟨rfl, answers.ran_of_ok⟩
    | error g =>
      obtain rfl := answers.unchanged trivial
      cases g with
      | present =>
        -- After the pause, which changes nothing, the lock is tried again.
        cases rest with
        | answered again => exact ih again
        | refused _ _ remains again =>
          cases remains
          exact ih again
      | _ =>
        cases rest
        exact .inr ⟨⟨_, rfl⟩, rfl⟩

theorem leadsTo_of_create (created : d.create a.lockPath = (.ok (), e)) :
    ∃ l, d.LeadsTo a.root l ∧ Disk.joinFault? a.root lockName = none ∧ d.at? (l ++ [lockName]) = none ∧
      e = d.put (l ++ [lockName]) (.file []) := by
  have found : ∃ r, d.find a.lockPath = .ok r := by
    cases found : d.find a.lockPath with
    | ok r => exact ⟨r, rfl⟩
    | error f => simp [Disk.create, found] at created
  obtain ⟨r, found⟩ := found
  obtain ⟨l, leads, -, -⟩ := Disk.find_join_inv isName_lock found
  obtain ⟨fine, free, rfl⟩ := Disk.create_join leads isName_lock created
  exact ⟨l, leads, fine, free, rfl⟩

/-- A lock that has been taken, in part or whole, is a file where there was none. -/
theorem locked_of_edits {mark : Bytes} (free : d.at? (l ++ [lockName]) = none)
    (edits : Edits (IsLock l) d e) (held : e.at? (l ++ [lockName]) = some (.file mark)) :
    Locked l mark d e := by
  refine ⟨free, edits.keepsDirectories, fun k tree => edits.isTree tree, fun m => ?_⟩
  split
  next here => rw [here, held]
  next other => exact edits.rest m other

/-- The lock is taken, or nothing has changed, or the lock has been made and the request to mark it was refused. -/
theorem ends_acquire {o : Except Failure Unit} (ended : (a.acquire token).Ends mayRefuse d o e) :
    (∃ f, o = .error f) ∧ e = d ∨
    ∃ l, d.LeadsTo a.root l ∧ Disk.joinFault? a.root lockName = none ∧
      (o = .ok () ∧ Locked l token d e ∨
        (∃ g, o = .error (.fault g)) ∧ mayRefuse (.append a.lockPath token) ∧ ∃ n, Locked l (token.take n) d e) := by
  rcases Action.ends_bind ended with ⟨f, rfl, unmade⟩ | ⟨⟨⟩, c, made, rest⟩
  · rcases ends_makeLock unmade with ⟨ok, -⟩ | ⟨-, rfl⟩
    · cases ok
    · exact .inl ⟨⟨f, rfl⟩, rfl⟩
  rcases ends_makeLock made with ⟨-, created⟩ | ⟨⟨f, failed⟩, -⟩
  case inr => cases failed
  obtain ⟨l, leads, fine, free, rfl⟩ := leadsTo_of_create created
  have absent : d.at? (l ++ [lockName]) ≠ some .directory := by simp [free]
  have put : Edits (IsLock l) d (d.put (l ++ [lockName]) (.file [])) :=
    Disk.edits_put (M := IsLock l) rfl isName_lock leads.directory absent []
  have leads' := put.leadsTo_iff.2 leads
  have held : (d.put (l ++ [lockName]) (.file [])).at? (l ++ [lockName]) = some (.file []) := by
    rw [Disk.at?_put _ (snoc_ne_nil l lockName), if_pos rfl]
  have into : (d.put (l ++ [lockName]) (.file [])).LeadsInto (IsLock l) a.lockPath :=
    leadsInto_root leads' isName_lock rfl
  -- Whatever is appended to the new lock is all that it holds.
  have appended : ∀ more : Bytes, ∃ e, (d.put (l ++ [lockName]) (.file [])).change a.lockPath (· ++ more) = (.ok (), e) ∧
      Locked l more d e := by
    intro more
    have changed := Disk.change_of_free leads' isName_lock fine (by simp [held]) (· ++ more)
    have edits := put.trans (Disk.edits_change into (· ++ more))
    refine ⟨_, changed, locked_of_edits free ?_ ?_⟩
    · change Edits _ _ (Disk.change _ (a.root.join lockName) _).2 at edits
      rwa [changed] at edits
    · rw [Disk.at?_put _ (snoc_ne_nil l lockName), if_pos rfl, Disk.content?, held]
      rfl
  refine .inr ⟨l, leads, fine, ?_⟩
  obtain ⟨answer, answers, rfl⟩ := Action.ends_ask rest
  cases answers with
  | performed ran =>
    obtain ⟨e', changed, locked⟩ := appended token
    obtain ⟨rfl, rfl⟩ := Prod.mk.inj (ran.symm.trans changed)
    exact .inl ⟨rfl, locked⟩
  | refused g allowed remains =>
    refine .inr ⟨⟨g, rfl⟩, allowed, ?_⟩
    cases remains with
    | untouched => exact ⟨0, locked_of_edits free put held⟩
    | tornEnd p more n =>
      obtain ⟨e', changed, locked⟩ := appended (token.take n)
      rw [changed]
      exact ⟨n, locked⟩

/-! ## The change under the lock -/

/-- The summary is read, or the request to read it was refused; then it counts as absent. -/
theorem ends_storedSummary {o : Except Failure (Option Summary)} (ended : a.storedSummary.Ends mayRefuse d o e) :
    e = d ∧ (o.toOption.join = (d.read a.summaryPath).toOption.bind Summary.read? ∨
      mayRefuse (.read a.summaryPath) ∧ o.toOption.join = none) := by
  rw [storedSummary] at ended
  obtain ⟨answer, c, answers, rest⟩ := Action.ends_answers ended
  cases answers with
  | performed ran =>
    obtain ⟨rfl, rfl⟩ := Prod.mk.inj ran
    cases held : d.read a.summaryPath with
    | ok content =>
      rw [held] at rest
      cases read : Summary.read? content with
      | none =>
        simp only [read] at rest
        cases rest
        exact ⟨rfl, .inl (by simp [Except.toOption, read])⟩
      | some s =>
        simp only [read] at rest
        cases rest
        exact ⟨rfl, .inl (by simp [Except.toOption, read])⟩
    | error g =>
      rw [held] at rest
      cases g <;> cases rest <;> exact ⟨rfl, .inl rfl⟩
  | refused g allowed remains =>
    cases remains
    cases g <;> cases rest <;> exact ⟨rfl, .inr ⟨allowed, rfl⟩⟩

/-- Under the lock, the new summary is stored by requests that are answered, or no more than its draft has changed. -/
theorem ends_applyChange {o : Except Failure Summary} (leads : d.LeadsTo a.root l)
    (ended : (a.applyChange change).Ends mayRefuse d o e) :
    (∃ f, o = .error f) ∧ Edits (· = l ++ [summaryDraftName]) d e ∨
    ∃ s, o = .ok s ∧ (a.commit s).runOn d = (.ok (), e) ∧
      (change ((d.read a.summaryPath).toOption.bind Summary.read?) = .ok s ∨
        mayRefuse (.read a.summaryPath) ∧ change none = .ok s) := by
  have into : d.LeadsInto (· = l ++ [summaryDraftName]) a.summaryDraftPath :=
    leadsInto_root leads isName_summaryDraft rfl
  rcases Action.ends_bind ended with ⟨x, -, reading⟩ | ⟨outcome, c, reading, rest⟩
  · obtain ⟨o', same, -⟩ := Action.ends_ofScript reading
    cases same
  obtain ⟨o', same, read⟩ := Action.ends_ofScript reading
  cases same
  obtain ⟨rfl, seen⟩ := ends_storedSummary read
  rcases Action.ends_bind rest with ⟨x, rfl, computing⟩ | ⟨s, c', computing, storing⟩
  · obtain ⟨-, rfl⟩ := Action.ends_ofExcept computing
    exact .inl ⟨⟨x, rfl⟩, .refl _⟩
  obtain ⟨computed, rfl⟩ := Action.ends_ofExcept computing
  rcases Action.ends_bind storing with ⟨x, rfl, committing⟩ | ⟨⟨⟩, c'', committing, last⟩
  · exact .inl ⟨⟨x, rfl⟩, (failed_replaceFile into committing).1⟩
  cases last
  refine .inr ⟨s, rfl, ends_replaceFile_ok committing, ?_⟩
  rcases seen with seen | ⟨allowed, unseen⟩
  · rw [seen] at computed
    exact .inl computed.symm
  · rw [unseen] at computed
    exact .inr ⟨allowed, computed.symm⟩

/-! ## The whole change -/

/-- Giving the lock back is answered unless it may be refused. -/
theorem ends_release {o : Except Failure Unit} (kept : ¬ mayRefuse (.remove a.lockPath))
    (ended : (Action.ofScript a.release).Ends mayRefuse d o e) : o = .ok () ∧ e = (a.release.run d).2 := by
  obtain ⟨⟨⟩, rfl, released⟩ := Action.ends_ofScript ended
  refine ⟨rfl, ?_⟩
  cases released with
  | answered rest =>
    cases rest
    rfl
  | refused g allowed => exact absurd allowed kept

/-- A change of the ledger has had the lock and has given it back. If it succeeded, the summary is what it makes of the
old one, or of none if the old one could not be read; if it failed, the summary is the old one. -/
structure GivenBack (a : Archive) (mayRefuse : Request → Prop) (change : Option Summary → Except Failure Summary)
    (o : Except Failure Summary) (l : Location) (d e : Disk) : Prop where
  leads : d.LeadsTo a.root l
  free : d.at? (l ++ [lockName]) = none
  lock : e.at? (l ++ [lockName]) = none
  edits : Edits (IsLedgerFile l) d e
  stored : ∀ s, o = .ok s → a.readSummary.runOn e = (.ok s, e) ∧
    (change (d.summaryAt l) = .ok s ∨ mayRefuse (.read a.summaryPath) ∧ change none = .ok s)
  kept : ∀ f, o = .error f → (a.readSummary.runOn e).1 = (a.readSummary.runOn d).1 ∧
    e.content? (l ++ [summaryName]) = d.content? (l ++ [summaryName])
  next : a.Unlocked l d → ∀ token change, ((a.modify token change).runOn e).1 = a.outcomeOfChange change (e.summaryAt l)

/-- A change of the ledger has made the lock, but the request to mark it was refused. Nothing else has changed, and as
long as the lock is there, every change waits for it in vain. -/
structure LeftLocked (a : Archive) (mayRefuse : Request → Prop) (token : LockToken) (o : Except Failure Summary)
    (l : Location) (d e : Disk) : Prop where
  leads : d.LeadsTo a.root l
  refused : mayRefuse (.append a.lockPath token)
  failed : ∃ g, o = .error (.fault g)
  locked : ∃ n, Locked l (token.take n) d e
  stuck : ∀ token change, (a.modify token change).runOn e = (.error (.lockTimeout a.lockLimit), e)

/-- A change of the ledger asks for nothing but changes of the files of the ledger. -/
theorem asks_modify (leads : d.LeadsTo a.root l) (token : LockToken)
    (change : Option Summary → Except Failure Summary) :
    (a.modify token change).Asks (·.Within d (IsLedgerFile l)) := by
  have file {x : String} (name : IsName x) (listed : x ∈ ledgerNames) : d.LeadsInto (IsLedgerFile l) (a.root.join x) :=
    leadsInto_root leads name ⟨x, listed, rfl⟩
  have lock := file isName_lock (mem_ledgerNames.2 (.inr (.inr rfl)))
  have draft := file isName_summaryDraft (mem_ledgerNames.2 (.inr (.inl rfl)))
  have summary := file isName_summary (mem_ledgerNames.2 (.inl rfl))
  have acquire : (a.acquire token).Asks (·.Within d (IsLedgerFile l)) :=
    Action.asks_bind (asks_makeLock lock trivial _) fun _ => Action.asks_ask lock
  have commit (s : Summary) : (a.commit s).Asks (·.Within d (IsLedgerFile l)) :=
    Action.asks_bind (Action.asks_ask draft) fun _ => Action.asks_bind (Action.asks_ask trivial) fun _ =>
      Action.asks_ask ⟨draft, summary⟩
  have apply : (a.applyChange change).Asks (·.Within d (IsLedgerFile l)) :=
    Action.asks_bind (Action.Asks.attempt (asks_storedSummary trivial)) fun _ => Action.asks_bind trivial fun s =>
      Action.asks_bind (commit s) fun _ => trivial
  refine Action.asks_bind acquire fun _ => Action.asks_bind (Action.Asks.attempt apply) fun _ => ?_
  exact Action.asks_bind (Action.asks_ofScript ⟨lock, fun _ => trivial⟩) fun _ => trivial

/-- Where the lock is free again, the next change need not wait. -/
theorem Unlocked.of_edits (unlocked : a.Unlocked l d) (edits : Edits (IsLedgerFile l) d e)
    (lock : e.at? (l ++ [lockName]) = none) : a.Unlocked l e :=
  ⟨edits.leadsTo_iff.2 unlocked.leads, lock, fun there => unlocked.draft (edits.directory_iff.1 there),
    fun there => unlocked.summary (edits.directory_iff.1 there)⟩

theorem Unlocked.outcome (unlocked : a.Unlocked l d) (token : LockToken)
    (change : Option Summary → Except Failure Summary) :
    ((a.modify token change).runOn d).1 = a.outcomeOfChange change (d.summaryAt l) := by
  obtain ⟨e, modified, -⟩ := unlocked.runOn_modify token change
  rw [modified]

/-- What is read of the summary depends on nothing but what stands in its place. -/
theorem readSummary_congr (leads : d.LeadsTo a.root l) (leads' : e.LeadsTo a.root l)
    (same : e.at? (l ++ [summaryName]) = d.at? (l ++ [summaryName])) :
    (a.readSummary.runOn e).1 = (a.readSummary.runOn d).1 := by
  have asked (c : Disk) : c.perform (.read a.summaryPath) = (c.read a.summaryPath, c) := rfl
  have read : e.read a.summaryPath = d.read a.summaryPath := by
    refine Disk.read_congr ?_
    rw [summaryPath, Disk.find_join leads isName_summary, Disk.find_join leads' isName_summary, same]
  rw [Archive.readSummary, Action.runOn_bind, Action.runOn_bind, storedSummary, Action.runOn_asked, Action.runOn_asked,
    asked, asked, read]
  cases d.read a.summaryPath with
  | error g => cases g <;> rfl
  | ok content =>
    dsimp only
    cases Summary.read? content <;> rfl

/-- Whatever a change comes to that has the lock, it gives the lock back. -/
theorem givenBack_of_locked {o : Except Failure Summary} (leads : d.LeadsTo a.root l)
    (fine : Disk.joinFault? a.root lockName = none) (locked : Locked l token d b)
    (applied : (a.applyChange change).Ends mayRefuse b o c) (edits : Edits (IsLedgerFile l) d (a.release.run c).2) :
    a.GivenBack mayRefuse change o l d (a.release.run c).2 := by
  have leads' := leads.mono locked.keeps
  have held : b.at? (l ++ [lockName]) = some (.file token) := by rw [locked.entries, if_pos rfl]
  have released (keeps : Disk.KeepsDirectories b c) (still : c.at? (l ++ [lockName]) = some (.file token)) (m : Location) :
      (a.release.run c).2.at? m = if m = l ++ [lockName] then none else c.at? m := by
    rw [release_ok (leads'.mono keeps) fine still]
    exact Disk.at?_erase _ (snoc_ne_nil l lockName) m
  have leads'' := edits.leadsTo_iff.2 leads
  rcases ends_applyChange leads' applied with ⟨⟨f, rfl⟩, drafted⟩ | ⟨s, rfl, committed, computed⟩
  · have entries := released drafted.keepsDirectories ((drafted.rest _ (draft_ne_lock l).symm).trans held)
    have lock : (a.release.run c).2.at? (l ++ [lockName]) = none := by rw [entries, if_pos rfl]
    have summary : (a.release.run c).2.at? (l ++ [summaryName]) = d.at? (l ++ [summaryName]) := by
      rw [entries, if_neg (summary_ne_lock l), drafted.rest _ (draft_ne_summary l).symm,
        locked.other (summary_ne_lock l)]
    exact {
      leads, lock, edits
      free := locked.free
      stored := fun s ok => by cases ok
      kept := fun _ _ => ⟨readSummary_congr leads leads'' summary, Disk.content?_congr summary⟩
      next := fun unlocked => (unlocked.of_edits edits lock).outcome }
  · obtain ⟨fineSummary, replaced⟩ := replaceFile_ok leads' isName_summaryDraft isName_summary committed
    have still : c.at? (l ++ [lockName]) = some (.file token) := by
      rw [replaced.entries, if_neg (summary_ne_lock l).symm, if_neg (draft_ne_lock l).symm, held]
    have erased := release_ok (leads'.mono replaced.keeps) fine still
    have stored : a.Stored l s d (a.release.run c).2 := erased ▸ locked.stored replaced fineSummary
    have seen : b.summaryAt l = d.summaryAt l := by
      rw [Disk.summaryAt, Disk.summaryAt, Disk.content?_congr (locked.other (summary_ne_lock l))]
    rw [read_summary leads' fineSummary, seen] at computed
    exact {
      leads, edits
      free := locked.free
      lock := stored.lock
      stored := fun s' same => by
        cases same
        exact ⟨stored.readSummary leads'', computed⟩
      kept := fun f failed => by cases failed
      next := fun unlocked => (unlocked.of_edits edits stored.lock).outcome }

/-- A change of the ledger fails before it has the lock and has done nothing, or it gives the lock back, or the lock
could not be marked. -/
theorem failed_change {o : Except Failure Summary} (kept : ¬ mayRefuse (.remove a.lockPath))
    (ended : (a.modify token change).Ends mayRefuse d o e) :
    (∃ f, o = .error f) ∧ e = d ∨ ∃ l, a.GivenBack mayRefuse change o l d e ∨ a.LeftLocked mayRefuse token o l d e := by
  rcases Action.ends_bind ended with ⟨x, rfl, missed⟩ | ⟨⟨⟩, b, taken, rest⟩
  · rcases ends_acquire missed with ⟨-, rfl⟩ | ⟨l, leads, fine, ⟨ok, -⟩ | ⟨⟨g, same⟩, refused, n, locked⟩⟩
    · exact .inl ⟨⟨x, rfl⟩, rfl⟩
    · cases ok
    · cases same
      refine .inr ⟨l, .inr ⟨leads, refused, ⟨g, rfl⟩, ⟨n, locked⟩, ?_⟩⟩
      exact modify_of_blocked (leads.mono locked.keeps) fine (by rw [locked.entries, if_pos rfl]; simp)
  rcases ends_acquire taken with ⟨⟨f, failed⟩, -⟩ | ⟨l, leads, fine, ⟨-, locked⟩ | ⟨⟨g, failed⟩, -⟩⟩
  case inl => cases failed
  case inr.inr => cases failed
  rcases Action.ends_bind rest with ⟨x, -, attempted⟩ | ⟨outcome, c, attempted, releasing⟩
  · obtain ⟨o', same, -⟩ := Action.ends_ofScript attempted
    cases same
  obtain ⟨o', same, applied⟩ := Action.ends_ofScript attempted
  cases same
  rcases Action.ends_bind releasing with ⟨x, -, released⟩ | ⟨⟨⟩, c', released, last⟩
  · cases (ends_release kept released).1
  obtain ⟨-, rfl⟩ := ends_release kept released
  obtain ⟨rfl, rfl⟩ := Action.ends_ofExcept last
  have edits := ended.edits (asks_modify leads token change) (.refl d)
  exact .inr ⟨l, .inl (givenBack_of_locked leads fine locked applied edits)⟩

/-! ### A draft that could not be written, and a lock that could not be marked -/

/-- The written disk while a program holds the lock. -/
def heldDisk : Disk := ((newArchive.acquire [7]).runOn writtenDisk).2

theorem acquire_written : (newArchive.acquire [7]).runOn writtenDisk = (.ok (), heldDisk) :=
  Prod.ext (Action.toOption_eq_some.1 (by decide +kernel)) rfl

/-- The disk is full: of a new summary one byte was stored. The lock has been given back. -/
def fullDisk : Disk :=
  (newArchive.release.run (heldDisk.change newArchive.summaryDraftPath fun _ => Summary.empty.write.take 1).2).2

theorem failed_change_full :
    ¬ (∃ p s, Request.remove newArchive.lockPath = .write p s) ∧
    (newArchive.modify [7] fun _ => .ok .empty).Ends (fun r => ∃ p s, r = .write p s) writtenDisk
      (.error (.fault (.other "full"))) fullDisk ∧
    newArchive.GivenBack (fun r => ∃ p s, r = .write p s) (fun _ => .ok .empty) (.error (.fault (.other "full")))
      ["data"] writtenDisk fullDisk := by
  have kept : ¬ ∃ p s, Request.remove newArchive.lockPath = .write p s := by
    rintro ⟨p, s, same⟩
    cases same
  have ended : (newArchive.modify [7] fun _ => .ok .empty).Ends (fun r => ∃ p s, r = .write p s) writtenDisk
      (.error (.fault (.other "full"))) fullDisk := by
    obtain ⟨outcome, read, -⟩ := runOn_storedSummary newArchive heldDisk
    have refused : (newArchive.commit .empty).Ends (fun r => ∃ p s, r = .write p s) heldDisk
        (.error (.fault (.other "full")))
        (heldDisk.change newArchive.summaryDraftPath fun _ => Summary.empty.write.take 1).2 :=
      Action.ends_of_bind_error (Action.ends_of_refused _ ⟨_, _, rfl⟩ (.torn _ _ 1))
    have applied : (newArchive.applyChange fun _ => .ok .empty).Ends (fun r => ∃ p s, r = .write p s) heldDisk
        (.error (.fault (.other "full")))
        (heldDisk.change newArchive.summaryDraftPath fun _ => Summary.empty.write.take 1).2 :=
      Action.ends_of_bind_ok (Action.ends_of_attempt (Action.ends_of_runOn read))
        (Action.ends_of_bind_ok (Action.ends_of_runOn (Action.runOn_ofExcept _ _)) (Action.ends_of_bind_error refused))
    exact Action.ends_of_bind_ok (Action.ends_of_runOn acquire_written)
      (Action.ends_of_bind_ok (Action.ends_of_attempt applied)
        (Action.ends_of_bind_ok (Action.ends_of_runOn (Action.runOn_ofScript _ _)) (.done _ _)))
  refine ⟨kept, ended, ?_⟩
  have leads := (runs_writtenDisk.consistent isFresh_newDisk).1.leads
  rcases failed_change kept ended with ⟨-, same⟩ | ⟨l, given | left⟩
  · have there : fullDisk.at? ["data", summaryDraftName] ≠ writtenDisk.at? ["data", summaryDraftName] := by decide +kernel
    exact absurd (congrArg (fun d => d.at? ["data", summaryDraftName]) same) there
  · rwa [given.leads.unique leads] at given
  · obtain ⟨p, s, same⟩ := left.refused
    cases same

/-- The written disk with a lock that could not be marked. -/
def unmarkedDisk : Disk := (writtenDisk.create newArchive.lockPath).2

/-- Where the new lock cannot be marked, the change has failed and its lock stays. No later change is made, though the
same change would have succeeded before. -/
theorem unmarked_lock_stays :
    (∀ change, (newArchive.modify [7] change).Ends (· = .append newArchive.lockPath [7]) writtenDisk
      (.error (.fault (.other "full"))) unmarkedDisk) ∧
    writtenDisk.at? ["data", lockName] = none ∧
    unmarkedDisk.at? ["data", lockName] = some (.file []) ∧
    (∀ token change, (newArchive.modify token change).runOn unmarkedDisk =
      (.error (.lockTimeout (.ofSeconds 1)), unmarkedDisk)) ∧
    ((newArchive.modify [7] fun old => .ok (old.getD .empty)).runOn writtenDisk).1.toOption.isSome = true := by
  have leads := (runs_writtenDisk.consistent isFresh_newDisk).1.leads
  have created : writtenDisk.create newArchive.lockPath = (.ok (), unmarkedDisk) :=
    Prod.ext (by decide +kernel) rfl
  have held : unmarkedDisk.at? ["data", lockName] = some (.file []) := by decide +kernel
  have leads' : unmarkedDisk.LeadsTo newArchive.root ["data"] := by
    refine (Disk.edits_create (M := IsLock ["data"]) (leadsInto_root leads isName_lock rfl)).leadsTo_iff.2 leads
  refine ⟨fun change => ?_, by decide +kernel, held, ?_, by decide +kernel⟩
  · have unmarked : (newArchive.acquire [7]).Ends (· = .append newArchive.lockPath [7]) writtenDisk
        (.error (.fault (.other "full"))) unmarkedDisk :=
      Action.ends_of_bind_ok (Action.ends_of_runOn (makeLock_of_created created _))
        (Action.ends_of_refused _ rfl (.untouched _))
    exact Action.ends_of_bind_error unmarked
  · exact modify_of_blocked leads' (by decide +kernel) (by simp [held])

end Archive

end FlowArchive
