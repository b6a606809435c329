import FlowArchive.Proofs.Meeting

/-!
# The ledger of two parties

A write and a cleaning that meet both change the summary, one after the other: who holds the lock has the ledger, and
the summary that is read under the lock is the one that is replaced. So each of them tells the summary what it did, and
what the other has told it is kept.
-/

namespace FlowArchive.Archive

open Disk (Edits snoc_ne_nil)
open InterfaceSummary (Agrees)

namespace Moment

variable {a : Archive} {g : a.Meeting} {p : Party} {s t u : Moment g} {e : Disk} {token : LockToken}
  {A : Moment g → Prop} {new : Summary} {change : Option Summary → Except Failure Summary}

theorem isLedgerFile_of_beside {l m : Location} (beside : IsBesideSummary l m) : IsLedgerFile l m := by
  rcases beside with rfl | rfl
  · exact ⟨_, mem_ledgerNames.2 (.inr (.inl rfl)), rfl⟩
  · exact ⟨_, mem_ledgerNames.2 (.inr (.inr rfl)), rfl⟩

/-- A moment after a file of the ledger other than the summary has changed. -/
def besideSummary (s : Moment g) (e : Disk) (edits : Edits (IsBesideSummary g.place) s.disk e) (holder : Option Party)
    (lock : holder ≠ none → e.content? (g.place ++ [lockName]) ≠ none) : Moment g :=
  s.inLedger e (edits.mono fun _ => isLedgerFile_of_beside) holder s.told lock fun j early => by
    rw [entryAt, Disk.summaryAt, edits.content? (not_isBesideSummary_summary _)]
    exact s.agrees j early

theorem other_ne (p : Party) : p.other ≠ p := by
  cases p <;> decide

/-- Who changes the ledger without a lock or with its own spares the other. -/
theorem spares_other {edits : Edits (IsLedgerFile g.place) s.disk e} {holder : Option Party} {told : Party → Bool}
    {lock : holder ≠ none → e.content? (g.place ++ [lockName]) ≠ none}
    {agrees : ∀ j, (j = g.interface → g.Early) → Agrees (entryAt e g.place j) (g.counted told j)}
    (own : told p.other = s.told p.other) (held : s.holder = none ∨ s.holder = some p) :
    Spares p.other s (s.inLedger e edits holder told lock agrees) := by
  refine spares_inLedger own ?_
  rcases held with free | held
  · simp [free]
  · simp [held, (other_ne p).symm]

theorem ofOwn_edits (own : OfOwn p A) (edits : Edits (IsLedgerFile g.place) s.disk t.disk) (known : A s) : A t :=
  own s t (fun m owns => edits.rest m owns.not_isLedgerFile) known

/-! ## The lock -/

/-- A party that has not told the summary what it did may hold the lock. -/
def Locks (p : Party) (A : Moment g → Prop) (s : Moment g) : Prop := s.holder = some p ∧ s.told p = false ∧ A s

theorem stable_locks (own : OfOwn p A) : (terms g p).Stable (Locks p A) :=
  stable_held fun s t owned told _ holds => ⟨by rw [told]; exact holds.1, own s t owned holds.2⟩

theorem stable_untold (own : OfOwn p A) : (terms g p).Stable fun s => s.told p = false ∧ A s :=
  Terms.stable_and (stable_told false) own.stable

theorem leadsInto (s : Moment g) {M : Location → Prop} {x : String} (name : Path.IsName x)
    (inside : M (g.place ++ [x])) : s.disk.LeadsInto M (a.root.join x) := leadsInto_root s.leads name inside

/-- A lock file that is made is made where nobody holds the lock. -/
theorem exists_created (s : Moment g) (created : s.disk.create a.lockPath = (.ok (), e)) :
    ∃ t : Moment g, t.disk = e ∧ t.holder = some p ∧ t.told = s.told ∧ Spares p.other s t ∧
      Edits (IsLedgerFile g.place) s.disk e := by
  have edits : Edits (IsBesideSummary g.place) s.disk e := by
    have edits := Disk.edits_create (s.leadsInto (M := IsBesideSummary g.place) isName_lock (.inr rfl))
    rwa [← lockPath, created] at edits
  obtain ⟨-, absent, rfl⟩ := Disk.create_join s.leads isName_lock created
  -- Who holds the lock has a lock file, and there was none.
  have free : s.holder = none := by
    by_contra held
    exact s.lock held (by simp [Disk.content?, absent])
  have there : (s.disk.put (g.place ++ [lockName]) (.file [])).content? (g.place ++ [lockName]) ≠ none := by
    simp [Disk.content?, Disk.at?_put _ (snoc_ne_nil g.place lockName)]
  exact ⟨s.besideSummary _ edits (some p) fun _ => there, rfl, rfl, rfl, spares_other rfl (.inl free),
    edits.mono fun _ => isLedgerFile_of_beside⟩

/-- One try to take the lock: it is had, or everything is as before. -/
theorem keeps_tryLock (own : OfOwn p A) {next : Except Fault Unit → Script (Except Failure Unit)}
    (untold : s.told p = false) (known : A s) (taken : next (.ok ()) = .done (.ok ()))
    (missed : ∀ f u, u.told p = false → A u →
      (next (.error f)).Keeps (terms g p) (Action.Success fun _ => Locks p A) u) :
    Action.Keeps (terms g p) (Action.Success fun _ => Locks p A)
      (ExceptT.mk ((Script.request (.create a.lockPath)).bind next)) s := by
  refine Action.keeps_asked.2 fun u turn => ?_
  obtain ⟨untold, known⟩ := stable_untold own s u turn ⟨untold, known⟩
  show ∃ v : Moment g, v.disk = (u.disk.create a.lockPath).2 ∧ Spares p.other u v ∧
    (next (u.disk.create a.lockPath).1).Keeps (terms g p) (Action.Success fun _ => Locks p A) v
  cases created : u.disk.create a.lockPath with
  | mk outcome e =>
    cases outcome with
    | ok =>
      obtain ⟨v, rfl, held, told, spares, edits⟩ := u.exists_created (p := p) created
      have locks : Locks p A v := ⟨held, by rw [told]; exact untold, ofOwn_edits own edits known⟩
      refine ⟨v, rfl, spares, ?_⟩
      rw [taken]
      exact Script.keeps_done (Action.stable_success (fun _ => stable_locks own) _) (Action.success_ok.2 locks)
    | error f => exact ⟨u, (create_error created).symm, spares_refl _ u, missed f u untold known⟩

theorem keeps_makeLock (own : OfOwn p A) (retries : Nat) (untold : s.told p = false) (known : A s) :
    (a.makeLock retries).Keeps (terms g p) (Action.Success fun _ => Locks p A) s := by
  have failed : ∀ {v : Moment g} (x : Failure), Script.Keeps (terms g p) (Action.Success fun (_ : Unit) => Locks p A)
      (.done (.error x)) v := fun x _ _ => Action.success_error x
  -- Between two tries the other may have done anything but what is of this party.
  induction retries generalizing s with
  | zero =>
    rw [makeLock]
    refine keeps_tryLock own untold known rfl fun f u _ _ => ?_
    cases f <;> exact failed _
  | succ retries ih =>
    rw [makeLock]
    refine keeps_tryLock own untold known rfl fun f u untold known => ?_
    cases f with
    | present =>
      intro v turn
      obtain ⟨untold, known⟩ := stable_untold own u v turn ⟨untold, known⟩
      exact ⟨v, rfl, spares_refl _ v, ih untold known⟩
    | _ => exact failed _

theorem exists_beside (s : Moment g) (held : s.holder = some p) (edits : Edits (IsBesideSummary g.place) s.disk e)
    (lock : e.content? (g.place ++ [lockName]) ≠ none) :
    ∃ t : Moment g, t.disk = e ∧ t.holder = some p ∧ t.told = s.told ∧ Spares p.other s t :=
  ⟨s.besideSummary e edits (some p) fun _ => lock, rfl, rfl, rfl, spares_other rfl (.inr held)⟩

theorem keeps_acquire (own : OfOwn p A) (token : LockToken) (untold : s.told p = false) (known : A s) :
    (a.acquire token).Keeps (terms g p) (Action.Success fun _ => Locks p A) s := by
  refine (keeps_makeLock own _ untold known).bind fun _ t locks => ?_
  refine Action.keeps_ask (stable_locks own) (Action.stable_success fun _ => stable_locks own) locks ?_
  intro u answer e locks changed
  change u.disk.change a.lockPath (· ++ token) = (answer, e) at changed
  cases answer with
  | error f => exact ⟨u, (Disk.change_error changed).symm, spares_refl _ u, Action.success_error _⟩
  | ok =>
    have edits := Disk.edits_change (u.leadsInto (M := IsBesideSummary g.place) isName_lock (.inr rfl)) (· ++ token)
    rw [← lockPath, changed] at edits
    have marked : e.content? (g.place ++ [lockName]) ≠ none := by
      obtain ⟨-, -, rfl⟩ := Disk.change_join u.leads isName_lock changed
      simp [Disk.content?, Disk.at?_put _ (snoc_ne_nil g.place lockName)]
    obtain ⟨v, rfl, held, told, spares⟩ := u.exists_beside locks.1 edits marked
    have still := ofOwn_edits own (edits.mono fun _ => isLedgerFile_of_beside) locks.2.2
    exact ⟨v, rfl, spares, Action.success_ok.2 ⟨held, by rw [told]; exact locks.2.1, still⟩⟩

/-! ## The change -/

/-- The summary that was stored when a party read it is the one that the party is about to replace. -/
def Computes (p : Party) (A : Moment g → Prop) (change : Option Summary → Except Failure Summary) (new : Summary)
    (s : Moment g) : Prop :=
  s.holder = some p ∧ s.told p = false ∧ A s ∧
    (Disk.joinFault? a.root summaryName = none → change (s.disk.summaryAt g.place) = .ok new)

/-- The new summary is written, but not yet in place. -/
def Drafts (p : Party) (A : Moment g → Prop) (change : Option Summary → Except Failure Summary) (new : Summary)
    (s : Moment g) : Prop :=
  Computes p A change new s ∧ s.disk.at? (g.place ++ [summaryDraftName]) = some (.file new.write)

def Holds (p : Party) (A : Moment g → Prop) (s : Moment g) : Prop := s.holder = some p ∧ A s

/-- The summary that a change leads to counts what a party did. -/
def Counts (g : a.Meeting) (p : Party) (change : Option Summary → Except Failure Summary) : Prop :=
  ∀ (s : Moment g) (new : Summary), s.told p = false → change (s.disk.summaryAt g.place) = .ok new →
    ∀ j, (j = g.interface → g.Early) → Agrees (new.get? j) (g.counted (Function.update s.told p true) j)

theorem summaryAt_congr {d : Disk} {l : Location}
    (ledger : ∀ x ∈ ledgerNames, e.at? (l ++ [x]) = d.at? (l ++ [x])) : e.summaryAt l = d.summaryAt l := by
  rw [Disk.summaryAt, Disk.summaryAt, Disk.content?_congr (ledger _ (mem_ledgerNames.2 (.inl rfl)))]

theorem stable_holds (own : OfOwn p A) : (terms g p).Stable (Holds p A) :=
  stable_held fun s t owned _ _ => own s t owned

theorem stable_computes (own : OfOwn p A) (new : Summary) : (terms g p).Stable (Computes p A change new) := by
  refine stable_held fun s t owned told ledger => ?_
  rintro ⟨untold, known, computed⟩
  refine ⟨by rw [told]; exact untold, own s t owned known, ?_⟩
  rw [summaryAt_congr ledger]
  exact computed

theorem stable_drafts (own : OfOwn p A) (new : Summary) : (terms g p).Stable (Drafts p A change new) := by
  intro s t turn drafts
  refine ⟨stable_computes own new s t turn drafts.1, ?_⟩
  rw [(turn.held drafts.1.1).2.2 _ (mem_ledgerNames.2 (.inr (.inl rfl)))]
  exact drafts.2

theorem stable_always {α : Type} {P : α → Moment g → Prop} (own : OfOwn p A) (each : ∀ v, (terms g p).Stable (P v))
    (o : Except Failure α) : (terms g p).Stable fun s => Holds p A s ∧ Action.Success P o s :=
  Terms.stable_and (stable_holds own) (Action.stable_success each o)

theorem looks_storedSummary (a : Archive) : a.storedSummary.script.Looks := by
  refine ⟨fun _ => rfl, fun answer => ?_⟩
  cases answer with
  | ok s =>
    dsimp only [Script.bind]
    split <;> exact ⟨_, rfl⟩
  | error f => cases f <;> exact ⟨_, rfl⟩

theorem exists_drafted (own : OfOwn p A) (computes : Computes p A change new s)
    (changed : s.disk.change a.summaryDraftPath (fun _ => new.write) = (.ok (), e)) :
    ∃ t : Moment g, t.disk = e ∧ Spares p.other s t ∧ Drafts p A change new t := by
  have edits := Disk.edits_change (s.leadsInto (M := (· = g.place ++ [summaryDraftName])) isName_summaryDraft rfl)
    fun _ => new.write
  change Edits _ _ (s.disk.change a.summaryDraftPath _).2 at edits
  rw [changed] at edits
  obtain ⟨-, -, same⟩ := Disk.change_join s.leads isName_summaryDraft changed
  have lock : e.content? (g.place ++ [lockName]) ≠ none := by
    rw [edits.content? (draft_ne_lock g.place).symm]
    exact s.lock (by simp [computes.1])
  obtain ⟨t, rfl, held, told, spares⟩ := s.exists_beside computes.1 (edits.mono fun _ => .inl) lock
  have beside := edits.mono fun _ same => isLedgerFile_of_beside (.inl same)
  refine ⟨t, rfl, spares, ⟨held, by rw [told]; exact computes.2.1, ofOwn_edits own beside computes.2.2.1, ?_⟩, ?_⟩
  · rw [Disk.summaryAt, edits.content? (draft_ne_summary g.place).symm]
    exact computes.2.2.2
  · rw [same, Disk.at?_put _ (snoc_ne_nil _ _), if_pos rfl]

/-- A new summary that takes the place of the old one: from then on it counts what the party did. -/
theorem exists_replaced (own : OfOwn p A) (counts : Counts g p change) (drafts : Drafts p A change new s)
    (renamed : s.disk.rename a.summaryDraftPath a.summaryPath = (.ok (), e)) :
    ∃ t : Moment g, t.disk = e ∧ Spares p.other s t ∧ Holds p A t ∧ t.told p = true := by
  obtain ⟨⟨held, untold, known, computed⟩, draft⟩ := drafts
  have edits := Disk.edits_rename
    (s.leadsInto (M := IsLedgerFile g.place) isName_summaryDraft ⟨_, mem_ledgerNames.2 (.inr (.inl rfl)), rfl⟩)
    (s.leadsInto (M := IsLedgerFile g.place) isName_summary ⟨_, mem_ledgerNames.2 (.inl rfl), rfl⟩)
  change Edits _ _ (s.disk.rename a.summaryDraftPath a.summaryPath).2 at edits
  rw [renamed] at edits
  obtain ⟨fine, -, content, source, same⟩ := Disk.rename_join s.leads isName_summaryDraft isName_summary renamed
  obtain rfl : new.write = content := by
    change s.disk.at? (g.place ++ [summaryDraftName]) = _ at source
    rw [draft] at source
    cases source
    rfl
  have entries : ∀ m, e.at? m = if m = g.place ++ [summaryName] then some (.file new.write)
      else if m = g.place ++ [summaryDraftName] then none else s.disk.at? m := by
    intro m
    rw [same]
    exact Disk.at?_renamed s.disk g.place new.write m
  have lock : e.content? (g.place ++ [lockName]) ≠ none := by
    have kept : e.at? (g.place ++ [lockName]) = s.disk.at? (g.place ++ [lockName]) := by
      rw [entries, if_neg (summary_ne_lock g.place).symm, if_neg (draft_ne_lock g.place).symm]
    rw [Disk.content?_congr kept]
    exact s.lock (by simp [held])
  have stored : e.summaryAt g.place = some new := summaryAt_of_written (by rw [entries, if_pos rfl])
  have agrees : ∀ j, (j = g.interface → g.Early) →
      Agrees (entryAt e g.place j) (g.counted (Function.update s.told p true) j) := by
    intro j early
    rw [entryAt_of_summaryAt stored]
    exact counts s new untold (computed fine) j early
  have apart : Function.update s.told p true p.other = s.told p.other := Function.update_of_ne (other_ne p) true s.told
  exact ⟨s.inLedger e edits (some p) _ (fun _ => lock) agrees, rfl, spares_other apart (.inr held),
    ⟨rfl, ofOwn_edits own edits known⟩, Function.update_self (β := fun _ => Bool) p true s.told⟩

/-- Whatever comes of writing a new summary, the lock is held; if it is in place, the summary counts what the party
did. -/
theorem keeps_commit (own : OfOwn p A) (counts : Counts g p change) (computes : Computes p A change new s) :
    (a.commit new).Keeps (terms g p)
      (fun o s => Holds p A s ∧ Action.Success (fun _ s => s.told p = true) o s) s := by
  have always : ∀ {u}, Computes p A change new u → Holds p A u := fun computes => ⟨computes.1, computes.2.2.1⟩
  have stays : (terms g p).Stable (Drafts p A change new) := stable_drafts own new
  have drafted := stable_always own fun _ : Unit => stays
  unfold commit
  refine Action.Keeps.bind_always (P := fun _ => Drafts p A change new) ?write fun _ t _ drafts => ?_
  case write =>
    refine Action.keeps_ask (stable_computes own new) drafted computes fun u answer e computes changed => ?_
    cases answer with
    | error f => exact ⟨u, (Disk.change_error changed).symm, spares_refl _ u, always computes, Action.success_error _⟩
    | ok =>
      obtain ⟨v, same, spares, drafts⟩ := exists_drafted own computes changed
      exact ⟨v, same, spares, always drafts.1, Action.success_ok.2 drafts⟩
  refine Action.Keeps.bind_always (P := fun _ => Drafts p A change new) ?sync fun _ t _ drafts => ?_
  case sync =>
    refine Action.keeps_of_looks (Action.looks_ask fun _ => rfl) (stable_drafts own new) drafted drafts ?_
    exact fun u drafts => ⟨always drafts.1, fun _ _ => drafts⟩
  have done := stable_always own fun _ : Unit => stable_told (g := g) (p := p) true
  refine Action.keeps_ask (stable_drafts own new) done drafts fun u answer e drafts renamed => ?_
  cases answer with
  | error f => exact ⟨u, (Disk.rename_error renamed).symm, spares_refl _ u, always drafts.1, Action.success_error _⟩
  | ok =>
    obtain ⟨v, same, spares, holds, told⟩ := exists_replaced own counts drafts renamed
    exact ⟨v, same, spares, holds, Action.success_ok.2 told⟩

theorem keeps_applyChange (own : OfOwn p A) (counts : Counts g p change) (locks : Locks p A s) :
    (a.applyChange change).Keeps (terms g p)
      (fun o s => Holds p A s ∧ Action.Success (fun _ s => s.told p = true) o s) s := by
  -- What was read is what is stored, as long as the lock is held.
  have seen : ∀ o : Option Summary, (terms g p).Stable fun s => Locks p A s ∧
      (Disk.joinFault? a.root summaryName = none → s.disk.summaryAt g.place = o) := by
    intro o s t turn both
    refine ⟨stable_locks own s t turn both.1, fun fine => ?_⟩
    rw [summaryAt_congr (turn.held both.1.1).2.2]
    exact both.2 fine
  unfold applyChange
  refine Action.Keeps.bind_always (P := fun o s => Locks p A s ∧
    (Disk.joinFault? a.root summaryName = none → s.disk.summaryAt g.place = o.toOption.join)) ?read fun o t _ read => ?_
  case read =>
    refine Action.keeps_of_looks (Action.looks_ofScript (looks_storedSummary a)) (stable_locks own)
      (stable_always own fun o => seen _) locks fun u locks => ?_
    obtain ⟨outcome, ran, same⟩ := runOn_storedSummary a u.disk
    refine ⟨⟨locks.1, locks.2.2⟩, ?_⟩
    show Action.Success _ (a.storedSummary.attempt.runOn u.disk).1 u
    rw [Action.runOn_attempt, ran]
    exact Action.success_ok.2 ⟨locks, fun fine => by rw [same, read_summary u.leads fine]⟩
  obtain ⟨locks, read⟩ := read
  refine Action.Keeps.bind_always (P := fun new => Computes p A change new) ?compute fun new t _ computes => ?_
  case compute =>
    refine Action.keeps_ofExcept (stable_always own (fun new => stable_computes own new) _) ⟨⟨locks.1, locks.2.2⟩, ?_⟩
    exact fun new computed => ⟨locks.1, locks.2.1, locks.2.2, fun fine => by rw [read fine]; exact computed⟩
  refine Action.Keeps.bind_always (keeps_commit own counts computes) fun _ t holds told => ?_
  exact Action.keeps_ofExcept (o := .ok new) (stable_always own (fun _ => stable_told true) _)
    ⟨holds, Action.success_ok.2 told⟩

theorem keeps_release {B : Moment g → Prop} (own : OfOwn p A) (stable : (terms g p).Stable B)
    (told : ∀ s t : Moment g, t.told = s.told → B s → B t) (holds : Holds p A s) (before : B s) :
    (Action.ofScript a.release).Keeps (terms g p) (Action.Success fun _ s => A s ∧ B s) s := by
  refine Action.keeps_ofScript (P := fun _ s => A s ∧ B s) fun u turn => ?_
  have holds := stable_holds own s u turn holds
  have before := stable s u turn before
  have edits := Disk.edits_remove (u.leadsInto (M := IsBesideSummary g.place) isName_lock (.inr rfl))
  refine ⟨u.besideSummary _ edits none (fun held => absurd rfl held), rfl, spares_other rfl (.inr holds.1), ?_⟩
  have known := ofOwn_edits (t := u.besideSummary _ edits none fun held => absurd rfl held) own
    (edits.mono fun _ => isLedgerFile_of_beside) holds.2
  exact Script.keeps_done (Terms.stable_and own.stable stable) ⟨known, told u _ rfl before⟩

/-- A change of the ledger that succeeds has told the summary what the party did, whatever the other did meanwhile. -/
theorem keeps_modify (own : OfOwn p A) (counts : Counts g p change) (untold : s.told p = false) (known : A s) :
    (a.modify token change).Keeps (terms g p) (Action.Success fun _ s => A s ∧ s.told p = true) s := by
  unfold modify
  refine (keeps_acquire own token untold known).bind fun _ t locks => ?_
  -- Whether or not the change was made, the lock is given back.
  have attempted : (a.applyChange change).attempt.Keeps (terms g p)
      (Action.Success fun o s => Holds p A s ∧ Action.Success (fun _ s => s.told p = true) o s) t :=
    Action.keeps_ofScript (keeps_applyChange own counts locks)
  refine attempted.bind fun outcome t applied => ?_
  have told : ∀ u v : Moment g, v.told = u.told → Action.Success (fun (_ : Summary) s => s.told p = true) outcome u →
      Action.Success (fun _ s => s.told p = true) outcome v := fun u v same before new came =>
    (congrFun same p).trans (before new came)
  have stable := Action.stable_success (fun _ : Summary => stable_told (g := g) (p := p) true) outcome
  refine (keeps_release own stable told applied.1 applied.2).bind fun _ u after => ?_
  refine Action.keeps_ofExcept (Action.stable_success (fun _ => Terms.stable_and own.stable (stable_told true)) _) ?_
  exact fun new came => ⟨after.1, after.2 new came⟩

end Moment

end FlowArchive.Archive
