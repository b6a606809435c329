import FlowArchive.Proofs.CleaningProgress

/-!
# Cleanings one after the other

Two cleanings that succeed leave what a single one leaves whose cutoff is the later of theirs. This holds for sums that
have come to a stop, too: what is taken away in two steps from a word is what is taken away in one, since no word is
greater than the one at which the sums stop.
-/

namespace FlowArchive

open FlowArchive.Path (IsName)
open Disk (IsSwept Within)

namespace Index

theorem IsFirst?.unique {t u : Option Timestamp} {ds : List Descriptor} (first : IsFirst? t ds)
    (second : IsFirst? u ds) : t = u := by
  cases t with
  | none =>
    obtain rfl : ds = [] := first
    cases u with
    | none => rfl
    | some u =>
      obtain ⟨⟨x, member, -⟩, -⟩ := second
      cases member
  | some t =>
    cases u with
    | none =>
      obtain rfl : ds = [] := second
      obtain ⟨⟨x, member, -⟩, -⟩ := first
      cases member
    | some u => rw [IsFirst.unique first second]

end Index

/-- The first sum may have stopped at the greatest word: then nothing is left of any word. -/
theorem subCapped_twice {a b c : UInt64} {x y : Nat} (first : a.toNat = min x greatestWord)
    (second : b.toNat = min y greatestWord) (both : c.toNat = min (x + y) greatestWord) (n : UInt64) :
    subCapped (subCapped n a) b = subCapped n c := by
  have bound := toNat_le_greatestWord n
  refine UInt64.toNat_inj.1 ?_
  rw [subCapped_toNat, subCapped_toNat, subCapped_toNat]
  omega

/-- A disk without some files of a directory. -/
def Disk.withoutFiles (l : Location) (names : List String) (d : Disk) : Disk :=
  names.foldr (fun y d => { d with entries := d.entries.erase (l ++ [y]) }) d

theorem Disk.at?_withoutFiles (l : Location) (names : List String) (d : Disk) (m : Location) :
    (withoutFiles l names d).at? m = if ∃ y ∈ names, m = l ++ [y] then none else d.at? m := by
  induction names with
  | nil => simp [withoutFiles]
  | cons y others ih =>
    rw [withoutFiles, List.foldr_cons, at?_erase _ (snoc_ne_nil l y)]
    change (if m = l ++ [y] then none else (withoutFiles l others d).at? m) = _
    rw [ih]
    by_cases here : m = l ++ [y]
    · simp [here]
    · simp [here]

theorem Disk.home_withoutFiles (l : Location) (names : List String) (d : Disk) :
    (withoutFiles l names d).home = d.home := by
  induction names with
  | nil => rfl
  | cons y others ih => exact ih

namespace Sweep

variable {s t u : Sweep} {gone gone' kept kept' : List Descriptor}

theorem exists_counts (gone kept : List Descriptor) : ∃ s : Sweep, s.Counts gone kept :=
  ⟨(start.retain kept).remove gone, (start_counts.retain kept).remove gone⟩

theorem reduced_of_none (ends : s.first = none) (old : Option InterfaceSummary) : s.reduced old = none := by
  rw [reduced, ends]

theorem reduced_of_some {v : Timestamp} (begins : s.first = some v) (old : Option InterfaceSummary) :
    s.reduced old = old.map fun i => i.reduce s.flows s.traffic v := by
  rw [reduced, begins]

theorem Counts.reduced_nil (counts : s.Counts gone []) (old : Option InterfaceSummary) : s.reduced old = none :=
  reduced_of_none (counts.first.unique (u := none) rfl) old

/-- What is left of an entry depends on the blocks alone. -/
theorem Counts.reduced_eq (first : s.Counts gone kept) (second : t.Counts gone kept) (old : Option InterfaceSummary) :
    s.reduced old = t.reduced old := by
  have flows : s.flows = t.flows := UInt64.toNat_inj.1 (first.flows.trans second.flows.symm)
  have traffic : s.traffic = t.traffic := UInt64.toNat_inj.1 (first.traffic.trans second.traffic.symm)
  rw [reduced, reduced, first.first.unique second.first, flows, traffic]

/-- What two sweeps leave of an entry one after the other is what one leaves that removes all at once. -/
theorem Counts.reduced_twice (first : s.Counts gone kept) (second : t.Counts gone' kept')
    (both : u.Counts (gone ++ gone') kept') (fewer : kept' ⊆ kept) (old : Option InterfaceSummary) :
    t.reduced (s.reduced old) = u.reduced old := by
  have same : t.first = u.first := second.first.unique both.first
  cases begins : t.first with
  | none => rw [reduced_of_none begins, reduced_of_none (same.symm.trans begins)]
  | some v =>
    have own := second.first
    rw [begins] at own
    obtain ⟨⟨x, member, -⟩, -⟩ := own
    have filled : s.first ≠ none := by
      intro ends
      have empty := first.first
      rw [ends] at empty
      obtain rfl : kept = [] := empty
      cases fewer member
    obtain ⟨w, before⟩ := Option.ne_none_iff_exists'.1 filled
    have flows := subCapped_twice first.flows second.flows (by rw [both.flows, Index.flowSum_append])
    have traffic := subCapped_twice first.traffic second.traffic (by rw [both.traffic, Index.trafficSum_append])
    rw [reduced_of_some begins, reduced_of_some before, reduced_of_some (same.symm.trans begins), Option.map_map]
    refine congrFun (congrArg Option.map (funext fun i => ?_)) old
    simp only [Function.comp, InterfaceSummary.reduce, flows, traffic]

end Sweep

namespace Archive

variable {a : Archive} {token : LockToken} {s t u day x y now cutoff : Timestamp} {b c d e : Disk} {l m : Location}
  {i j n : String}

theorem isEarlier_startOfDay_max (x y : Timestamp) (n : String) :
    isEarlier (max x y).startOfDay n = (isEarlier x.startOfDay n || isEarlier y.startOfDay n) := by
  have absorbs : ∀ {s t : Timestamp}, s ≤ t →
      isEarlier t.startOfDay n = (isEarlier s.startOfDay n || isEarlier t.startOfDay n) := by
    intro s t order
    have before : isEarlier s.startOfDay n = true → isEarlier t.startOfDay n = true := by
      rw [isEarlier_iff, isEarlier_iff]
      rintro ⟨v, rfl, early⟩
      exact ⟨v, rfl, Int64.lt_of_lt_of_le early (Timestamp.startOfDay_mono order)⟩
    cases earlier : isEarlier s.startOfDay n with
    | false => rfl
    | true => exact before earlier
  rcases Int64.le_total x y with order | order
  · have same : max x y = y := if_pos order
    rw [same]
    exact absorbs order
  · have same : max x y = x := by
      show (if x ≤ y then y else x) = x
      split
      next also => exact Int64.le_antisymm order also
      next => rfl
    rw [same, Bool.or_comm]
    exact absorbs order

/-! ## What a cleaning leaves -/

/-- The entry of each interface has lost what the sweep of its directory has removed. -/
def Reduced (a : Archive) (l : Location) (day : Timestamp) (d : Disk) (old new : Summary) : Prop :=
  ∀ i, (d.at? (l ++ [i]) ≠ some .directory ∧ new.get? i = old.get? i) ∨
    d.at? (l ++ [i]) = some .directory ∧ ∃ w, a.Reports d l day i (i, w) ∧ new.get? i = w.reduced (old.get? i)

/-- What a cleaning leaves: all that its sweeps take away is gone, nothing else, and the summary tells so. -/
structure Pruned (a : Archive) (l : Location) (day : Timestamp) (d e : Disk) : Prop where
  leads : e.LeadsTo a.root l
  home : e.home = d.home
  away : ∀ i m, ¬ IsLedgerFile l m → d.IsSwept l day i m → e.at? m = none
  rest : ∀ m, ¬ IsLedgerFile l m → (¬ ∃ i, d.IsSwept l day i m) → e.at? m = d.at? m
  summary : ∃ old new, d.summaryAt l = some old ∧ a.Reduced l day d old new ∧
    e.at? (l ++ [summaryName]) = some (.file new.write)
  draft : e.at? (l ++ [summaryDraftName]) = none
  lock : e.at? (l ++ [lockName]) = none
  lockable : Lockable l day d
  fineLock : Disk.joinFault? a.root lockName = none
  fineDraft : Disk.joinFault? a.root summaryDraftName = none

/-- A cleaning that succeeds leaves what it should. -/
theorem clean_pruned {report : SweepReport} (leads : d.LeadsTo a.root l) (tree : d.IsTree l)
    (cleaned : (a.clean token now cutoff).runOn d = (.ok report, e)) : a.Pruned l cutoff.startOfDay d e := by
  obtain ⟨-, -, names, c, new, swept, modified⟩ := clean_parts leads tree cleaned
  obtain ⟨unlocked, fineLock, fineDraft⟩ := unlocked_of_modify swept.leads modified
  obtain ⟨l', after, changed, stored⟩ := modify_ok modified
  obtain rfl := after.unique swept.leads
  rw [swept.summaryAt] at changed
  cases before : d.summaryAt l' with
  | none => rw [before] at changed; cases changed
  | some old =>
    rw [before] at changed
    cases changed
    constructor
    case leads => exact swept.leadsAfter stored
    case home => exact stored.home.trans swept.loses.home
    case away =>
      intro i m other gone
      rw [stored.rest m other]
      exact swept.loses.away m ⟨i, gone⟩
    case rest =>
      intro m other kept
      rw [stored.rest m other]
      exact swept.loses.rest m kept
    case summary =>
      refine ⟨old, _, before, fun i => ?_, stored.summary⟩
      rcases get?_reconcile (fun _ _ reports => reports.name) swept.distinct swept.reports old i with
        ⟨absent, same⟩ | ⟨⟨i', w⟩, listed, reports, changed⟩
      · exact .inl ⟨fun there => absent ((swept.all i).2 there), same⟩
      · obtain rfl : i' = i := reports.name
        exact .inr ⟨(swept.all i').1 listed, w, reports, changed⟩
    case draft => exact stored.draft
    case lock => exact stored.lock
    case lockable =>
      constructor
      case lock =>
        by_contra held
        obtain ⟨content, held⟩ := Option.ne_none_iff_exists'.1 held
        have there := Disk.content?_eq_some.1 held
        have kept := swept.loses.rest (l' ++ [lockName]) fun lost => by
          rw [(Disk.exists_isSwept_interface_iff.1 lost).1] at there
          cases there
        rw [unlocked.lock, there] at kept
        cases kept
      case ledger =>
        intro x listed there
        by_contra kept
        refine stored.free x listed ?_
        rw [swept.loses.rest _ fun lost => kept (Disk.exists_isSwept_interface_iff.1 lost)]
        exact there
    case fineLock => exact fineLock
    case fineDraft => exact fineDraft

namespace Pruned

/-- What a cleaning leaves is the same whoever did it. -/
theorem alike (first : a.Pruned l day d b) (second : a.Pruned l day d e) : Disk.Alike b e := by
  refine ⟨second.home.trans first.home.symm, fun m => ?_⟩
  by_cases ledger : IsLedgerFile l m
  · obtain ⟨x, listed, rfl⟩ := ledger
    rcases mem_ledgerNames.1 listed with rfl | rfl | rfl
    · obtain ⟨old, new, before, reduced, stored⟩ := first.summary
      obtain ⟨old', new', before', reduced', stored'⟩ := second.summary
      obtain rfl : old = old' := Option.some.inj (before.symm.trans before')
      have same : new' = new := by
        refine congrArg Summary.mk (Table.ext_get? fun i => ?_)
        rcases reduced i with ⟨absent, entry⟩ | ⟨there, w, reports, entry⟩
        · rcases reduced' i with ⟨-, entry'⟩ | ⟨there', -⟩
          · exact entry'.trans entry.symm
          · exact absurd there' absent
        · rcases reduced' i with ⟨absent', -⟩ | ⟨-, w', reports', entry'⟩
          · exact absurd there absent'
          · exact entry'.trans ((reports'.counts.reduced_eq reports.counts _).trans entry.symm)
      rw [stored, stored', same]
    · rw [first.draft, second.draft]
    · rw [first.lock, second.lock]
  · by_cases swept : ∃ i, d.IsSwept l day i m
    · obtain ⟨i, swept⟩ := swept
      rw [first.away i m ledger swept, second.away i m ledger swept]
    · rw [first.rest m ledger swept, second.rest m ledger swept]

/-! ## What is left of the disk -/

theorem at?_of_isStale (pruned : a.Pruned l s d c) (stale : d.IsStale l s i n) (rest : List String) :
    c.at? (l ++ i :: n :: rest) = none :=
  pruned.away i _ (not_isLedgerFile l i n rest) (.inl ⟨n, stale, by simp⟩)

theorem at?_of_not_isStale (pruned : a.Pruned l s d c) (fresh : ¬ d.IsStale l s i n) (rest : List String) :
    c.at? (l ++ i :: n :: rest) = d.at? (l ++ i :: n :: rest) :=
  pruned.rest _ (not_isLedgerFile l i n rest) fun swept => fresh (Disk.exists_isSwept_iff.1 swept)

theorem not_directory_ledger (pruned : a.Pruned l s d c) {y : String} (listed : y ∈ ledgerNames) :
    c.at? (l ++ [y]) ≠ some .directory := by
  obtain ⟨-, new, -, -, stored⟩ := pruned.summary
  rcases mem_ledgerNames.1 listed with rfl | rfl | rfl
  · simp [stored]
  · simp [pruned.draft]
  · simp [pruned.lock]

theorem directory_iff (pruned : a.Pruned l s d c) (i : String) :
    c.at? (l ++ [i]) = some .directory ↔ d.at? (l ++ [i]) = some .directory ∧ ¬ d.IsAllStale l s i := by
  by_cases listed : i ∈ ledgerNames
  · refine iff_of_false (pruned.not_directory_ledger listed) ?_
    rintro ⟨there, kept⟩
    exact kept (pruned.lockable.ledger i listed there)
  · have other : ¬ IsLedgerFile l (l ++ [i]) := by
      rintro ⟨y, listed', same⟩
      exact listed ((Disk.snoc_inj.1 same).2 ▸ listed')
    by_cases stale : d.IsAllStale l s i
    · rw [pruned.away i _ other (.inr ⟨stale, rfl⟩)]
      simp [stale]
    · rw [pruned.rest _ other fun swept => stale (Disk.exists_isSwept_interface_iff.1 swept), and_iff_left stale]

theorem mem_partitionNames (pruned : a.Pruned l s d c) (i n : String) :
    n ∈ c.partitionNames l i ↔ n ∈ d.partitionNames l i ∧ isEarlier s n = false := by
  rw [Disk.mem_partitionNames, Disk.mem_partitionNames]
  by_cases stale : d.IsStale l s i n
  · rw [pruned.at?_of_isStale stale []]
    simp [stale.2]
  · rw [pruned.at?_of_not_isStale stale [], and_assoc]
    refine and_congr_right fun there => (and_iff_left_of_imp fun _ => ?_).symm
    simpa [Disk.IsStale, there] using stale

/-- The blocks that some partitions list are those that they listed before, if they are not of earlier days. -/
theorem blocksOf_perm (pruned : a.Pruned l s d c) (leads : d.LeadsTo a.root l) (name : IsName i)
    (there : c.at? (l ++ [i]) = some .directory) (p : String → Bool) :
    (a.blocksOf c i ((c.partitionNames l i).filter p)).Perm
      (a.blocksOf d i ((d.partitionNames l i).filter fun n => !isEarlier s n && p n)) := by
  have names : ((c.partitionNames l i).filter p).Perm
      ((d.partitionNames l i).filter fun n => !isEarlier s n && p n) := by
    refine (List.perm_ext_iff_of_nodup ((Disk.nodup_partitionNames c l i).filter _)
      ((Disk.nodup_partitionNames d l i).filter _)).2 fun n => ?_
    rw [List.mem_filter, List.mem_filter, pruned.mem_partitionNames]
    simp [and_assoc]
  have own : a.blocksOf c i ((c.partitionNames l i).filter p) = a.blocksOf d i ((c.partitionNames l i).filter p) := by
    have listed : ∀ n ∈ (c.partitionNames l i).filter p, IsName n := fun n member =>
      Disk.isName_of_mem_partitionNames (List.mem_of_mem_filter member)
    refine blocksOf_congr leads pruned.leads name listed fun n member k front => ?_
    have late := ((pruned.mem_partitionNames i n).1 (List.mem_of_mem_filter member)).2
    have fresh : ¬ d.IsStale l s i n := fun stale => by simp [stale.2] at late
    match k with
    | [] => rw [List.append_nil, leads.directory, pruned.leads.directory]
    | [j] =>
      obtain ⟨rfl, -⟩ := List.cons_prefix_cons.1 front
      rw [there, ((pruned.directory_iff j).1 there).1]
    | j :: o :: rest =>
      obtain ⟨rfl, inner⟩ := List.cons_prefix_cons.1 front
      obtain ⟨rfl, -⟩ := List.cons_prefix_cons.1 inner
      exact pruned.at?_of_not_isStale fresh rest
  rw [own]
  exact names.flatMap_right _

/-! ## Two cleanings -/

section

variable (first : a.Pruned l s d c) (second : a.Pruned l t c e)
  (latest : ∀ n, isEarlier u n = (isEarlier s n || isEarlier t n))

include first latest

theorem isStale_iff : d.IsStale l u i n ↔ d.IsStale l s i n ∨ c.IsStale l t i n := by
  by_cases stale : d.IsStale l s i n
  · exact iff_of_true ⟨stale.1, by rw [latest, stale.2, Bool.true_or]⟩ (.inl stale)
  · have same := first.at?_of_not_isStale stale []
    rw [or_iff_right stale, Disk.IsStale, Disk.IsStale, same, latest]
    refine and_congr_right fun there => ?_
    have late : isEarlier s n = false := by simpa [Disk.IsStale, there] using stale
    rw [late, Bool.false_or]

theorem isAllStale_iff : d.IsAllStale l u i ↔ d.IsAllStale l s i ∨ c.IsAllStale l t i := by
  constructor
  · rintro ⟨there, all⟩
    by_cases stale : d.IsAllStale l s i
    · exact .inl stale
    · refine .inr ⟨(first.directory_iff i).2 ⟨there, stale⟩, fun n present => ?_⟩
      by_cases gone : d.IsStale l s i n
      · exact absurd (first.at?_of_isStale gone []) present
      · rw [first.at?_of_not_isStale gone []] at present
        exact ((first.isStale_iff latest).1 (all n present)).resolve_left gone
  · rintro (⟨there, all⟩ | ⟨there, all⟩)
    · exact ⟨there, fun n present => (first.isStale_iff latest).2 (.inl (all n present))⟩
    · refine ⟨((first.directory_iff i).1 there).1, fun n present => (first.isStale_iff latest).2 ?_⟩
      by_cases gone : d.IsStale l s i n
      · exact .inl gone
      · exact .inr (all n (by rwa [first.at?_of_not_isStale gone []]))

theorem isSwept_iff : d.IsSwept l u i m ↔ d.IsSwept l s i m ∨ c.IsSwept l t i m := by
  simp only [IsSwept, first.isStale_iff latest, first.isAllStale_iff latest, or_and_right, exists_or]
  exact or_or_or_comm

omit first in
/-- The blocks of earlier days are those of one cutoff, and those that are left of the other. -/
theorem blocksOf_earlier (names : List String) : (a.blocksOf d i (names.filter (isEarlier u))).Perm
    (a.blocksOf d i (names.filter (isEarlier s)) ++
      a.blocksOf d i (names.filter fun n => !isEarlier s n && isEarlier t n)) := by
  have parts := List.filter_append_perm (isEarlier s) (names.filter (isEarlier u))
  rw [List.filter_filter, List.filter_filter] at parts
  have early : (names.filter fun n => isEarlier s n && isEarlier u n) = names.filter (isEarlier s) :=
    List.filter_congr fun n _ => by rw [latest]; cases isEarlier s n <;> rfl
  have late : (names.filter fun n => !isEarlier s n && isEarlier u n) =
      names.filter fun n => !isEarlier s n && isEarlier t n :=
    List.filter_congr fun n _ => by rw [latest]; cases isEarlier s n <;> rfl
  rw [early, late] at parts
  have blocks := parts.symm.flatMap_right fun n => d.indexOf ((a.interfacePath i).join n)
  rwa [List.flatMap_append] at blocks

omit first in
theorem filter_late (names : List String) :
    (names.filter fun n => !isEarlier u n) = names.filter fun n => !isEarlier s n && !isEarlier t n :=
  List.filter_congr fun n _ => by rw [latest, Bool.not_or]

/-- What two sweeps of an interface tell one after the other is what a single one tells. -/
theorem reports_twice {v w : Sweep} (leads : d.LeadsTo a.root l) (name : IsName i)
    (there : c.at? (l ++ [i]) = some .directory) (reports : a.Reports d l s i (i, v))
    (reports' : a.Reports c l t i (i, w)) (old : Option InterfaceSummary) :
    ∃ z, a.Reports d l u i (i, z) ∧ w.reduced (v.reduced old) = z.reduced old := by
  obtain ⟨z, counts⟩ := Sweep.exists_counts (a.blocksOf d i ((d.partitionNames l i).filter (isEarlier u)))
    (a.blocksOf d i ((d.partitionNames l i).filter fun n => !isEarlier u n))
  have reported : a.Reports d l u i (i, z) := by
    refine ⟨rfl, counts, reports.fine, fun n stale => ?_⟩
    exact ((first.isStale_iff latest).1 stale).elim (reports.finePartition n) (reports'.finePartition n)
  have rest := reports'.counts.perm (first.blocksOf_perm leads name there _) (first.blocksOf_perm leads name there _)
  have all := counts.perm (blocksOf_earlier latest _) (.refl _)
  rw [filter_late latest] at all
  refine ⟨z, reported, reports.counts.reduced_twice rest all ?_ old⟩
  intro x member
  obtain ⟨n, listed, member⟩ := List.mem_flatMap.1 member
  obtain ⟨listed, late⟩ := List.mem_filter.1 listed
  exact List.mem_flatMap.2 ⟨n, List.mem_filter.2 ⟨listed, (Bool.and_eq_true_iff.1 late).1⟩, member⟩

omit first in
/-- A sweep that takes the whole directory leaves no entry, and one that would take more does not, either. -/
theorem reports_whole {v : Sweep} (stale : d.IsAllStale l s i) (reports : a.Reports d l s i (i, v))
    (old : Option InterfaceSummary) : ∃ z, a.Reports d l u i (i, z) ∧ v.reduced old = z.reduced old := by
  have nothing : ∀ day, (∀ n, isEarlier s n = true → isEarlier day n = true) →
      ((d.partitionNames l i).filter fun n => !isEarlier day n) = [] := by
    refine fun day later => List.filter_eq_nil_iff.2 fun n member => ?_
    have there := (Disk.mem_partitionNames.1 member).1
    simp [later n (stale.2 n (by rw [there]; simp)).2]
  have none := nothing s fun n early => early
  have none' := nothing u fun n early => by rw [latest, early, Bool.true_or]
  obtain ⟨z, counts⟩ := Sweep.exists_counts (a.blocksOf d i ((d.partitionNames l i).filter (isEarlier u))) []
  refine ⟨z, ⟨rfl, by rwa [none'], reports.fine, fun n gone => ?_⟩, ?_⟩
  · exact reports.finePartition n (stale.2 n (by rw [gone.1]; simp))
  · have own := reports.counts
    rw [none] at own
    rw [own.reduced_nil, counts.reduced_nil]

theorem reduced_twice {old between new : Summary} (leads : d.LeadsTo a.root l) (tree : d.IsTree l)
    (once : a.Reduced l s d old between) (again : a.Reduced l t c between new) : a.Reduced l u d old new := by
  intro i
  rcases once i with ⟨absent, entry⟩ | ⟨there, v, reports, entry⟩
  · have gone : c.at? (l ++ [i]) ≠ some .directory := fun there => absent ((first.directory_iff i).1 there).1
    rcases again i with ⟨-, entry'⟩ | ⟨there, -⟩
    · exact .inl ⟨absent, entry'.trans entry⟩
    · exact absurd there gone
  · refine .inr ⟨there, ?_⟩
    rcases again i with ⟨gone, entry'⟩ | ⟨still, w, reports', entry'⟩
    · have stale : d.IsAllStale l s i := by
        by_contra kept
        exact gone ((first.directory_iff i).2 ⟨there, kept⟩)
      obtain ⟨z, reported, same⟩ := reports_whole latest stale reports (old.get? i)
      exact ⟨z, reported, by rw [entry', entry, same]⟩
    · obtain ⟨z, reported, same⟩ :=
        first.reports_twice latest leads (tree.isName there) still reports reports' (old.get? i)
      exact ⟨z, reported, by rw [entry', entry, same]⟩

include second in
/-- What two cleanings leave is what one leaves whose cutoff is on the later of the days. -/
theorem trans (leads : d.LeadsTo a.root l) (tree : d.IsTree l) : a.Pruned l u d e := by
  constructor
  case leads => exact second.leads
  case home => exact second.home.trans first.home
  case away =>
    intro i m other swept
    by_cases again : c.IsSwept l t i m
    · exact second.away i m other again
    · have once := ((first.isSwept_iff latest).1 swept).resolve_right again
      have gone := first.away i m other once
      by_cases also : ∃ j, c.IsSwept l t j m
      · obtain ⟨j, also⟩ := also
        exact second.away j m other also
      · rw [second.rest m other also, gone]
  case rest =>
    intro m other kept
    have keptFirst : ¬ ∃ i, d.IsSwept l s i m := fun ⟨i, swept⟩ => kept ⟨i, (first.isSwept_iff latest).2 (.inl swept)⟩
    have keptSecond : ¬ ∃ i, c.IsSwept l t i m := fun ⟨i, swept⟩ => kept ⟨i, (first.isSwept_iff latest).2 (.inr swept)⟩
    rw [second.rest m other keptSecond, first.rest m other keptFirst]
  case summary =>
    obtain ⟨old, between, before, once, stored⟩ := first.summary
    obtain ⟨between', new, read, again, stored'⟩ := second.summary
    have same : between' = between := Option.some.inj (read.symm.trans (summaryAt_of_written stored))
    rw [same] at again
    exact ⟨old, new, before, first.reduced_twice latest leads tree once again, stored'⟩
  case draft => exact second.draft
  case lock => exact second.lock
  case lockable =>
    refine ⟨first.lockable.lock, fun y listed there => (first.isAllStale_iff latest).2 (.inl ?_)⟩
    exact first.lockable.ledger y listed there
  case fineLock => exact first.fineLock
  case fineDraft => exact first.fineDraft

end

/-! ## One cleaning again -/

theorem not_isStale (pruned : a.Pruned l s d c) (i n : String) : ¬ c.IsStale l s i n := by
  rintro ⟨there, early⟩
  by_cases gone : d.IsStale l s i n
  · rw [pruned.at?_of_isStale gone []] at there
    cases there
  · rw [pruned.at?_of_not_isStale gone []] at there
    exact gone ⟨there, early⟩

theorem not_isAllStale (pruned : a.Pruned l s d c) (i : String) : ¬ c.IsAllStale l s i := by
  rintro ⟨there, all⟩
  obtain ⟨before, kept⟩ := (pruned.directory_iff i).1 there
  refine kept ⟨before, fun n present => ?_⟩
  by_contra fresh
  rw [← pruned.at?_of_not_isStale fresh []] at present
  exact pruned.not_isStale i n (all n present)

/-- There is nothing to do for a cleaning after a cleaning. -/
theorem again (pruned : a.Pruned l s d c) (leads : d.LeadsTo a.root l) (tree : d.IsTree l) : a.Pruned l s c c := by
  have nothing : ∀ i m, ¬ c.IsSwept l s i m := by
    rintro i m (⟨n, stale, -⟩ | ⟨stale, -⟩)
    · exact pruned.not_isStale i n stale
    · exact pruned.not_isAllStale i stale
  obtain ⟨old, new, before, reduced, stored⟩ := pruned.summary
  constructor
  case leads => exact pruned.leads
  case home => rfl
  case away => exact fun i m other swept => absurd swept (nothing i m)
  case rest => exact fun m other kept => rfl
  case summary =>
    refine ⟨new, new, summaryAt_of_written stored, fun i => ?_, stored⟩
    by_cases there : c.at? (l ++ [i]) = some .directory
    · refine .inr ⟨there, ?_⟩
      have before := ((pruned.directory_iff i).1 there).1
      obtain ⟨absent, -⟩ | ⟨-, v, reports, entry⟩ := reduced i
      · exact absurd before absent
      · obtain ⟨w, counts⟩ := Sweep.exists_counts (a.blocksOf c i ((c.partitionNames l i).filter (isEarlier s)))
          (a.blocksOf c i ((c.partitionNames l i).filter fun n => !isEarlier s n))
        have reports' : a.Reports c l s i (i, w) :=
          ⟨rfl, counts, reports.fine, fun n stale => absurd stale (pruned.not_isStale i n)⟩
        obtain ⟨z, reported, same⟩ := pruned.reports_twice (u := s) (fun n => (Bool.or_self _).symm) leads
          (tree.isName before) there reports reports' (old.get? i)
        refine ⟨w, reports', ?_⟩
        rw [entry, same, reported.counts.reduced_eq reports.counts]
    · exact .inl ⟨there, rfl⟩
  case draft => exact pruned.draft
  case lock => exact pruned.lock
  case lockable =>
    refine ⟨?_, fun y listed there => absurd there (pruned.not_directory_ledger listed)⟩
    rw [Disk.content?, pruned.lock]
  case fineLock => exact pruned.fineLock
  case fineDraft => exact pruned.fineDraft

theorem reachable (pruned : a.Pruned l s d c) (there : d.at? (l ++ [i]) = some .directory) :
    a.Reachable l s d i := by
  obtain ⟨old, new, -, reduced, -⟩ := pruned.summary
  obtain ⟨absent, -⟩ | ⟨-, v, reports, -⟩ := reduced i
  · exact absurd there absent
  · exact ⟨reports.fine, reports.finePartition⟩

/-- What is outside of the ledger after a cleaning was there before. -/
theorem within (pruned : a.Pruned l s d c) : Within (Disk.withoutFiles l ledgerNames c) d := by
  refine ⟨(Disk.home_withoutFiles l ledgerNames c).trans pruned.home, fun m x held => ?_⟩
  rw [Disk.at?_withoutFiles] at held
  split at held
  next => cases held
  next other =>
    by_cases swept : ∃ i, d.IsSwept l s i m
    · obtain ⟨i, swept⟩ := swept
      rw [pruned.away i m other swept] at held
      cases held
    · rwa [← pruned.rest m other swept]

theorem leads_withoutFiles (pruned : a.Pruned l s d c) : (Disk.withoutFiles l ledgerNames c).LeadsTo a.root l := by
  refine pruned.leads.mono ⟨Disk.home_withoutFiles l ledgerNames c, fun m there => ?_⟩
  rw [Disk.at?_withoutFiles, if_neg]
  · exact there
  · rintro ⟨y, listed, rfl⟩
    exact pruned.not_directory_ledger listed there

/-- A cleaning succeeds if there is something for it to leave, and leaves that. -/
theorem runOn_clean (pruned : a.Pruned l cutoff.startOfDay d e) (past : cutoff < now)
    (present : a.checkExists.runOn d = (.ok (), d)) (leads : d.LeadsTo a.root l) (tree : d.IsTree l)
    (token : LockToken) : ∃ report b, (a.clean token now cutoff).runOn d = (.ok report, b) ∧ Disk.Alike e b := by
  have spared : ∀ i m, d.IsSwept l cutoff.startOfDay i m → (Disk.withoutFiles l ledgerNames e).at? m = none := by
    intro i m swept
    rw [Disk.at?_withoutFiles]
    split
    next => rfl
    next other => exact pruned.away i m other swept
  obtain ⟨names, report, c, b, -, ran, -⟩ := clean_runOn past present leads tree pruned.leads_withoutFiles pruned.within
    (fun i => pruned.reachable) spared pruned.lockable token
  obtain ⟨old, new, before, -, -⟩ := pruned.summary
  rw [before, outcomeOfChange, pruned.fineLock, pruned.fineDraft] at ran
  exact ⟨report, b, ran, pruned.alike (clean_pruned leads tree ran)⟩

end Pruned

theorem clean_clean {now' : Timestamp} {token' : LockToken} {report report' : SweepReport}
    (latest : ∀ n, isEarlier u n = (isEarlier x.startOfDay n || isEarlier y.startOfDay n)) (leads : d.LeadsTo a.root l)
    (tree : d.IsTree l) (first : (a.clean token now x).runOn d = (.ok report, c))
    (second : (a.clean token' now' y).runOn c = (.ok report', e)) : a.Pruned l u d e := by
  have once := clean_pruned leads tree first
  have again := clean_pruned once.leads (clean_isTree leads tree first) second
  exact once.trans again latest leads tree

/-- Two cleanings that succeed leave the same tree and the same summary as a single one with the later of their cutoffs,
which succeeds, too. So the order of two cleanings does not matter, and a cleaning that is repeated changes nothing. -/
theorem cleanings_compose {now' : Timestamp} {token' : LockToken} {report report' : SweepReport}
    (leads : d.LeadsTo a.root l) (tree : d.IsTree l) (first : (a.clean token now x).runOn d = (.ok report, c))
    (second : (a.clean token' now' y).runOn c = (.ok report', e)) :
    (∀ token now, max x y < now → ∃ report b,
      (a.clean token now (max x y)).runOn d = (.ok report, b) ∧ Disk.Alike e b) ∧
    (∀ token now token' now' report report' b b', (a.clean token now y).runOn d = (.ok report, b) →
      (a.clean token' now' x).runOn b = (.ok report', b') → Disk.Alike e b') ∧
    (∀ token now, x < now → ∃ report b, (a.clean token now x).runOn c = (.ok report, b) ∧ Disk.Alike c b) := by
  have latest := isEarlier_startOfDay_max x y
  have both := clean_clean latest leads tree first second
  obtain ⟨-, present, -⟩ := clean_parts leads tree first
  refine ⟨fun token now past => both.runOn_clean past present leads tree token, ?_, fun token now past => ?_⟩
  · intro token now token' now' report report' b b' firstOther secondOther
    exact both.alike (clean_clean (fun n => (latest n).trans (Bool.or_comm _ _)) leads tree firstOther secondOther)
  · have once := clean_pruned leads tree first
    have present' := checkExists_stays leads once.leads present
    exact (once.again leads tree).runOn_clean past present' once.leads (clean_isTree leads tree first) token

/-- The first cleaning keeps the only block, the second removes it. -/
theorem cleanings_compose_kept_first : ∃ report c report' e report'' b,
    (newArchive.clean [] 200000 50000).runOn writtenDisk = (.ok report, c) ∧
    (newArchive.clean [] 200000 100000).runOn c = (.ok report', e) ∧
    (newArchive.clean [] 200000 100000).runOn writtenDisk = (.ok report'', b) ∧ Disk.Alike e b := by
  have consistent := (runs_writtenDisk.consistent isFresh_newDisk).1
  have first : (newArchive.clean [] 200000 50000).runOn writtenDisk = (.ok ⟨[("eth0", ⟨0, 0, some 5, false, 0⟩)]⟩, _) :=
    Prod.ext (Action.toOption_eq_some.1 (by decide +kernel)) rfl
  have second : (newArchive.clean [] 200000 100000).runOn ((newArchive.clean [] 200000 50000).runOn writtenDisk).2 =
      (.ok ⟨[("eth0", ⟨1, 7, none, true, 1⟩)]⟩, _) := Prod.ext (Action.toOption_eq_some.1 (by decide +kernel)) rfl
  have later : max (50000 : Timestamp) 100000 = 100000 := by decide
  obtain ⟨report, b, single, alike⟩ :=
    (cleanings_compose consistent.leads consistent.tree first second).1 [] 200000 (by decide)
  rw [later] at single
  exact ⟨_, _, _, _, report, b, first, second, single, alike⟩

end Archive

end FlowArchive
