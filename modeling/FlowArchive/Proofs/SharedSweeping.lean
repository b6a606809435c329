import FlowArchive.Proofs.SharedLedger

/-!
# Cleaning beside a write

A cleaning that meets a write takes away what is stale, as it does by itself. What it counts may be out of date: where
it reads the index of the partition that is written, it may find the new block or not. Its report is still right if a
block that stays is as early as the new one.
-/

namespace FlowArchive.Archive

open FlowArchive.Path (IsName)
open Disk (Loses snoc_ne_nil)
open Index (IsFirst IsFirst?)
open scoped List

/-! ## Reading an index that is written -/

namespace Meeting

variable {a : Archive} {g : a.Meeting} {j n : String} {ns : List String} {ds rs : List Descriptor} {m : Location}

def IsOwn (g : a.Meeting) (j n : String) : Prop := j = g.interface ∧ n = partitionName g.time.startOfDay

/-- What can be read of an index while the block is written. -/
def Reads (g : a.Meeting) (j n : String) (ds : List Descriptor) : Prop :=
  ds = g.before.indexAt g.place j n ∨ g.IsOwn j n ∧ ds = g.before.indexAt g.place j n ++ [g.block]

/-- What can be read of several indexes of an interface. -/
def ReadsAll (g : a.Meeting) (j : String) (ns : List String) (rs : List Descriptor) : Prop :=
  rs ~ ns.flatMap (g.before.indexAt g.place j) ∨
    (∃ n ∈ ns, g.IsOwn j n) ∧ rs ~ ns.flatMap (g.before.indexAt g.place j) ++ [g.block]

theorem readsAll_nil (g : a.Meeting) (j : String) : g.ReadsAll j [] [] := .inl (.refl _)

theorem ReadsAll.cons (reads : g.Reads j n ds) (others : g.ReadsAll j ns rs) (unseen : n ∉ ns) :
    g.ReadsAll j (n :: ns) (ds ++ rs) := by
  rcases reads with rfl | ⟨own, rfl⟩
  · rcases others with same | ⟨⟨o, member, own⟩, more⟩
    · exact .inl (same.append_left _)
    · refine .inr ⟨⟨o, List.mem_cons_of_mem _ member, own⟩, ?_⟩
      rw [List.flatMap_cons, List.append_assoc]
      exact more.append_left _
  · have plain : rs ~ ns.flatMap (g.before.indexAt g.place j) := by
      rcases others with same | ⟨⟨o, member, own'⟩, -⟩
      · exact same
      · exact absurd (own.2.trans own'.2.symm ▸ member) unseen
    refine .inr ⟨⟨n, List.mem_cons_self, own⟩, ?_⟩
    rw [List.flatMap_cons, List.append_assoc, List.append_assoc]
    exact (List.perm_append_comm.trans (plain.append_right _)).append_left _

theorem not_isAllStale (g : a.Meeting) : ¬ g.before.IsAllStale g.place g.day g.interface := by
  obtain ⟨n, present, fresh⟩ := g.kept
  exact fun allStale => fresh (allStale.2 n present)

theorem isOwn_place : g.IsOwn j n ↔ g.place ++ [j, n] = g.partition := by
  simp [IsOwn, partition]

theorem apart_of_not_own (other : ¬ g.IsOwn j n) (rest : List String) :
    ¬ g.partition <+: g.place ++ j :: n :: rest := by
  intro inside
  simp only [partition, List.prefix_append_right_inj, List.cons_prefix_cons, List.nil_prefix, and_true] at inside
  exact other ⟨inside.1.symm, inside.2.symm⟩

theorem not_isOwn_of_isEarlier (earlier : isEarlier g.day n = true) : ¬ g.IsOwn j n := by
  rintro ⟨-, rfl⟩
  rw [g.isEarlier_own] at earlier
  cases earlier

theorem IsDoomed.isSwept (doomed : g.IsDoomed m) (below : g.place ++ [j] <+: m) :
    g.before.IsSwept g.place g.day j m := by
  obtain ⟨j', swept⟩ := doomed
  have same := List.prefix_of_prefix_length_le swept.below below (by simp)
  simp only [List.prefix_append_right_inj, List.cons_prefix_cons, List.nil_prefix, and_true] at same
  exact same ▸ swept

theorem isDoomed_partition {rest : List String} :
    g.IsDoomed (g.place ++ j :: n :: rest) ↔ g.before.IsStale g.place g.day j n := Disk.exists_isSwept_iff

/-- What a sweep makes of one entry. -/
def Tally (g : a.Meeting) (j : String) (x : String × EntryKind) (s s' : Sweep) : Prop :=
  isStale g.day x = true ∧ s' = s.remove (g.before.indexAt g.place j x.1) ∨
    isStale g.day x = false ∧ ∃ ds, g.Reads j x.1 ds ∧ s' = if isRetained g.day x then s.retain ds else s.keep

/-- What a sweep makes of some entries. -/
structure Tallies (g : a.Meeting) (j : String) (es : List (String × EntryKind)) (s s' : Sweep) : Prop where
  allStale : s'.allStale = true ↔ s.allStale = true ∧ ∀ x ∈ es, isStale g.day x = true
  counts : ∃ rs, g.ReadsAll j ((es.filter (isRetained g.day)).map (·.1)) rs ∧ ∀ gone rest, s.Counts gone rest →
    s'.Counts (gone ++ ((es.filter (isStale g.day)).map (·.1)).flatMap (g.before.indexAt g.place j)) (rest ++ rs)

theorem tallies_nil (g : a.Meeting) (j : String) (s : Sweep) : g.Tallies j [] s s :=
  ⟨by simp, [], g.readsAll_nil j, fun gone rest counts => by simpa using counts⟩

theorem isRetained_of_isStale {day : Timestamp} {x : String × EntryKind} (stale : isStale day x = true) :
    isRetained day x = false := by
  simp only [isStale, Bool.and_eq_true] at stale
  simp [isRetained, stale.2]

theorem Tallies.cons {x : String × EntryKind} {es : List (String × EntryKind)} {s t s' : Sweep}
    (first : g.Tally j x s t) (more : g.Tallies j es t s') (unseen : x.1 ∉ es.map (·.1)) : g.Tallies j (x :: es) s s' := by
  obtain ⟨allStale, rs, reads, counts⟩ := more
  -- Only one of the indexes can list the block, since no name comes twice.
  rcases first with ⟨stale, rfl⟩ | ⟨fresh, ds, read, rfl⟩
  · refine ⟨?_, rs, ?_, fun gone rest before => ?_⟩
    · rw [allStale]
      simp [Sweep.remove, stale]
    · simpa [isRetained_of_isStale stale] using reads
    · simpa [stale] using counts _ _ (before.remove _)
  · have unseen' : x.1 ∉ (es.filter (isRetained g.day)).map (·.1) := fun seen =>
      unseen ((List.filter_sublist.map _).subset seen)
    cases kept : isRetained g.day x with
    | true =>
      rw [kept, if_pos rfl] at allStale counts
      refine ⟨?_, ds ++ rs, ?_, fun gone rest before => ?_⟩
      · rw [allStale]
        simp [Sweep.retain, fresh]
      · rw [List.filter_cons_of_pos kept]
        exact reads.cons read unseen'
      · simpa [fresh] using counts _ _ (before.retain ds)
    | false =>
      rw [kept] at allStale counts
      refine ⟨?_, rs, ?_, fun gone rest before => ?_⟩
      · rw [allStale]
        simp [Sweep.keep, fresh]
      · simpa [kept] using reads
      · simpa [fresh] using counts _ _ before.keep

/-- What the entries of an interface tell, if nothing of the interface is gone when they are listed. -/
structure Lists (g : a.Meeting) (j : String) (es : List (String × EntryKind)) : Prop where
  distinct : (es.map (·.1)).Nodup
  names : ∀ x ∈ es, IsName x.1
  stale : ∀ n, n ∈ (es.filter (isStale g.day)).map (·.1) ↔ g.before.IsStale g.place g.day j n
  allStale : (∀ x ∈ es, isStale g.day x = true) ↔ g.before.IsAllStale g.place g.day j
  retained : ∀ n, g.before.indexAt g.place j n ≠ [] →
    (n ∈ (es.filter (isRetained g.day)).map (·.1) ↔
      n ∈ (g.before.partitionNames g.place j).filter fun n => !isEarlier g.day n)

/-- What a sweep reports of an interface beside a write: what was stale is counted; of what stays, the new block may
have been met or not. -/
structure Reports (g : a.Meeting) (j : String) (r : String × Sweep) : Prop where
  name : r.1 = j
  counts : r.2.Counts (g.removed j) (g.retained j) ∨
    j = g.interface ∧ r.2.Counts (g.removed j) (g.retained j ++ [g.block])

end Meeting

/-- Lists that have the same members where something is listed list the same. -/
theorem flatMap_perm {α β : Type} {f : α → List β} {as bs : List α} (nodup : as.Nodup) (nodup' : bs.Nodup)
    (same : ∀ x, f x ≠ [] → (x ∈ as ↔ x ∈ bs)) : as.flatMap f ~ bs.flatMap f := by
  have filled : ∀ cs : List α, cs.flatMap f = (cs.filter fun x => !(f x).isEmpty).flatMap f := by
    intro cs
    induction cs with
    | nil => rfl
    | cons c rest ih =>
      rw [List.flatMap_cons, List.filter_cons, ih]
      cases empty : f c with
      | nil => simp
      | cons y ys => simp [empty]
  rw [filled as, filled bs]
  refine List.Perm.flatMap_right _ ((List.perm_ext_iff_of_nodup (nodup.filter _) (nodup'.filter _)).2 fun x => ?_)
  simp only [List.mem_filter, Bool.not_eq_true', List.isEmpty_eq_false_iff]
  exact and_congr_left fun present => same x present

namespace Meeting

variable {a : Archive} {g : a.Meeting} {j n : String} {es : List (String × EntryKind)} {w : Sweep}

theorem mem_stale : n ∈ (g.before.partitionNames g.place j).filter (isEarlier g.day) ↔
    g.before.IsStale g.place g.day j n := by
  rw [List.mem_filter, Disk.mem_partitionNames, Disk.IsStale, and_assoc]
  refine and_congr_right fun _ => and_iff_right_of_imp fun earlier => ?_
  obtain ⟨t, rfl, -⟩ := isEarlier_iff.1 earlier
  rw [partitionDay?_partitionName]
  rfl

theorem Tallies.reports (tallies : g.Tallies j es .start w) (lists : g.Lists j es) : g.Reports j (j, w) := by
  obtain ⟨rs, reads, counts⟩ := tallies.counts
  have counted := counts [] [] Sweep.start_counts
  have nodup : ∀ p : String × EntryKind → Bool, ((es.filter p).map (·.1)).Nodup := fun p =>
    lists.distinct.sublist (List.filter_sublist.map _)
  have own := Disk.nodup_partitionNames g.before g.place j
  have gone : ((es.filter (isStale g.day)).map (·.1)).flatMap (g.before.indexAt g.place j) ~ g.removed j :=
    flatMap_perm (nodup _) (own.filter _) fun n _ => by rw [lists.stale, mem_stale]
  have rest : ((es.filter (isRetained g.day)).map (·.1)).flatMap (g.before.indexAt g.place j) ~ g.retained j :=
    flatMap_perm (nodup _) (own.filter _) lists.retained
  refine ⟨rfl, ?_⟩
  rcases reads with same | ⟨⟨n, -, here⟩, more⟩
  · exact .inl (counted.perm gone (same.trans rest))
  · exact .inr ⟨here.1, counted.perm gone (more.trans (rest.append_right _))⟩

end Meeting

/-! ## What is gone -/

namespace Moment

variable {a : Archive} {g : a.Meeting} {s t u : Moment g} {e : Disk} {token : LockToken} {j n : String} {m : Location}
  {gone gone' : Location → Prop}

/-- Of what is stale, this is gone, and the rest is as before. The summary has not been told. -/
structure Lost (s : Moment g) (gone : Location → Prop) : Prop where
  untold : s.told .cleaner = false
  away : ∀ m, g.IsDoomed m → gone m → s.disk.at? m = none
  rest : ∀ m, g.IsDoomed m → ¬ gone m → s.disk.at? m = g.before.at? m

theorem stable_lost (gone : Location → Prop) : (terms g .cleaner).Stable (Lost · gone) := fun _ _ turn lost =>
  ⟨turn.told.trans lost.untold, fun m doomed away => (turn.owned m doomed).trans (lost.away m doomed away),
    fun m doomed kept => (turn.owned m doomed).trans (lost.rest m doomed kept)⟩

theorem stable_lost_and (gone : Location → Prop) (p : Prop) : (terms g .cleaner).Stable fun s => s.Lost gone ∧ p :=
  fun s t turn both => ⟨stable_lost gone s t turn both.1, both.2⟩

theorem Lost.congr (lost : s.Lost gone) (same : ∀ m, g.IsDoomed m → (gone m ↔ gone' m)) : s.Lost gone' :=
  ⟨lost.untold, fun m doomed away => lost.away m doomed ((same m doomed).2 away),
    fun m doomed kept => lost.rest m doomed fun away => kept ((same m doomed).1 away)⟩

/-- What is not gone is as before, except in the ledger and in the partition of the block. -/
theorem Lost.at?_eq (lost : s.Lost gone) (kept : ¬ gone m) (ledger : ¬ IsLedgerFile g.place m)
    (outside : ¬ g.partition <+: m) : s.disk.at? m = g.before.at? m := by
  by_cases doomed : g.IsDoomed m
  · exact lost.rest m doomed kept
  · exact s.at?_apart ledger outside doomed

theorem Lost.at?_partition (lost : s.Lost gone) (kept : ¬ gone (g.place ++ [j, n])) (other : ¬ g.IsOwn j n) :
    s.disk.at? (g.place ++ [j, n]) = g.before.at? (g.place ++ [j, n]) :=
  lost.at?_eq kept (not_isLedgerFile _ j n []) (g.apart_of_not_own other [])

theorem Lost.interface_iff (lost : s.Lost gone) (kept : ¬ gone (g.place ++ [j])) :
    s.disk.at? (g.place ++ [j]) = some .directory ↔ g.before.at? (g.place ++ [j]) = some .directory := by
  constructor
  · intro there
    rwa [← lost.at?_eq kept (s.not_isLedgerFile_interface there) (g.partition_apart j)]
  · intro there
    rw [lost.at?_eq kept _ (g.partition_apart j), there]
    rintro ⟨x, listed, same⟩
    exact g.free x listed (same ▸ there)

/-! ## What an index is read as -/

theorem readable_of_content (s : Moment g) (held : s.disk.content? (g.place ++ [j, n, indexName]) ≠ none) :
    a.Readable j n := by
  by_cases own : g.IsOwn j n
  · obtain ⟨rfl, rfl⟩ := own
    refine s.readable ?_
    rwa [g.index_eq]
  · refine g.consistent.readable j n ?_
    rcases s.rest _ (not_isLedgerFile _ j n [indexName]) (g.apart_of_not_own own [indexName]) with same | ⟨absent, -⟩
    · rwa [← Disk.content?_congr same]
    · simp [Disk.content?, absent] at held

theorem indexOf_eq (s : Moment g) (name : IsName j) (name' : IsName n) :
    s.disk.indexOf ((a.interfacePath j).join n) = s.disk.indexAt g.place j n :=
  indexOf_eq_indexAt s.leads s.tree name name' s.readable_of_content

/-- The index of the partition of the block lists the block, or it does not yet. -/
theorem reads_own (s : Moment g) :
    g.Reads g.interface (partitionName g.time.startOfDay)
      (s.disk.indexAt g.place g.interface (partitionName g.time.startOfDay)) := by
  rcases s.index with same | entered
  · rw [g.index_eq] at same
    exact .inl (by rw [Disk.indexAt, same, Disk.indexAt])
  · exact .inr ⟨⟨rfl, rfl⟩, indexAt_of_entered entered⟩

/-- The index of a partition that stays lists what it did, and perhaps the block. -/
theorem reads_fresh (s : Moment g) (fresh : isEarlier g.day n = false) :
    g.Reads j n (s.disk.indexAt g.place j n) := by
  by_cases own : g.IsOwn j n
  · obtain ⟨rfl, rfl⟩ := own
    exact s.reads_own
  · refine .inl (Disk.indexAt_congr ?_)
    refine s.at?_apart (not_isLedgerFile _ j n [indexName]) (g.apart_of_not_own own [indexName]) fun doomed => ?_
    rw [(g.isDoomed_partition.1 doomed).2] at fresh
    cases fresh

theorem Lost.indexAt_eq (lost : s.Lost gone) (stale : g.before.IsStale g.place g.day j n)
    (kept : ¬ gone (g.place ++ [j, n, indexName])) : s.disk.indexAt g.place j n = g.before.indexAt g.place j n :=
  Disk.indexAt_congr (lost.rest _ (g.isDoomed_partition.2 stale) kept)

/-! ## Taking away -/

/-- The path of the archive does not lead through what is in its directory. -/
theorem leads_emptied (s : Moment g) (inside : g.place <+: m) (below : m ≠ g.place) :
    (s.disk.emptied m).LeadsTo a.root g.place := by
  refine g.firm _ s.home fun k outside => ?_
  rw [Disk.at?_emptied, if_neg, s.at?_outside outside]
  rintro ⟨further, -⟩
  refine outside ⟨inside.trans further, ?_⟩
  rintro rfl
  exact below (further.eq_of_length_le inside.length_le)

theorem Lost.exists_lost (lost : s.Lost gone) (loses : Loses s.disk e fun k => m <+: k)
    (doomed : ∀ k, m <+: k → s.disk.at? k ≠ none → g.IsDoomed k) :
    ∃ t : Moment g, t.disk = e ∧ Spares .writer s t ∧ t.Lost fun k => gone k ∨ m <+: k := by
  refine ⟨s.lose e loses doomed fun k x below _ => below.trans (List.prefix_append _ _), rfl, spares_lose, lost.untold,
    ?_, ?_⟩
  · intro k stale away
    by_cases now : m <+: k
    · exact loses.away k now
    · exact (loses.rest k now).trans (lost.away k stale (away.resolve_right now))
  · intro k stale kept
    exact (loses.rest k fun now => kept (.inr now)).trans (lost.rest k stale fun before => kept (.inl before))

theorem looks_readIndex (p : Path) : (Action.ofScript (readIndex p)).script.Looks :=
  Action.looks_ofScript ⟨fun _ => rfl, fun answer => by cases answer <;> exact ⟨_, rfl⟩⟩

/-- Something stale of a directory that stays is taken away, or nothing is. -/
theorem keeps_removeTree {l : Location} {p : Path} {x : String} (lost : s.Lost gone) (name : IsName x)
    (leads : ∀ {u : Moment g}, u.Lost gone → u.disk.LeadsTo p l)
    (apart : ∀ {u : Moment g}, u.Lost gone → (u.disk.emptied (l ++ [x])).LeadsTo p l)
    (doomed : ∀ (u : Moment g) k, l ++ [x] <+: k → u.disk.at? k ≠ none → g.IsDoomed k) :
    (Action.ask (.removeTree (p.join x))).Keeps (terms g .cleaner)
      (Action.Success fun _ s => s.Lost fun k => gone k ∨ l ++ [x] <+: k) s := by
  refine Action.keeps_ask (stable_lost gone) (Action.stable_success fun _ => stable_lost _) lost ?_
  intro u answer e lost removed
  rcases Disk.removeTree_apart (leads lost) name (apart lost) removed with ⟨⟨f, rfl⟩, rfl⟩ | ⟨rfl, loses⟩
  · exact ⟨u, rfl, spares_refl _ u, Action.success_error _⟩
  · obtain ⟨v, same, spares, lost⟩ := lost.exists_lost loses (doomed u)
    exact ⟨v, same, spares, Action.success_ok.2 lost⟩

theorem keeps_removePartition (lost : s.Lost gone) (name : IsName j) (name' : IsName n)
    (short : j.utf8ByteSize ≤ Path.longestName) (there : g.before.at? (g.place ++ [j]) = some .directory)
    (kept : ¬ gone (g.place ++ [j])) (stale : g.before.IsStale g.place g.day j n) :
    (removePartition ((a.interfacePath j).join n)).Keeps (terms g .cleaner)
      (Action.Success fun _ s => s.Lost fun k => gone k ∨ g.place ++ [j, n] <+: k) s := by
  have place : g.place ++ [j] ++ [n] = g.place ++ [j, n] := by simp
  rw [← place]
  refine keeps_removeTree lost name' ?_ ?_ ?_
  · exact fun lost => Disk.LeadsTo.join (leads _) name short ((lost.interface_iff kept).2 there)
  · intro u lost
    refine (u.leads_emptied (m := g.place ++ [j] ++ [n]) ?_ (by simp)).join name short ?_
    · rw [place]
      exact List.prefix_append _ _
    · rw [Disk.at?_emptied, if_neg, (lost.interface_iff kept).2 there]
      rintro ⟨below, -⟩
      have longer := below.length_le
      simp at longer
  · rintro u k ⟨rest, rfl⟩ -
    simpa using g.isDoomed_partition.2 stale

theorem keeps_removeInterface (lost : s.Lost gone) (name : IsName j)
    (allStale : g.before.IsAllStale g.place g.day j) :
    (a.removeInterface j).Keeps (terms g .cleaner)
      (Action.Success fun _ s => s.Lost fun k => gone k ∨ g.place ++ [j] <+: k) s := by
  refine keeps_removeTree lost name (fun _ => leads _) (fun _ => leads_emptied _ (List.prefix_append _ _) (by simp)) ?_
  rintro u k below present
  refine ⟨j, (g.consistent.tree.isSwept_iff ?_ allStale).2 below⟩
  obtain ⟨rest, rfl⟩ := below
  cases rest with
  | nil => simp [allStale.1]
  | cons n rest =>
    have other : ¬ g.IsOwn j n := fun own => g.not_isAllStale (own.1 ▸ allStale)
    rw [List.append_assoc] at present ⊢
    rcases u.rest _ (not_isLedgerFile _ j n rest) (g.apart_of_not_own other rest) with same | ⟨absent, -⟩
    · exact same ▸ present
    · exact absurd absent present

/-! ## Entries of an interface -/

variable {w w' : Sweep} {x : String × EntryKind} {es : List (String × EntryKind)}

/-- What a sweep of an interface begins with: its directory is there, and its path can be followed. -/
structure Sweeps (g : a.Meeting) (j : String) (gone : Location → Prop) : Prop where
  name : IsName j
  short : j.utf8ByteSize ≤ Path.longestName
  there : g.before.at? (g.place ++ [j]) = some .directory
  kept : ¬ gone (g.place ++ [j])

/-- What is gone after some entries of an interface have been swept. -/
def GoneWith (g : a.Meeting) (j : String) (es : List (String × EntryKind)) (gone : Location → Prop) (m : Location) :
    Prop := gone m ∨ ∃ x ∈ es, isStale g.day x = true ∧ g.place ++ [j, x.1] <+: m

/-- A stale index is read as it was, and one that stays may already list the block. -/
theorem keeps_readIndex (sweeps : Sweeps g j gone) (lost : s.Lost gone) (name : IsName n)
    (stale : isEarlier g.day n = true → g.before.IsStale g.place g.day j n)
    (kept : ¬ gone (g.place ++ [j, n, indexName])) :
    (Action.ofScript (readIndex ((a.interfacePath j).join n))).Keeps (terms g .cleaner)
      (Action.Success fun ds s => s.Lost gone ∧ if isEarlier g.day n then ds = g.before.indexAt g.place j n
        else g.Reads j n ds) s := by
  refine Action.keeps_of_looks (looks_readIndex _) (stable_lost gone) (Action.stable_success fun ds =>
    stable_lost_and _ _) lost fun u lost => ?_
  show Action.Success _ ((Action.ofScript (readIndex _)).runOn u.disk).1 u
  rw [runOn_readIndex, u.indexOf_eq sweeps.name name]
  refine Action.success_ok.2 ⟨lost, ?_⟩
  split
  next early => exact lost.indexAt_eq (stale early) kept
  next late => exact u.reads_fresh (by simpa using late)

theorem keeps_sweepEntry (sweeps : Sweeps g j gone) (lost : s.Lost gone) (name : IsName x.1)
    (stale : isStale g.day x = true → g.before.IsStale g.place g.day j x.1)
    (kept : ¬ gone (g.place ++ [j, x.1, indexName])) :
    (sweepEntry g.day w (a.classify j x)).Keeps (terms g .cleaner)
      (Action.Success fun w' s => s.Lost (GoneWith g j [x] gone) ∧ g.Tally j x w w') s := by
  -- An entry that is not stale takes nothing away.
  have same : isStale g.day x = false → ∀ {u : Moment g}, u.Lost gone → u.Lost (GoneWith g j [x] gone) :=
    fun fresh u lost => lost.congr fun m _ => by simp [GoneWith, fresh]
  obtain ⟨n, k⟩ := x
  cases k with
  | file => exact Action.keeps_pure (stable_lost_and _ _) ⟨same rfl lost, .inr ⟨rfl, _, .inl rfl, rfl⟩⟩
  | directory =>
    cases found : partitionDay? n with
    | none =>
      have fresh : isStale g.day (n, .directory) = false := by simp [isStale, isEarlier, found]
      simp only [classify, found, sweepEntry]
      exact Action.keeps_pure (stable_lost_and _ _)
        ⟨same fresh lost, .inr ⟨fresh, _, .inl rfl, by simp [isRetained, found]⟩⟩
    | some t =>
      have own : isEarlier g.day n = decide (t < g.day) := by rw [isEarlier, found, Option.any_some]
      simp only [classify, found, sweepEntry]
      refine (keeps_readIndex sweeps lost name (fun early => stale (by simp [isStale, early])) kept).bind
        fun ds u read => ?_
      obtain ⟨lost, read⟩ := read
      simp only [own, decide_eq_true_eq] at read
      split
      next early =>
        have old : isStale g.day (n, .directory) = true := by simp [isStale, own, early]
        rw [if_pos early] at read
        refine (keeps_removePartition lost sweeps.name name sweeps.short sweeps.there sweeps.kept
          (stale old)).bind fun _ v lost => ?_
        exact Action.keeps_pure (stable_lost_and _ _)
          ⟨lost.congr fun m _ => by simp [GoneWith, old], .inl ⟨old, by rw [read]⟩⟩
      next late =>
        have fresh : isStale g.day (n, .directory) = false := by simp [isStale, own, late]
        rw [if_neg late] at read
        refine Action.keeps_pure (stable_lost_and _ _) ⟨same fresh lost, .inr ⟨fresh, ds, read, ?_⟩⟩
        simp [isRetained, found, own, late]

theorem keeps_sweepEntries (sweeps : Sweeps g j gone) (lost : s.Lost gone) (distinct : (es.map (·.1)).Nodup)
    (names : ∀ x ∈ es, IsName x.1)
    (stale : ∀ x ∈ es, isStale g.day x = true → g.before.IsStale g.place g.day j x.1)
    (kept : ∀ x ∈ es, ¬ gone (g.place ++ [j, x.1, indexName])) :
    (sweepEntries g.day w (es.map (a.classify j))).Keeps (terms g .cleaner)
      (Action.Success fun w' s => s.Lost (GoneWith g j es gone) ∧ g.Tallies j es w w') s := by
  -- The entries that were swept before are in what is gone, so the induction is for all that may be gone.
  induction es generalizing gone s w with
  | nil => exact Action.keeps_pure (stable_lost_and _ _) ⟨lost.congr fun m _ => by simp [GoneWith], g.tallies_nil j w⟩
  | cons x others ih =>
    obtain ⟨unseen, distinct⟩ := List.nodup_cons.1 distinct
    have one : GoneWith g j [x] gone = fun m => gone m ∨ isStale g.day x = true ∧ g.place ++ [j, x.1] <+: m := by
      funext m
      simp [GoneWith]
    refine (keeps_sweepEntry sweeps lost (names x List.mem_cons_self) (stale x List.mem_cons_self)
      (kept x List.mem_cons_self)).bind fun w₁ t first => ?_
    obtain ⟨lost, tally⟩ := first
    have sweeps' : Sweeps g j (GoneWith g j [x] gone) := by
      refine ⟨sweeps.name, sweeps.short, sweeps.there, ?_⟩
      rw [one]
      rintro (before | ⟨-, below⟩)
      · exact sweeps.kept before
      · have longer := below.length_le
        simp at longer
    have kept' : ∀ y ∈ others, ¬ GoneWith g j [x] gone (g.place ++ [j, y.1, indexName]) := by
      intro y later
      rw [one]
      rintro (before | ⟨-, below⟩)
      · exact kept y (List.mem_cons_of_mem _ later) before
      · simp only [List.prefix_append_right_inj, List.cons_prefix_cons, List.nil_prefix, and_true, true_and] at below
        exact unseen (List.mem_map.2 ⟨y, later, below.symm⟩)
    have rest := ih (w := w₁) sweeps' lost distinct (fun y later => names y (List.mem_cons_of_mem _ later))
      (fun y later => stale y (List.mem_cons_of_mem _ later)) kept'
    refine Script.Keeps.mono rest fun o u came w' same => ?_
    obtain ⟨lost, tallies⟩ := came w' same
    refine ⟨lost.congr fun m _ => ?_, tallies.cons tally unseen⟩
    rw [GoneWith, one]
    simp [GoneWith, or_assoc]

/-! ## An interface -/

/-- The entries of an interface tell what was there before, as long as nothing of the interface is gone. -/
theorem Lost.lists (lost : s.Lost gone) (kept : ∀ k, ¬ gone (g.place ++ j :: k))
    (there : g.before.at? (g.place ++ [j]) = some .directory)
    (all : ∀ x, x ∈ es ↔ x ∈ s.disk.children (g.place ++ [j])) (distinct : (es.map (·.1)).Nodup) : g.Lists j es := by
  have same : ∀ {n}, ¬ g.IsOwn j n → s.disk.at? (g.place ++ [j, n]) = g.before.at? (g.place ++ [j, n]) := fun other =>
    lost.at?_partition (kept _) other
  have stale : ∀ n, s.disk.IsStale g.place g.day j n ↔ g.before.IsStale g.place g.day j n := fun n =>
    and_congr_left fun earlier => by rw [same (g.not_isOwn_of_isEarlier earlier)]
  have directory : ∀ n, (n, .directory) ∈ es ↔ s.disk.at? (g.place ++ [j, n]) = some .directory := fun n => by
    rw [all, Disk.mem_children_directory, ← List.append_cons]
  refine ⟨distinct, fun x member => ?_, fun n => ?_, ?_, fun n present => ?_⟩
  · obtain ⟨entry, found, -⟩ := Disk.mem_children.1 ((all x).1 member)
    exact (s.tree [j] x.1 (by rw [found]; simp)).1
  · rw [← stale, Disk.IsStale, ← directory]
    simp only [List.mem_map, List.mem_filter, isStale, Bool.and_eq_true, beq_iff_eq]
    constructor
    · rintro ⟨⟨n, k⟩, ⟨member, rfl, earlier⟩, rfl⟩
      exact ⟨member, earlier⟩
    · exact fun both => ⟨(n, .directory), ⟨both.1, rfl, both.2⟩, rfl⟩
  · rw [Disk.forall_isStale_iff all]
    constructor
    · refine fun each => ⟨there, fun n present => (stale n).1 (each n ?_)⟩
      by_cases own : g.IsOwn j n
      · rw [g.isOwn_place.1 own] at present ⊢
        rcases s.partition with same | new
        · rwa [same]
        · simp [new]
      · rwa [same own]
    · intro allStale n present
      have other : ¬ g.IsOwn j n := fun own => g.not_isAllStale (own.1 ▸ allStale)
      rw [same other] at present
      exact (stale n).2 (allStale.2 n present)
  · -- Where a block is listed, the partition is there before, and it stays.
    have index : g.before.at? (g.place ++ [j, n, indexName]) ≠ none := fun absent =>
      present (Disk.indexAt_of_absent absent)
    have before : g.before.at? (g.place ++ [j, n]) = some .directory :=
      (g.consistent.tree [j, n] indexName (by simpa using index)).2
    have now : s.disk.at? (g.place ++ [j, n]) = some .directory := by
      by_cases own : g.IsOwn j n
      · rw [g.isOwn_place.1 own] at before ⊢
        exact s.partition_kept before
      · rw [same own, before]
    simp only [List.mem_map, List.mem_filter, isRetained, Bool.and_eq_true, beq_iff_eq, Disk.mem_partitionNames, before,
      true_and]
    constructor
    · rintro ⟨⟨n, k⟩, ⟨member, ⟨rfl, day⟩, fresh⟩, rfl⟩
      exact ⟨day, fresh⟩
    · exact fun both => ⟨(n, .directory), ⟨(directory n).2 now, ⟨rfl, both.1⟩, both.2⟩, rfl⟩

theorem keeps_entries (lost : s.Lost gone) (kept : ∀ k, ¬ gone (g.place ++ j :: k)) (name : IsName j)
    (there : g.before.at? (g.place ++ [j]) = some .directory) :
    (a.entries j).Keeps (terms g .cleaner) (Action.Success fun found s => s.Lost gone ∧
      j.utf8ByteSize ≤ Path.longestName ∧ ∃ es, found = es.map (a.classify j) ∧ g.Lists j es) s := by
  refine Action.keeps_of_looks (Action.looks_map (Action.looks_ask fun _ => rfl) _) (stable_lost gone)
    (Action.stable_success fun _ => stable_lost_and _ _) lost fun u lost found came => ?_
  have listed : (a.entries j).runOn u.disk = (.ok found, u.disk) := Prod.ext came (reads_entries a j u.disk)
  obtain ⟨-, -, inside, es, sorted, rfl⟩ := entries_ok u.leads name listed
  have distinct : (es.map (·.1)).Nodup := (sorted.map _).nodup_iff.2 (Disk.nodup_children _ _)
  exact ⟨lost, (inside.of_join u.leads name).2, es, rfl, lost.lists kept there (fun x => sorted.mem_iff) distinct⟩

/-- The sweep of an interface takes away what is stale of it, whatever the writer does meanwhile. -/
theorem keeps_sweepInterface (lost : s.Lost gone) (kept : ∀ k, ¬ gone (g.place ++ j :: k)) (name : IsName j)
    (there : g.before.at? (g.place ++ [j]) = some .directory) :
    (a.sweepInterface g.day j).Keeps (terms g .cleaner) (Action.Success fun r s =>
      s.Lost (fun m => gone m ∨ g.before.IsSwept g.place g.day j m) ∧ g.Reports j r) s := by
  unfold sweepInterface
  refine (keeps_entries lost kept name there).bind fun found t listed => ?_
  obtain ⟨lost, short, es, rfl, lists⟩ := listed
  have sweeps : Sweeps g j gone := ⟨name, short, there, kept []⟩
  have stale : ∀ x ∈ es, isStale g.day x = true → g.before.IsStale g.place g.day j x.1 := fun x member old =>
    (lists.stale x.1).1 (List.mem_map_of_mem (List.mem_filter.2 ⟨member, old⟩))
  refine (keeps_sweepEntries sweeps lost lists.distinct lists.names stale fun x _ => kept _).bind fun w u swept => ?_
  obtain ⟨lost, tallies⟩ := swept
  have all : w.allStale = true ↔ g.before.IsAllStale g.place g.day j := by
    rw [tallies.allStale, ← lists.allStale]
    exact and_iff_right rfl
  -- The partitions that went are those that were stale.
  have partitions : ∀ m, GoneWith g j es gone m ↔
      gone m ∨ ∃ n, g.before.IsStale g.place g.day j n ∧ g.place ++ [j, n] <+: m := by
    intro m
    refine or_congr_right ⟨?_, ?_⟩
    · rintro ⟨x, member, old, below⟩
      exact ⟨x.1, stale x member old, below⟩
    · rintro ⟨n, old, below⟩
      obtain ⟨x, member, rfl⟩ := List.mem_map.1 ((lists.stale n).2 old)
      exact ⟨x, (List.mem_filter.1 member).1, (List.mem_filter.1 member).2, below⟩
  split
  next gone =>
    refine (keeps_removeInterface lost name (all.1 gone)).bind fun _ v lost => ?_
    refine Action.keeps_pure (stable_lost_and _ _) ⟨lost.congr fun m doomed => ?_, tallies.reports lists⟩
    rw [partitions, or_assoc]
    refine or_congr_right ⟨?_, fun swept => .inr swept.below⟩
    rintro (⟨n, old, below⟩ | below)
    · exact .inl ⟨n, old, below⟩
    · exact doomed.isSwept below
  next some =>
    refine Action.keeps_pure (stable_lost_and _ _) ⟨lost.congr fun m _ => ?_, tallies.reports lists⟩
    rw [partitions, Disk.IsSwept]
    exact or_congr_right (or_iff_left fun whole => some (all.2 whole.1)).symm

/-! ## All interfaces -/

theorem keeps_sweepInterfaces {names : List String} (distinct : names.Nodup) (lost : s.Lost gone)
    (kept : ∀ j ∈ names, ∀ k, ¬ gone (g.place ++ j :: k))
    (there : ∀ j ∈ names, g.before.at? (g.place ++ [j]) = some .directory) :
    (Action.forEach (a.sweepInterface g.day) names).Keeps (terms g .cleaner) (Action.Success fun rs s =>
      s.Lost (fun m => gone m ∨ ∃ j ∈ names, g.before.IsSwept g.place g.day j m) ∧
        List.Forall₂ g.Reports names rs) s := by
  induction names generalizing gone s with
  | nil =>
    rw [Action.forEach]
    exact Action.keeps_pure (stable_lost_and _ _) ⟨lost.congr fun m _ => by simp, .nil⟩
  | cons j others ih =>
    obtain ⟨unseen, distinct⟩ := List.nodup_cons.1 distinct
    have here := there j List.mem_cons_self
    rw [Action.forEach]
    refine (keeps_sweepInterface lost (kept j List.mem_cons_self) (g.consistent.tree.isName here) here).bind
      fun r t swept => ?_
    obtain ⟨lost, report⟩ := swept
    have kept' : ∀ j' ∈ others, ∀ k, ¬ (gone (g.place ++ j' :: k) ∨
        g.before.IsSwept g.place g.day j (g.place ++ j' :: k)) := by
      rintro j' later k (before | now)
      · exact kept j' (List.mem_cons_of_mem _ later) k before
      · have inside := (List.prefix_append_right_inj _).1 now.below
        rw [List.cons_prefix_cons] at inside
        exact unseen (inside.1 ▸ later)
    refine (ih distinct lost kept' fun j' later => there j' (List.mem_cons_of_mem _ later)).bind fun rs u rest => ?_
    obtain ⟨lost, reports⟩ := rest
    refine Action.keeps_pure (stable_lost_and _ _) ⟨lost.congr fun m _ => ?_, .cons report reports⟩
    simp [or_assoc]

/-! ## The cleaning -/

def Clears (s : Moment g) : Prop := ∀ m, g.IsDoomed m → s.disk.at? m = none

theorem ofOwn_clears (g : a.Meeting) : OfOwn .cleaner (Clears (g := g)) := fun _ _ owned clears m doomed =>
  (owned m doomed).trans (clears m doomed)

end Moment

namespace Meeting

variable {a : Archive} {g : a.Meeting} {j : String} {r : String × Sweep} {old : Option InterfaceSummary}

/-- Beside a block that is as early, another does not change which time is the first. -/
theorem isFirst?_append {t : Option Timestamp} {x y : Descriptor} {ds : List Descriptor} (member : y ∈ ds)
    (early : y.time ≤ x.time) : IsFirst? t (ds ++ [x]) ↔ IsFirst? t ds := by
  cases t with
  | none => exact iff_of_false (by simp [IsFirst?]) (List.ne_nil_of_mem member)
  | some t =>
    constructor
    · rintro ⟨⟨z, listed, rfl⟩, least⟩
      have before := least y (List.mem_append_left _ member)
      refine ⟨?_, fun z' listed' => least z' (List.mem_append_left _ listed')⟩
      rcases List.mem_append.1 listed with inside | last
      · exact ⟨z, inside, rfl⟩
      · rw [List.mem_singleton.1 last] at before ⊢
        exact ⟨y, member, Int64.le_antisymm early before⟩
    · rintro ⟨⟨z, listed, rfl⟩, least⟩
      refine ⟨⟨z, List.mem_append_left _ listed, rfl⟩, fun z' listed' => ?_⟩
      rcases List.mem_append.1 listed' with inside | last
      · exact least z' inside
      · rw [List.mem_singleton.1 last]
        exact Int64.le_trans (least y member) early

/-- Beside an early block, it does not matter whether a sweep has met the new one. -/
theorem Reports.agrees (reports : g.Reports j r) (old : Option InterfaceSummary) (early : j = g.interface → g.Early)
    (met : Bool) (own : met = true → j = g.interface)
    (agrees : InterfaceSummary.Agrees old (g.removed j ++ g.retained j ++ if met then [g.block] else [])) :
    InterfaceSummary.Agrees (r.2.reduced old) (g.retained j ++ if met then [g.block] else []) := by
  rw [List.append_assoc] at agrees
  -- The sums of what was removed are the same whether or not the block was met, and so is the first time.
  have either : j = g.interface → (r.2.Counts (g.removed j) (g.retained j ++ [g.block]) ↔
      r.2.Counts (g.removed j) (g.retained j)) := by
    rintro rfl
    obtain ⟨y, member, before⟩ := early rfl
    have first : IsFirst? r.2.first (g.retained g.interface ++ [g.block]) ↔
        IsFirst? r.2.first (g.retained g.interface) := isFirst?_append member before
    exact ⟨fun counts => ⟨counts.flows, counts.traffic, first.1 counts.first⟩,
      fun counts => ⟨counts.flows, counts.traffic, first.2 counts.first⟩⟩
  have counts : r.2.Counts (g.removed j) (g.retained j) := by
    rcases reports.counts with plain | ⟨here, met⟩
    · exact plain
    · exact (either here).1 met
  cases met with
  | false =>
    rw [if_neg (by simp), List.append_nil] at agrees ⊢
    exact counts.agrees agrees
  | true =>
    rw [if_pos rfl] at agrees ⊢
    exact ((either (own rfl)).2 counts).agrees agrees

end Meeting

namespace Moment

variable {a : Archive} {g : a.Meeting} {s : Moment g} {token : LockToken} {gone : Location → Prop}

/-- Taking what was reported from a summary counts what the cleaner did. -/
theorem counts_reconcile {names : List String} {rs : List (String × Sweep)} (distinct : names.Nodup)
    (all : ∀ j, j ∈ names ↔ g.before.at? (g.place ++ [j]) = some .directory)
    (reports : List.Forall₂ g.Reports names rs) :
    Counts g .cleaner fun
      | none => .error (.absent .summaryToUpdate)
      | some s => .ok ((⟨rs⟩ : SweepReport).reconcile s) := by
  intro s new untold changed j early
  have agrees := s.agrees j early
  rw [entryAt] at agrees
  cases stored : s.disk.summaryAt g.place with
  | none => rw [stored] at changed; cases changed
  | some old =>
    rw [stored] at changed agrees
    cases changed
    have told : Function.update s.told .cleaner true .writer = s.told .writer :=
      Function.update_of_ne (by decide) true s.told
    rw [Meeting.counted, told, Function.update_self (β := fun _ => Bool) .cleaner true s.told, if_pos rfl]
    rw [Meeting.counted, untold, if_neg (by simp), Option.getD_some] at agrees
    rcases get?_reconcile (fun _ _ reports => reports.name) distinct reports old j with
      ⟨absent, same⟩ | ⟨r, -, report, same⟩
    · -- An interface that was not swept had nothing, as all that there were before have been swept.
      have empty : g.before.partitionNames g.place j = [] := by
        refine List.eq_nil_iff_forall_not_mem.2 fun n member => absent ((all j).2 ?_)
        exact g.consistent.tree.parent (by rw [(Disk.mem_partitionNames.1 member).1]; simp)
      rw [same]
      simpa [Meeting.removed, Meeting.retained, empty] using agrees
    · rw [same]
      have told := report.agrees (old.get? j) early (decide (s.told .writer = true ∧ j = g.interface))
        fun told => (of_decide_eq_true told).2
      simp only [decide_eq_true_eq] at told
      exact told agrees

theorem keeps_checkExists (lost : s.Lost gone) :
    a.checkExists.Keeps (terms g .cleaner) (Action.Success fun _ s => s.Lost gone) s := by
  unfold checkExists
  split
  · exact Action.keeps_fail _
  · refine Action.Keeps.bind (P := fun _ s => s.Lost gone) ?_ fun found t lost => ?_
    · exact Action.keeps_looking (Action.looks_kind _) (stable_lost gone) lost
    · cases found with
      | none => exact Action.keeps_fail _
      | some k =>
        cases k with
        | directory => exact Action.keeps_pure (stable_lost gone) lost
        | file => exact Action.keeps_fail _

/-- The interfaces that a cleaning finds are those that were there before. -/
theorem keeps_interfaceNames (lost : s.Lost fun _ => False) :
    a.interfaceNames.Keeps (terms g .cleaner) (Action.Success fun names s => s.Lost (fun _ => False) ∧
      names.Nodup ∧ ∀ j, j ∈ names ↔ g.before.at? (g.place ++ [j]) = some .directory) s := by
  refine Action.keeps_of_looks (Action.looks_map (Action.looks_ask fun _ => rfl) _) (stable_lost _)
    (Action.stable_success fun _ => stable_lost_and _ _) lost fun u lost names came => ?_
  obtain ⟨-, -, sorted⟩ := interfaceNames_ok (e := (a.interfaceNames.runOn u.disk).2) u.leads (Prod.ext came rfl)
  refine ⟨lost, ?_, fun j => ?_⟩
  · rw [sorted, (List.mergeSort_perm _ _).nodup_iff]
    exact nodup_directoryNames _ _
  · rw [sorted, List.mem_mergeSort, mem_directoryNames]
    exact lost.interface_iff id

/-- A cleaning that succeeds beside a write has taken away all that is stale, and has told the summary. -/
theorem keeps_clean {now cutoff : Timestamp} (day : cutoff.startOfDay = g.day) (lost : s.Lost fun _ => False) :
    (a.clean token now cutoff).Keeps (terms g .cleaner)
      (Action.Success fun _ s => Clears s ∧ s.told .cleaner = true) s := by
  unfold clean
  split
  · refine (keeps_checkExists lost).bind fun _ t lost => ?_
    refine (keeps_interfaceNames lost).bind fun names t found => ?_
    obtain ⟨lost, distinct, all⟩ := found
    rw [day]
    refine (keeps_sweepInterfaces distinct lost (fun _ _ _ => id) fun j => (all j).1).bind fun rs t swept => ?_
    obtain ⟨lost, reports⟩ := swept
    have clears : Clears t := by
      rintro m ⟨j, swept⟩
      exact lost.away m ⟨j, swept⟩ (.inr ⟨j, (all j).2 (swept.directory g.consistent.tree), swept⟩)
    refine (keeps_modify (ofOwn_clears g) (counts_reconcile distinct all reports) lost.untold clears).bind
      fun _ t done => ?_
    exact Action.keeps_pure (Terms.stable_and (ofOwn_clears g).stable (stable_told true)) done
  · exact Action.keeps_fail _

end Moment

end FlowArchive.Archive
