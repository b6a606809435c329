import FlowArchive.Proofs.ConditionMeaning
import FlowArchive.Proofs.Ranking
import FlowArchive.Proofs.Reading
import FlowArchive.Proofs.Tally
import FlowArchive.Query.Run

/-!
# What the answer to a query is

The answer is stated without scans and mergers: the sightings in the blocks of the range that satisfy the
condition as it is written are grouped by key, and each group has the sum of its counters. A query comes to this
answer if every block can be read, and fails with the failure of a block if one cannot.
-/

namespace FlowArchive

/-! ## Sightings -/

/-- A flow that was seen on an interface, in the block of a time. -/
structure Sighting where
  interface : String
  time : Timestamp
  flow : Flow

namespace Sighting

def key (g : Grouping) (s : Sighting) : Key := g.keyOf s.interface s.time s.flow

/-- What a sighting adds to the group of its key. -/
def entry (g : Grouping) (s : Sighting) : Key × Counters := (s.key g, s.flow.counters)

/-- The sightings of the flows of a block. -/
def ofBlock (b : BlockRef) (fs : List Flow) : List Sighting :=
  fs.map fun f => ⟨b.interface, b.descriptor.time, f⟩

/-- The counters of all sightings, added up. -/
def total (found : List Sighting) : Counters := Counters.sum (found.map (·.flow.counters))

/-- The different keys of sightings. -/
def keys (g : Grouping) (found : List Sighting) : List Key := (found.map (key g)).dedup

/-- The sightings of a key. -/
def ofKey (g : Grouping) (k : Key) (found : List Sighting) : List Sighting := found.filter fun s => s.key g = k

/-- Each key with the counters of its sightings. -/
def groups (g : Grouping) (found : List Sighting) : List (Key × Counters) :=
  (keys g found).map fun k => (k, total (ofKey g k found))

end Sighting

namespace Query

/-- A flow satisfies the condition of a query as it is written. A blank one asks for nothing. -/
def Selects (q : Query) (hosts : Resolver) (f : Flow) : Prop :=
  ∀ c, Condition.ofText q.condition = .ok (some c) → c.Holds hosts f

open scoped Classical in
/-- The sightings in blocks on a disk that a query selects. -/
noncomputable def found (q : Query) (hosts : Resolver) (d : Disk) (bs : List BlockRef) : List Sighting :=
  bs.flatMap fun b => (Sighting.ofBlock b ((d.flowsOf b).toOption.getD [])).filter fun s => q.Selects hosts s.flow

/-- What the answer of a query that found some sightings has to be. -/
structure IsAnswer (q : Query) (found : List Sighting) (blocks : Nat) (r : QueryResult) : Prop where
  columns : r.columns = q.grouping.columns
  scanned : r.blocksScanned = blocks
  status : r.status = .empty ↔ found = []
  hits : r.hits = (Sighting.keys q.grouping found).length
  totals : r.totals = Sighting.total found
  /-- The rows are the groups as they are ranked, in whatever order the groups are taken. -/
  rows : ∀ l, l.Perm (Sighting.groups q.grouping found) → r.rows = q.ranking.apply q.grouping.hasTime l
  counters : ∀ row ∈ r.rows, row.counters = Sighting.total (Sighting.ofKey q.grouping row.key found)
  distinct : (r.rows.map Row.key).Nodup

/-- How long a query took does not matter. -/
theorem IsAnswer.timed {q : Query} {found : List Sighting} {blocks : Nat} {r : QueryResult}
    (right : q.IsAnswer found blocks r) (ms : Float) : q.IsAnswer found blocks { r with milliseconds := ms } :=
  ⟨right.columns, right.scanned, right.status, right.hits, right.totals, right.rows, right.counters, right.distinct⟩

end Query

/-! ## Tallies of sightings -/

namespace Sighting

variable {g : Grouping} {found : List Sighting} {t : Tally}

theorem map_fst_entry (g : Grouping) (found : List Sighting) :
    (found.map (entry g)).map (·.1) = found.map (key g) := by
  simp [entry, Function.comp_def]

theorem sumOf_entries (g : Grouping) (k : Key) (found : List Sighting) :
    Tally.sumOf k (found.map (entry g)) = total (ofKey g k found) := by
  rw [Tally.sumOf, List.filter_map, List.map_map]
  rfl

theorem nodup_groups (g : Grouping) (found : List Sighting) : ((groups g found).map (·.1)).Nodup := by
  have listed : (groups g found).map (·.1) = keys g found := by simp [groups, Function.comp_def]
  rw [listed]
  exact List.nodup_dedup _

/-- The entries of a tally of sightings are their groups. -/
theorem entries_perm_groups (sums : t.Sums (found.map (entry g))) : t.entries.Perm (groups g found) := by
  have once : t.entries.Nodup := .of_map _ (Table.nodup_keys t)
  refine (List.perm_ext_iff_of_nodup once (.of_map _ (nodup_groups g found))).2 fun e => ?_
  obtain ⟨k, c⟩ := e
  rw [Table.mem_entries_iff, sums k, map_fst_entry, sumOf_entries]
  by_cases present : k ∈ found.map (key g)
  · have listed : k ∈ keys g found := List.mem_dedup.2 present
    rw [if_pos present, groups]
    simp [listed, eq_comm]
  · have absent : k ∉ keys g found := fun listed => present (List.mem_dedup.1 listed)
    rw [if_neg present, groups]
    simp only [List.mem_map, Prod.mk.injEq, reduceCtorEq, false_iff]
    rintro ⟨k', listed, rfl, -⟩
    exact absent listed

end Sighting

namespace Archive

variable {hosts : Resolver} {q : Query} {found : List Sighting}

/-- What is made of an aggregate of sightings is the answer. -/
theorem answer_isAnswer {m : Merger} (unnamed : q.naming = none) (some_ : found ≠ []) (blocks : Nat)
    (holds : m.Holds (found.map (Sighting.entry q.grouping))) :
    q.IsAnswer found blocks (answer q hosts blocks m.aggregate) := by
  have same := Sighting.entries_perm_groups holds.tally
  have distinct : (m.aggregate.tally.entries.map (·.1)).Nodup := Table.nodup_keys _
  have rows : (answer q hosts blocks m.aggregate).rows =
      q.ranking.apply q.grouping.hasTime m.aggregate.tally.entries := by simp [answer, unnamed]
  constructor
  case columns => rfl
  case scanned => rfl
  case status => simp [answer, some_]
  case hits =>
    refine Table.size_eq_of_keys fun k => ?_
    rw [holds.tally k, Sighting.map_fst_entry]
    split <;> simp_all
  case totals =>
    have same := holds.totals
    rw [List.map_map] at same
    exact same
  case rows =>
    intro l taken
    rw [rows]
    exact Ranking.apply_congr distinct (same.trans taken.symm)
  case counters =>
    intro row kept
    rw [rows] at kept
    obtain ⟨e, listed, rfl⟩ := Ranking.mem_apply kept
    obtain ⟨k, -, rfl⟩ := List.mem_map.1 (same.mem_iff.1 listed)
    rfl
  case distinct =>
    rw [rows]
    exact Ranking.nodup_apply distinct

theorem none_isAnswer (q : Query) (blocks : Nat) :
    q.IsAnswer [] blocks (.none q.grouping.columns blocks) := by
  have nothing : ∀ l : List (Key × Counters), l.Perm (Sighting.groups q.grouping []) →
      q.ranking.apply q.grouping.hasTime l = [] := by
    intro l taken
    refine List.eq_nil_iff_forall_not_mem.2 fun row kept => ?_
    obtain ⟨e, listed, -⟩ := Ranking.mem_apply kept
    simpa [Sighting.groups, Sighting.keys] using taken.mem_iff.1 listed
  constructor <;> simp_all [QueryResult.none, Sighting.keys, Sighting.total]

/-! ## Running a query -/

theorem runOn_scan (p : Predicate) (g : Grouping) (b : BlockRef) (d : Disk) : (scan p g b).runOn d =
    ((d.flowsOf b).map fun fs => Tally.ofFlows g b.interface b.descriptor.time (fs.filter p.admits), d) := by
  unfold scan
  rw [Action.runOn_bind, runOn_readBlock]
  cases d.flowsOf b <;> rfl

/-- What a disk's block comes to when it is scanned. -/
def outcomeAt (d : Disk) (p : Predicate) (g : Grouping) (b : BlockRef) : Pipeline.Outcome :=
  Pipeline.outcomeOf
    ((d.flowsOf b).map fun fs => Tally.ofFlows g b.interface b.descriptor.time (fs.filter p.admits))

theorem runOn_scanAll (p : Predicate) (g : Grouping) (bs : List BlockRef) (d : Disk) :
    (scanAll p g bs).runOn d = (.ok (bs.map (outcomeAt d p g)), d) := by
  refine Action.runOn_forEach fun b _ => ?_
  rw [Action.runOn_bind, Action.runOn_attempt, runOn_scan]
  rfl

theorem outcomeAt_ok {d : Disk} {p : Predicate} {g : Grouping} {b : BlockRef} {fs : List Flow}
    (decoded : d.flowsOf b = .ok fs) : outcomeAt d p g b =
      .ok (.ofList ((Sighting.ofBlock b (fs.filter p.admits)).map (Sighting.entry g))) := by
  have pairs : (Sighting.ofBlock b (fs.filter p.admits)).map (Sighting.entry g) =
      (fs.filter p.admits).map fun f => (g.keyOf b.interface b.descriptor.time f, f.counters) := by
    rw [Sighting.ofBlock, List.map_map]
    rfl
  rw [outcomeAt, decoded, pairs]
  rfl

/-- A compiled condition admits the flows that a query selects. -/
theorem selects_iff {p : Predicate} (compiled : Predicate.ofText hosts q.condition = .ok p) (f : Flow) :
    q.Selects hosts f ↔ p.admits f = true := by
  unfold Predicate.ofText at compiled
  unfold Query.Selects
  cases read : Condition.ofText q.condition with
  | error flaw => simp [read] at compiled
  | ok blank =>
    cases blank with
    | none =>
      rw [read] at compiled
      cases compiled
      simp [Predicate.admits]
    | some c =>
      rw [read] at compiled
      rw [Predicate.admits_ofCondition compiled]
      simp

theorem found_eq {p : Predicate} (compiled : Predicate.ofText hosts q.condition = .ok p) (d : Disk)
    (bs : List BlockRef) : q.found hosts d bs = bs.flatMap fun b =>
      (Sighting.ofBlock b ((d.flowsOf b).toOption.getD [])).filter fun s => p.admits s.flow := by
  unfold Query.found
  congr 1
  funext b
  refine List.filter_congr fun s _ => ?_
  simp only [selects_iff compiled, Bool.decide_eq_true]

/-- Blocks that can all be read come to the tallies of the sightings that a query selects. -/
theorem outcomes_eq {p : Predicate} {d : Disk} {bs : List BlockRef}
    (compiled : Predicate.ofText hosts q.condition = .ok p) (decoded : ∀ b ∈ bs, ∃ fs, d.flowsOf b = .ok fs) :
    ∃ blocks : List (List (Key × Counters)), blocks.flatten = (q.found hosts d bs).map (Sighting.entry q.grouping) ∧
      bs.map (outcomeAt d p q.grouping) = blocks.map fun block => .ok (.ofList block) := by
  refine ⟨bs.map fun b => ((Sighting.ofBlock b ((d.flowsOf b).toOption.getD [])).filter fun s =>
    p.admits s.flow).map (Sighting.entry q.grouping), ?_, ?_⟩
  · rw [found_eq compiled, List.map_flatMap, List.flatMap]
  · rw [List.map_map]
    refine List.map_congr_left fun b member => ?_
    obtain ⟨fs, ok⟩ := decoded b member
    rw [outcomeAt_ok ok, Function.comp_apply, ok, Sighting.ofBlock, Sighting.ofBlock, List.filter_map]
    rfl

/-- What follows the scans of a query. -/
def conclude (q : Query) (hosts : Resolver) (blocks : Nat) (collected : Except Failure Aggregate) :
    Except Failure QueryResult :=
  match collected with
  | .ok aggregate => .ok { answer q hosts blocks aggregate with milliseconds := elapsed 0 0 }
  | .error .noFlows => .ok { QueryResult.none q.grouping.columns blocks with milliseconds := elapsed 0 0 }
  | .error f => .error f

/-- A query whose arguments are fine scans the blocks in its range. -/
theorem runOn_query {a : Archive} {d : Disk} {p : Predicate} {bs : List BlockRef}
    (present : (a.checkExists.runOn d).1 = .ok ()) (valid : q.validate = .ok ())
    (compiled : Predicate.ofText hosts q.condition = .ok p)
    (selected : ((a.blocksInRange q.interfaces q.range).runOn d).1 = .ok bs) :
    (a.query hosts q).runOn d =
      (conclude q hosts bs.length (Pipeline.collect (bs.map (outcomeAt d p q.grouping))), d) := by
  have clock : (Action.ask .clock).runOn d = (.ok (0 : Nat), d) := rfl
  have here := (reads_checkExists a).runOn_eq d
  have listed := (reads_blocksInRange a q.interfaces q.range).runOn_eq d
  rw [present] at here
  rw [selected] at listed
  have checked : (Action.ofExcept (q.validate.mapError Failure.refused)).runOn d = (.ok (), d) := by
    rw [valid]
    rfl
  have read : (Action.ofExcept (Predicate.ofText hosts q.condition)).runOn d = (.ok p, d) := by
    rw [compiled]
    rfl
  unfold query
  rw [Action.runOn_bind_of_ok clock, Action.runOn_bind_of_ok here, Action.runOn_bind_of_ok checked,
    Action.runOn_bind_of_ok read, Action.runOn_bind_of_ok listed,
    Action.runOn_bind_of_ok (runOn_scanAll p q.grouping bs d)]
  cases Pipeline.collect (bs.map (outcomeAt d p q.grouping)) with
  | ok aggregate => rfl
  | error f => cases f <;> rfl

/-- A query fails for one of the blocks in its range that cannot be read, if there are any. -/
theorem query_of_unreadable {a : Archive} {d : Disk} {p : Predicate} {bs : List BlockRef}
    (present : (a.checkExists.runOn d).1 = .ok ()) (valid : q.validate = .ok ())
    (compiled : Predicate.ofText hosts q.condition = .ok p)
    (selected : ((a.blocksInRange q.interfaces q.range).runOn d).1 = .ok bs)
    (unreadable : ∃ b ∈ bs, ∃ f, d.flowsOf b = .error f) :
    ∃ b ∈ bs, ∃ f, d.flowsOf b = .error f ∧ (a.query hosts q).runOn d = (.error (.scan f.message), d) := by
  obtain ⟨b, member, f, failed⟩ := unreadable
  have fails : ∃ text, .error text ∈ bs.map (outcomeAt d p q.grouping) :=
    ⟨f.message, List.mem_map.2 ⟨b, member, by rw [outcomeAt, failed]; rfl⟩⟩
  obtain ⟨text, first, collected⟩ := Pipeline.collectFrom_error .start fails
  obtain ⟨b, member, same⟩ := List.mem_map.1 first
  cases flows : d.flowsOf b with
  | ok fs => rw [outcomeAt_ok flows] at same; cases same
  | error f =>
    rw [outcomeAt, flows] at same
    cases same
    refine ⟨b, member, f, flows, ?_⟩
    rw [runOn_query present valid compiled selected, Pipeline.collect, collected]
    rfl

/-- A query comes to the answer that its sightings determine if every block in its range can be read, and to the
failure of a block if one cannot. -/
theorem query_answers {a : Archive} {d : Disk} {p : Predicate} {bs : List BlockRef}
    (present : (a.checkExists.runOn d).1 = .ok ()) (unnamed : q.naming = none) (valid : q.validate = .ok ())
    (compiled : Predicate.ofText hosts q.condition = .ok p)
    (selected : ((a.blocksInRange q.interfaces q.range).runOn d).1 = .ok bs) :
    ((∀ b ∈ bs, ∃ fs, d.flowsOf b = .ok fs) → ∃ r, (a.query hosts q).runOn d = (.ok r, d) ∧
      q.IsAnswer (q.found hosts d bs) bs.length r) ∧
    ((∃ b ∈ bs, ∃ f, d.flowsOf b = .error f) → ∃ b ∈ bs, ∃ f, d.flowsOf b = .error f ∧
      (a.query hosts q).runOn d = (.error (.scan f.message), d)) := by
  refine ⟨fun decoded => ?_, query_of_unreadable present valid compiled selected⟩
  rw [runOn_query present valid compiled selected]
  obtain ⟨blocks, pairs, outcomes⟩ := outcomes_eq compiled decoded
  obtain ⟨m, holds, collected⟩ := Pipeline.collectFrom_ok Merger.start_holds blocks
  rw [List.nil_append, pairs] at holds
  rw [outcomes, Pipeline.collect, collected, Merger.finish]
  cases nothing : m.aggregate.tally.isEmpty with
  | true =>
    have none_ : q.found hosts d bs = [] := List.map_eq_nil_iff.1 (holds.isEmpty_iff.1 nothing)
    refine ⟨_, rfl, ?_⟩
    rw [none_]
    exact (none_isAnswer q bs.length).timed _
  | false =>
    have some_ : q.found hosts d bs ≠ [] := by
      intro none_
      rw [holds.isEmpty_iff.2 (by rw [none_]; rfl)] at nothing
      cases nothing
    exact ⟨_, rfl, (answer_isAnswer unnamed some_ bs.length holds).timed _⟩

/-! ### An archive with one block -/

def sampleFlows : List Flow :=
  [⟨.v4 1, .v4 2, 80, 6, ⟨1, 2, 3, 4⟩⟩, ⟨.v4 1, .v4 2, 443, 6, ⟨5, 6, 7, 8⟩⟩]

def sampleDisk : Disk :=
  ⟨[], .ofList [(["db"], .directory), (["db", "eth0"], .directory), (["db", "eth0", "0"], .directory),
    (["db", "eth0", "0", "meta.bin"], .file
      [28, 0, 0, 0, 5, 0, 0, 0, 0, 0, 0, 0, 2, 0, 0, 0, 0, 0, 0, 0, 22, 0, 0, 0, 0, 0, 0, 0, 151, 44, 150, 118]),
    (["db", "eth0", "0", "5.blk"], .file
      [1, 2, 0, 0, 0, 61, 0, 0, 0, 110, 0, 0, 0, 58, 45, 181, 142, 110, 0, 0, 0, 41, 2, 0, 1, 0, 19, 1, 14, 0, 69,
        2, 80, 0, 6, 12, 0, 3, 20, 0, 19, 3, 8, 0, 19, 4, 8, 0, 3, 2, 0, 5, 39, 0, 67, 187, 1, 6, 5, 20, 0, 19, 6,
        8, 0, 19, 7, 8, 0, 128, 8, 0, 0, 0, 0, 0, 0, 0])]⟩

def sample : Archive := ⟨.ofText "db", .ofSeconds 1⟩

def sampleBlock : BlockRef := ⟨"eth0", ⟨["db", "eth0", "0"]⟩, ⟨5, 2, 22⟩⟩

/-- The query for the sources of flows to one of the ports. -/
def sampleQuery : Query := { Query.all .any ⟨[.source], by decide, by decide⟩ with condition := "dport=80" }

theorem query_answers_sample :
    ∃ r, (sample.query (.ofHosts []) sampleQuery).runOn sampleDisk = (.ok r, sampleDisk) ∧
      sampleQuery.IsAnswer (sampleQuery.found (.ofHosts []) sampleDisk [sampleBlock]) 1 r := by
  have present : (sample.checkExists.runOn sampleDisk).1 = .ok () := Action.toOption_eq_some.1 (by decide +kernel)
  have compiled : Predicate.ofText (.ofHosts []) sampleQuery.condition = .ok (.test (.port .eq 80)) :=
    Action.toOption_eq_some.1 (by decide +kernel)
  have selected : ((sample.blocksInRange sampleQuery.interfaces sampleQuery.range).runOn sampleDisk).1 =
      .ok [sampleBlock] := Action.toOption_eq_some.1 (by decide +kernel)
  have decoded : sampleDisk.flowsOf sampleBlock = .ok sampleFlows := Action.toOption_eq_some.1 (by decide +kernel)
  exact (query_answers present rfl rfl compiled selected).1 (List.forall_mem_singleton.2 ⟨_, decoded⟩)

end Archive

end FlowArchive
