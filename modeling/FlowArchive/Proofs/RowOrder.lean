import FlowArchive.Proofs.CoverageCut
import FlowArchive.Proofs.Table

/-!
# All rows in order, and what is kept of them

A ranking puts the rows of a tally into exactly one order, whatever order its entries are given in, because rows of
different keys are never tied. What it keeps is an end of the rows in that order: all of them in results by time, the
first ones where a number is asked for, and otherwise the end where the largest rows stand.
-/

namespace FlowArchive.Ranking

variable {r : Ranking} {timeGrouped : Bool} {l : List (Key × Counters)} {rows kept : List Row} {x y : Row}

/-- Whether a row stands before another among all rows. Results by time are in the order of their keys, the oldest first.
Otherwise rows are ordered by keys or by traffic, either way; of rows with the same traffic the lesser key is first. -/
def StandsBefore (r : Ranking) (timeGrouped : Bool) (x y : Row) : Prop :=
  if timeGrouped then compare x.key y.key = .lt
  else if r.sortKey = .time then
    if r.ascending then compare x.key y.key = .lt else compare y.key x.key = .lt
  else (if r.ascending then r.traffic x < r.traffic y else r.traffic y < r.traffic x) ∨
    r.traffic x = r.traffic y ∧ compare x.key y.key = .lt

/-- All rows of some entries, each of which stands before the later ones. -/
structure IsOrdered (r : Ranking) (timeGrouped : Bool) (l : List (Key × Counters)) (rows : List Row) : Prop where
  all : rows.Perm (l.map Row.ofEntry)
  ordered : rows.Pairwise (r.StandsBefore timeGrouped)

/-- What is kept of all rows in order. -/
structure Keeps (r : Ranking) (timeGrouped : Bool) (rows kept : List Row) : Prop where
  /-- Results by time are kept as a whole, whatever the limit, the oldest first. -/
  timed : timeGrouped = true → kept = rows ∧
    kept.Pairwise fun x y => ∀ t u, x.key.time = some t → y.key.time = some u → t ≤ u
  limited : timeGrouped = false → ∀ n, r.limit = some n → kept = rows.take (min n rows.length)
  byTime : timeGrouped = false → r.limit = none → r.sortKey = .time → kept = rows
  /-- By traffic one end is kept, and no row is cut off that has more traffic than one that is kept. -/
  byTraffic : timeGrouped = false → r.limit = none → r.sortKey ≠ .time →
    (if r.ascending then kept <:+ rows else kept <+: rows) ∧ (rows ≠ [] → kept ≠ []) ∧
      ∀ x ∈ kept, ∀ y ∈ rows, y ∉ kept → r.traffic y ≤ r.traffic x

/-! ## One order -/

theorem standsBefore_iff : r.StandsBefore timeGrouped x y ↔ r.order timeGrouped x y = .lt := by
  have tied : r.traffic y = r.traffic x ↔ r.traffic x = r.traffic y := eq_comm
  cases timeGrouped with
  | true => simp [StandsBefore, order, isByKey, compareOn]
  | false =>
    by_cases byTime : r.sortKey = .time
    · cases direction : r.ascending <;> simp [StandsBefore, order, isByKey, compareOn, byTime, direction]
    · have byTraffic : r.order false x y = (r.trafficOrder x y).then (compareOn Row.key x y) := by
        simp [order, isByKey, byTime, metricOrder_eq, compareLex]
      rw [byTraffic, Ordering.then_eq_lt]
      cases direction : r.ascending <;>
        simp [StandsBefore, trafficOrder, compareOn, byTime, direction, ← traffic.eq_1, tied, Std.compare_eq_lt,
          Std.LawfulEqCmp.compare_eq_iff_eq]

/-- Of two rows with different keys, one stands before the other. -/
theorem standsBefore_of_le (before : r.le timeGrouped x y = true) (apart : x.key ≠ y.key) :
    r.StandsBefore timeGrouped x y := by
  rw [standsBefore_iff]
  rw [le_eq] at before
  cases place : r.order timeGrouped x y with
  | lt => rfl
  | eq => exact absurd (key_eq_of_order place) apart
  | gt => simp [place] at before

theorem StandsBefore.asymm (first : r.StandsBefore timeGrouped x y) : ¬ r.StandsBefore timeGrouped y x := by
  rw [standsBefore_iff] at first ⊢
  have turned : r.order timeGrouped y x = (r.order timeGrouped x y).swap := Std.OrientedCmp.eq_swap
  simp [turned, first]

theorem sorted_isOrdered (distinct : (l.map (·.1)).Nodup) :
    r.IsOrdered timeGrouped l (r.sorted timeGrouped l) := by
  refine ⟨sorted_perm_map r timeGrouped l, ?_⟩
  have keys : (r.sorted timeGrouped l).Pairwise fun x y => x.key ≠ y.key := by
    refine List.pairwise_map.1 (((sorted_perm_map r timeGrouped l).map Row.key).nodup_iff.2 ?_)
    rwa [List.map_map]
  have before : (r.sorted timeGrouped l).Pairwise fun x y => r.le timeGrouped x y :=
    List.pairwise_mergeSort le_trans le_total _
  exact before.imp₂ (fun _ _ => standsBefore_of_le) keys

/-- Rows in order are determined by the entries. -/
theorem IsOrdered.unique {others : List Row} (first : r.IsOrdered timeGrouped l rows)
    (second : r.IsOrdered timeGrouped l others) : others = rows :=
  (second.all.trans first.all.symm).eq_of_pairwise (fun _ _ _ _ before behind => absurd behind before.asymm)
    second.ordered first.ordered

theorem isOrdered_iff (distinct : (l.map (·.1)).Nodup) :
    r.IsOrdered timeGrouped l rows ↔ rows = r.sorted timeGrouped l := by
  constructor
  · exact (sorted_isOrdered distinct).unique
  · rintro rfl
    exact sorted_isOrdered distinct

/-! ## What is kept -/

/-- Time decides first between keys. -/
theorem time_le_of_compare {j k : Key} {t u : Timestamp} (before : compare j k = .lt) (own : j.time = some t)
    (other : k.time = some u) : t ≤ u := by
  have first : (compare j.time k.time).isLE := by
    have lexical : Key.order j k = .lt := before
    rw [Key.order, compareLex, Ordering.then_eq_lt] at lexical
    show (compareOn Key.time j k).isLE
    rcases lexical with less | ⟨same, -⟩
    · rw [less]
      rfl
    · rw [same]
      rfl
  rw [own, other] at first
  exact Std.isLE_compare.1 first

theorem StandsBefore.traffic_le (byTraffic : r.sortKey ≠ .time) (before : r.StandsBefore false x y) :
    if r.ascending then r.traffic x ≤ r.traffic y else r.traffic y ≤ r.traffic x := by
  rw [StandsBefore, if_neg (by simp), if_neg byTraffic] at before
  cases direction : r.ascending with
  | true =>
    rw [direction] at before
    rcases before with less | ⟨same, -⟩
    · exact UInt64.le_of_lt less
    · exact UInt64.le_of_eq same
  | false =>
    rw [direction] at before
    rcases before with less | ⟨same, -⟩
    · exact UInt64.le_of_lt less
    · exact UInt64.le_of_eq same.symm

theorem coverLength_ne_zero (filled : rows ≠ []) : r.coverLength rows ≠ 0 := by
  obtain ⟨row, rest, rfl⟩ := List.exists_cons_of_ne_nil filled
  simp only [coverLength, List.map_cons, shortestCover]
  split
  · simp
  · split <;> simp

theorem cover_ne_nil (filled : rows ≠ []) : r.cover rows ≠ [] := by
  unfold cover
  split
  · have turned : rows.reverse ≠ [] := by simpa using filled
    simp [List.take_eq_nil_iff, coverLength_ne_zero turned, filled]
  · simp [List.take_eq_nil_iff, coverLength_ne_zero filled, filled]

/-- Where an end of the rows is cut off, the rest is what has more traffic. -/
theorem IsOrdered.traffic_le (byTraffic : r.sortKey ≠ .time) (ordered : r.IsOrdered false l rows)
    (ends : if r.ascending then kept <:+ rows else kept <+: rows) (inside : x ∈ kept) (listed : y ∈ rows)
    (cut : y ∉ kept) : r.traffic y ≤ r.traffic x := by
  have order := ordered.ordered.imp (StandsBefore.traffic_le byTraffic)
  cases direction : r.ascending with
  | true =>
    simp only [direction, if_true] at ends order
    obtain ⟨front, rfl⟩ := ends
    have gone := (List.mem_append.1 listed).resolve_right cut
    exact (List.pairwise_append.1 order).2.2 y gone x inside
  | false =>
    simp only [direction, Bool.false_eq_true, if_false] at ends order
    obtain ⟨rest, rfl⟩ := ends
    have gone := (List.mem_append.1 listed).resolve_left cut
    exact (List.pairwise_append.1 order).2.2 x inside y gone

theorem apply_keeps (distinct : (l.map (·.1)).Nodup) :
    r.Keeps timeGrouped (r.sorted timeGrouped l) (r.apply timeGrouped l) := by
  have ordered : r.IsOrdered timeGrouped l (r.sorted timeGrouped l) := sorted_isOrdered distinct
  constructor
  case timed =>
    rintro rfl
    have whole : r.apply true l = r.sorted true l := rfl
    refine ⟨whole, whole ▸ ordered.ordered.imp fun {x y} before t u => time_le_of_compare ?_⟩
    simpa [StandsBefore] using before
  case limited =>
    rintro rfl n limit
    simp [apply, limit, List.take_eq_take_min]
  case byTime =>
    rintro rfl unlimited byTime
    simp [apply, unlimited, isByKey, byTime]
  case byTraffic =>
    rintro rfl unlimited byTraffic
    rw [apply_eq_cover unlimited byTraffic]
    exact ⟨cover_isEnd r _, cover_ne_nil, fun x inside y => ordered.traffic_le byTraffic (cover_isEnd r _) inside⟩

/-- What is kept depends on the entries of a tally alone, not on the order in which they are given. Its rows are distinct
entries with their own counters and no names. There is one order of all rows, and what is kept is an end of it. -/
theorem keeps_end_of_order {t : Tally} (listed : l.Perm t.entries) :
    r.apply timeGrouped l = r.apply timeGrouped t.entries ∧
      ((r.apply timeGrouped l).map Row.key).Nodup ∧
      (∀ row ∈ r.apply timeGrouped l, t.get? row.key = some row.counters ∧ row.sourceName = none ∧
        row.destinationName = none) ∧
      ∃ rows, (∀ others, r.IsOrdered timeGrouped t.entries others ↔ others = rows) ∧
        r.Keeps timeGrouped rows (r.apply timeGrouped l) := by
  have distinct : (t.entries.map (·.1)).Nodup := Table.nodup_keys t
  have distinct' : (l.map (·.1)).Nodup := (listed.map _).nodup_iff.2 distinct
  refine ⟨apply_congr distinct' listed, nodup_apply distinct', fun row kept => ?_, ?_⟩
  · obtain ⟨e, member, rfl⟩ := mem_apply kept
    exact ⟨Table.mem_entries_iff.1 (listed.mem_iff.1 member), rfl, rfl⟩
  · refine ⟨r.sorted timeGrouped t.entries, fun others => isOrdered_iff distinct, ?_⟩
    rw [apply_congr distinct' listed]
    exact apply_keeps distinct

def tiedTally : Tally := ⟨tiedEntries, by decide⟩

theorem keeps_end_of_order_tied :
    let ranking := halfOfBytes.directed true
    let kept := ranking.apply false tiedEntries.reverse
    tiedEntries.reverse.Perm tiedTally.entries ∧ kept = ranking.apply false tiedTally.entries ∧
      (kept.map Row.key).Nodup ∧
      (∀ row ∈ kept, tiedTally.get? row.key = some row.counters ∧ row.sourceName = none ∧ row.destinationName = none) ∧
      ∃ rows, (∀ others, ranking.IsOrdered false tiedTally.entries others ↔ others = rows) ∧
        ranking.Keeps false rows kept :=
  ⟨List.reverse_perm _, keeps_end_of_order (List.reverse_perm _)⟩

end FlowArchive.Ranking
