import FlowArchive.Proofs.Ranking
import Mathlib.Data.List.Perm.Subperm

/-!
# The cut by coverage

Rows in either direction have the same traffic from the largest down, so that the cut by coverage keeps as many of them
with the same traffic. Which rows these are depends on the direction only where the cut falls between rows with the same
traffic: rows in descending order are cut behind the first keys, and rows in ascending order before the last ones.
-/

namespace FlowArchive.Ranking

variable {r : Ranking} {l : List (Key × Counters)} {rows kept : List Row} {x y : Row} {ascending : Bool}

/-- The traffic of a row that counts for its place. -/
def traffic (r : Ranking) (row : Row) : UInt64 := r.metric row.counters

/-- The ranking with its direction replaced. -/
def directed (r : Ranking) (ascending : Bool) : Ranking := { r with ascending := ascending }

/-- The rows of entries, from the largest down. -/
def fromLargest (r : Ranking) (ascending : Bool) (l : List (Key × Counters)) : List Row :=
  let rows := (r.directed ascending).sorted false l
  if ascending then rows.reverse else rows

/-- Whether a row stands before another from the largest down. Between rows with the same traffic the keys decide. -/
def Precedes (r : Ranking) (ascending : Bool) (x y : Row) : Prop :=
  r.traffic y < r.traffic x ∨ r.traffic y = r.traffic x ∧
    (if ascending then compare y.key x.key else compare x.key y.key).isLE

theorem metric_directed (r : Ranking) (ascending : Bool) : (r.directed ascending).metric = r.metric := by
  funext c
  simp only [metric, directed]

theorem coverLength_directed (r : Ranking) (ascending : Bool) :
    (r.directed ascending).coverLength = r.coverLength := by
  funext rows
  simp only [coverLength, metric_directed]
  rfl

theorem isByKey_directed (byTraffic : r.sortKey ≠ .time) (ascending : Bool) :
    (r.directed ascending).isByKey false = false := by
  simpa [isByKey, directed] using byTraffic

/-- Without a limit, the rows that are kept are the first ones from the largest down. -/
theorem apply_directed (byTraffic : r.sortKey ≠ .time) (unlimited : r.limit = none) (ascending : Bool)
    (l : List (Key × Counters)) :
    let front := (r.fromLargest ascending l).take (r.coverLength (r.fromLargest ascending l))
    (r.directed ascending).apply false l = if ascending then front.reverse else front := by
  have none_ : (r.directed ascending).limit = none := unlimited
  simp only [apply, none_, isByKey_directed byTraffic, cover, coverLength_directed, fromLargest]
  cases ascending <;> rfl

/-! ## The order from the largest down -/

theorem le_directed (byTraffic : r.sortKey ≠ .time) (x y : Row) : (r.directed ascending).le false x y =
    ((if ascending then compare (r.traffic x) (r.traffic y) else compare (r.traffic y) (r.traffic x)).then
      (compare x.key y.key)).isLE := by
  have turned : (compare (r.traffic x) (r.traffic y)).swap = compare (r.traffic y) (r.traffic x) :=
    Std.OrientedCmp.eq_swap.symm
  rw [← turned, le, isByKey_directed byTraffic, metricOrder, metric_directed]
  rfl

theorem precedes_iff (byTraffic : r.sortKey ≠ .time) : r.Precedes ascending x y ↔
    if ascending then (r.directed ascending).le false y x else (r.directed ascending).le false x y := by
  rw [le_directed byTraffic, le_directed byTraffic]
  cases ascending with
  | true => simp [Precedes, Ordering.isLE_then_iff_or, Std.compare_eq_lt, Std.LawfulEqCmp.compare_eq_iff_eq]
  | false => simp [Precedes, Ordering.isLE_then_iff_or, Std.compare_eq_lt, Std.LawfulEqCmp.compare_eq_iff_eq]

theorem pairwise_fromLargest (byTraffic : r.sortKey ≠ .time) (ascending : Bool) (l : List (Key × Counters)) :
    (r.fromLargest ascending l).Pairwise (r.Precedes ascending) := by
  have ordered : ((r.directed ascending).sorted false l).Pairwise (fun x y => (r.directed ascending).le false x y) :=
    List.pairwise_mergeSort le_trans le_total _
  cases ascending with
  | true =>
    refine List.pairwise_reverse.2 (ordered.imp fun before => ?_)
    exact (precedes_iff byTraffic).2 before
  | false => exact ordered.imp fun before => (precedes_iff byTraffic).2 before

theorem fromLargest_perm (r : Ranking) (ascending : Bool) (l : List (Key × Counters)) :
    (r.fromLargest ascending l).Perm (l.map Row.ofEntry) := by
  have all := sorted_perm_map (r.directed ascending) false l
  cases ascending with
  | true => exact (List.reverse_perm _).trans all
  | false => exact all

/-- From the largest down, the traffic is the same in either direction. -/
theorem map_traffic_fromLargest (byTraffic : r.sortKey ≠ .time) (l : List (Key × Counters)) :
    (r.fromLargest true l).map r.traffic = (r.fromLargest false l).map r.traffic := by
  have falling : ∀ ascending, ((r.fromLargest ascending l).map r.traffic).Pairwise (fun m n => n ≤ m) := by
    refine fun ascending => List.pairwise_map.2 ((pairwise_fromLargest byTraffic ascending l).imp fun before => ?_)
    rcases before with less | ⟨same, -⟩
    · exact UInt64.le_of_lt less
    · exact same ▸ UInt64.le_refl _
  have perm := ((r.fromLargest_perm true l).trans (r.fromLargest_perm false l).symm).map r.traffic
  exact perm.eq_of_pairwise (fun _ _ _ _ first second => UInt64.le_antisymm second first) (falling true) (falling false)

theorem coverLength_fromLargest (byTraffic : r.sortKey ≠ .time) (l : List (Key × Counters)) :
    r.coverLength (r.fromLargest true l) = r.coverLength (r.fromLargest false l) := by
  have same := map_traffic_fromLargest byTraffic l
  have counts : (r.fromLargest true l).map (fun row => (r.metric row.counters).toNat) =
      (r.fromLargest false l).map (fun row => (r.metric row.counters).toNat) := by
    simpa [Function.comp_def, traffic] using congrArg (List.map UInt64.toNat) same
  have lengths : (r.fromLargest true l).length = (r.fromLargest false l).length := by
    simpa using congrArg List.length same
  simp only [coverLength, counts, lengths]

/-! ## What a cut keeps -/

/-- Of some rows, every row is kept that precedes one that is kept. -/
def KeepsFirst (r : Ranking) (ascending : Bool) (rows kept : List Row) : Prop :=
  (∀ x ∈ kept, x ∈ rows) ∧ ∀ x ∈ kept, ∀ y ∈ rows, r.Precedes ascending y x → y ∈ kept

/-- A row is cut off that has the same traffic as one that is kept. -/
def SplitsTie (r : Ranking) (rows kept : List Row) : Prop :=
  ∃ x ∈ kept, ∃ y ∈ rows, y ∉ kept ∧ r.traffic y = r.traffic x

/-- Rows of different keys do not both precede each other. -/
theorem key_eq_of_precedes (byTraffic : r.sortKey ≠ .time) (first : r.Precedes ascending x y)
    (second : r.Precedes ascending y x) : x.key = y.key := by
  rw [precedes_iff byTraffic] at first second
  cases ascending with
  | true => exact key_eq_of_le second first
  | false => exact key_eq_of_le first second

theorem row_eq_of_key (distinct : (l.map (·.1)).Nodup) (first : x ∈ l.map Row.ofEntry) (second : y ∈ l.map Row.ofEntry)
    (keys : x.key = y.key) : x = y := by
  obtain ⟨e, listed, rfl⟩ := List.mem_map.1 first
  obtain ⟨e', listed', rfl⟩ := List.mem_map.1 second
  rw [List.inj_on_of_nodup_map distinct listed listed' keys]

/-- A cut of the rows from the largest down keeps the first ones. -/
theorem keepsFirst_take (byTraffic : r.sortKey ≠ .time) (distinct : (l.map (·.1)).Nodup) (n : Nat) :
    r.KeepsFirst ascending (l.map Row.ofEntry) ((r.fromLargest ascending l).take n) := by
  have all := r.fromLargest_perm ascending l
  refine ⟨fun x kept => all.mem_iff.1 (List.mem_of_mem_take kept), fun x kept y listed before => ?_⟩
  have parts := pairwise_fromLargest byTraffic ascending l
  rw [← List.take_append_drop n (r.fromLargest ascending l), List.pairwise_append] at parts
  have placed := all.mem_iff.2 listed
  rw [← List.take_append_drop n (r.fromLargest ascending l), List.mem_append] at placed
  rcases placed with inFront | behind
  · exact inFront
  · -- What is cut off is preceded by all that is kept.
    have keys := key_eq_of_precedes byTraffic (parts.2.2 x kept y behind) before
    rwa [← row_eq_of_key distinct (all.mem_iff.1 (List.mem_of_mem_take kept)) listed keys]

theorem keepsFirst_congr {kept' : List Row} (same : ∀ x, x ∈ kept' ↔ x ∈ kept)
    (keeps : r.KeepsFirst ascending rows kept) : r.KeepsFirst ascending rows kept' :=
  ⟨fun x inside => keeps.1 x ((same x).1 inside), fun x inside y listed before =>
    (same y).2 (keeps.2 x ((same x).1 inside) y listed before)⟩

/-- A row with the traffic of another precedes it in one direction or the other. -/
theorem precedes_of_tied (same : r.traffic y = r.traffic x) : r.Precedes true y x ∨ r.Precedes false y x := by
  cases keys : (compare y.key x.key).isLE with
  | true => exact .inr (.inr ⟨same.symm, keys⟩)
  | false =>
    have turned : (compare y.key x.key).swap = compare x.key y.key := Std.OrientedCmp.eq_swap.symm
    refine .inl (.inr ⟨same.symm, ?_⟩)
    rw [if_pos rfl, ← turned]
    cases order : compare y.key x.key <;> simp [order] at keys ⊢

/-- Where two cuts keep the first rows of either direction, with the same traffic, they keep the same rows if and only
if no tie is split. -/
theorem perm_iff_not_splitsTie {up down : List Row} (ascends : r.KeepsFirst true rows up)
    (descends : r.KeepsFirst false rows down) (once : up.Nodup)
    (same : up.reverse.map r.traffic = down.map r.traffic) : up.Perm down ↔ ¬ r.SplitsTie rows down := by
  constructor
  · rintro perm ⟨x, kept, y, listed, cut, tied⟩
    rcases precedes_of_tied tied with before | before
    · exact cut (perm.mem_iff.1 (ascends.2 x (perm.mem_iff.2 kept) y listed before))
    · exact cut (descends.2 x kept y listed before)
  · intro whole
    have subset : ∀ x ∈ up, x ∈ down := by
      intro x kept
      have counted : r.traffic x ∈ down.map r.traffic := by
        rw [← same]
        exact List.mem_map_of_mem (List.mem_reverse.2 kept)
      obtain ⟨y, kept', tied⟩ := List.mem_map.1 counted
      by_contra cut
      exact whole ⟨y, kept', x, ascends.1 x kept, cut, tied.symm⟩
    have lengths : up.length = down.length := by simpa using congrArg List.length same
    exact (List.subperm_of_subset once subset).perm_of_length_le lengths.ge

/-- Without a limit, a ranking by traffic keeps the first rows from the largest down in either direction, with the same
traffic. It keeps the same rows in both if and only if the cut splits no tie: of rows with the same traffic, the
descending order keeps those of the first keys, and the ascending order those of the last. -/
theorem directions_agree_iff (byTraffic : r.sortKey ≠ .time) (unlimited : r.limit = none)
    (distinct : (l.map (·.1)).Nodup) :
    let rows := l.map Row.ofEntry
    let up := (r.directed true).apply false l
    let down := (r.directed false).apply false l
    r.KeepsFirst true rows up ∧ r.KeepsFirst false rows down ∧ up.reverse.map r.traffic = down.map r.traffic ∧
      (up.Perm down ↔ ¬ r.SplitsTie rows down) := by
  intro rows up down
  obtain ⟨n, upper, lower⟩ : ∃ n, up = ((r.fromLargest true l).take n).reverse ∧ down = (r.fromLargest false l).take n := by
    refine ⟨_, apply_directed byTraffic unlimited true l, ?_⟩
    rw [coverLength_fromLargest byTraffic]
    exact apply_directed byTraffic unlimited false l
  have ascends : r.KeepsFirst true rows up :=
    keepsFirst_congr (fun x => by rw [upper, List.mem_reverse]) (keepsFirst_take byTraffic distinct n)
  have descends : r.KeepsFirst false rows down := lower ▸ keepsFirst_take byTraffic distinct n
  have same : up.reverse.map r.traffic = down.map r.traffic := by
    rw [upper, lower, List.reverse_reverse, List.map_take, List.map_take, map_traffic_fromLargest byTraffic]
  have once : up.Nodup := (nodup_apply distinct).of_map _
  exact ⟨ascends, descends, same, perm_iff_not_splitsTie ascends descends once same⟩

/-! ### Two rows with the same traffic -/

def tiedEntries : List (Key × Counters) :=
  [({ Key.blank with port := some 1 }, ⟨1, 1, 100, 0⟩), ({ Key.blank with port := some 2 }, ⟨1, 1, 100, 0⟩)]

/-- The ranking by bytes that keeps half of them. -/
def halfOfBytes : Ranking := ⟨.bytes, .both, false, none, 0.5⟩

theorem sorted_tiedEntries (ascending : Bool) :
    (halfOfBytes.directed ascending).sorted false tiedEntries = tiedEntries.map Row.ofEntry := by
  refine List.mergeSort_of_pairwise ?_
  cases ascending <;> decide

theorem directions_agree_iff_tied :
    let rows := tiedEntries.map Row.ofEntry
    let up := (halfOfBytes.directed true).apply false tiedEntries
    let down := (halfOfBytes.directed false).apply false tiedEntries
    halfOfBytes.sortKey ≠ .time ∧ halfOfBytes.limit = none ∧ (tiedEntries.map (·.1)).Nodup ∧
      halfOfBytes.KeepsFirst true rows up ∧ halfOfBytes.KeepsFirst false rows down ∧
      up.reverse.map halfOfBytes.traffic = down.map halfOfBytes.traffic ∧
      (up.Perm down ↔ ¬ halfOfBytes.SplitsTie rows down) :=
  ⟨by decide, rfl, by decide, directions_agree_iff (by decide) rfl (by decide)⟩

/-- Of two rows with the same traffic, half of which is to be kept, the descending order keeps the first and the
ascending order the last. -/
theorem directions_part_at_tie :
    (halfOfBytes.directed false).apply false tiedEntries = (tiedEntries.take 1).map Row.ofEntry ∧
    (halfOfBytes.directed true).apply false tiedEntries = (tiedEntries.drop 1).map Row.ofEntry ∧
    ¬ ((halfOfBytes.directed true).apply false tiedEntries).Perm ((halfOfBytes.directed false).apply false tiedEntries) := by
  have descending : (halfOfBytes.directed false).apply false tiedEntries = (tiedEntries.take 1).map Row.ofEntry := by
    rw [apply, sorted_tiedEntries]
    decide +kernel
  have ascending : (halfOfBytes.directed true).apply false tiedEntries = (tiedEntries.drop 1).map Row.ofEntry := by
    rw [apply, sorted_tiedEntries]
    decide +kernel
  refine ⟨descending, ascending, ?_⟩
  rw [descending, ascending]
  decide

end FlowArchive.Ranking
