import FlowArchive.Query.Ranking
import Mathlib.Data.List.Infix
import Mathlib.Data.List.Nodup

/-!
# What rankings keep

The order of rows is total, and rows of different keys are never tied. So the rows that are kept depend on the
entries of a tally alone, not on the order in which these are given, and they are a stretch of all rows in order.
-/

namespace FlowArchive.Ranking

variable {r : Ranking} {timeGrouped : Bool}

/-! ## The order of rows -/

/-- The order of rows by traffic alone, in either direction. -/
def trafficOrder (r : Ranking) (a b : Row) : Ordering :=
  if r.ascending then compareOn (fun row : Row => r.metric row.counters) a b
  else compareOn (fun row : Row => r.metric row.counters) b a

theorem metricOrder_eq (r : Ranking) : r.metricOrder = compareLex r.trafficOrder (compareOn Row.key) := by
  funext a b
  have turned : (compare (r.metric a.counters) (r.metric b.counters)).swap =
      compare (r.metric b.counters) (r.metric a.counters) := Std.OrientedCmp.eq_swap.symm
  simp only [metricOrder, compareLex, trafficOrder, compareOn, turned]

instance (r : Ranking) : Std.TransCmp r.trafficOrder := by
  unfold trafficOrder
  cases r.ascending with
  | true => exact inferInstanceAs (Std.TransCmp (compareOn fun row : Row => r.metric row.counters))
  | false =>
    exact inferInstanceAs (Std.TransCmp fun a b => compareOn (fun row : Row => r.metric row.counters) b a)

instance (r : Ranking) : Std.TransCmp r.metricOrder := by
  rw [metricOrder_eq]
  infer_instance

/-- One comparison that decides which of two rows comes first. -/
def order (r : Ranking) (timeGrouped : Bool) (a b : Row) : Ordering :=
  if r.isByKey timeGrouped then
    if timeGrouped || r.ascending then compareOn Row.key a b else compareOn Row.key b a
  else r.metricOrder a b

theorem le_eq (r : Ranking) (timeGrouped : Bool) (a b : Row) :
    r.le timeGrouped a b = (r.order timeGrouped a b).isLE := by
  unfold le order
  split
  · split <;> rfl
  · rfl

instance (r : Ranking) (timeGrouped : Bool) : Std.TransCmp (r.order timeGrouped) := by
  unfold order
  cases r.isByKey timeGrouped with
  | true =>
    cases timeGrouped || r.ascending with
    | true => exact inferInstanceAs (Std.TransCmp (compareOn Row.key))
    | false => exact inferInstanceAs (Std.TransCmp fun a b => compareOn Row.key b a)
  | false => exact inferInstanceAs (Std.TransCmp r.metricOrder)

/-- Only rows of one key are tied. -/
theorem key_eq_of_order {a b : Row} (tied : r.order timeGrouped a b = .eq) : a.key = b.key := by
  unfold order at tied
  split at tied
  · split at tied
    · exact Std.LawfulEqOrd.eq_of_compare tied
    · exact (Std.LawfulEqOrd.eq_of_compare tied).symm
  · rw [metricOrder, Ordering.then_eq_eq] at tied
    exact Std.LawfulEqOrd.eq_of_compare tied.2

theorem le_trans (a b c : Row) (first : r.le timeGrouped a b = true) (second : r.le timeGrouped b c = true) :
    r.le timeGrouped a c = true := by
  rw [le_eq] at *
  exact Std.TransCmp.isLE_trans first second

theorem le_total (a b : Row) : (r.le timeGrouped a b || r.le timeGrouped b a) = true := by
  have turned : r.order timeGrouped b a = (r.order timeGrouped a b).swap := Std.OrientedCmp.eq_swap
  rw [le_eq, le_eq, turned]
  cases r.order timeGrouped a b <;> rfl

theorem key_eq_of_le {a b : Row} (first : r.le timeGrouped a b = true) (second : r.le timeGrouped b a = true) :
    a.key = b.key := by
  have turned : r.order timeGrouped b a = (r.order timeGrouped a b).swap := Std.OrientedCmp.eq_swap
  rw [le_eq] at first second
  rw [turned] at second
  refine @key_eq_of_order r timeGrouped a b ?_
  cases same : r.order timeGrouped a b with
  | eq => rfl
  | lt => simp [same] at second
  | gt => simp [same] at first

/-! ## All rows -/

theorem sorted_perm_map (r : Ranking) (timeGrouped : Bool) (l : List (Key × Counters)) :
    (r.sorted timeGrouped l).Perm (l.map Row.ofEntry) := List.mergeSort_perm _ _

/-- The order in which the entries of a table are given does not matter. -/
theorem sorted_congr {l m : List (Key × Counters)} (distinct : (l.map (·.1)).Nodup) (same : l.Perm m) :
    r.sorted timeGrouped l = r.sorted timeGrouped m := by
  have perm : (r.sorted timeGrouped l).Perm (r.sorted timeGrouped m) :=
    (sorted_perm_map r timeGrouped l).trans ((same.map _).trans (sorted_perm_map r timeGrouped m).symm)
  have apart : ∀ a ∈ l.map Row.ofEntry, ∀ b ∈ l.map Row.ofEntry, a.key = b.key → a = b := by
    intro a ha b hb keys
    obtain ⟨e, listed, rfl⟩ := List.mem_map.1 ha
    obtain ⟨e', listed', rfl⟩ := List.mem_map.1 hb
    rw [List.inj_on_of_nodup_map distinct listed listed' keys]
  refine perm.eq_of_pairwise (fun a b ha hb first second => ?_)
    (List.pairwise_mergeSort le_trans le_total _) (List.pairwise_mergeSort le_trans le_total _)
  refine apart a ((sorted_perm_map r timeGrouped l).mem_iff.1 ha) b ?_ (key_eq_of_le first second)
  exact (sorted_perm_map r timeGrouped l).mem_iff.1 (perm.mem_iff.2 hb)

/-! ## The rows that are kept -/

theorem apply_congr {l m : List (Key × Counters)} (distinct : (l.map (·.1)).Nodup) (same : l.Perm m) :
    r.apply timeGrouped l = r.apply timeGrouped m := by
  unfold apply
  rw [sorted_congr distinct same]

/-- Without a limit, a ranking by traffic cuts by coverage. -/
theorem apply_eq_cover (unlimited : r.limit = none) (byTraffic : r.sortKey ≠ .time) (l : List (Key × Counters)) :
    r.apply false l = r.cover (r.sorted false l) := by
  simp [apply, unlimited, isByKey, byTraffic]

/-- The cut by coverage keeps the end where the largest rows stand. -/
theorem cover_isEnd (r : Ranking) (rows : List Row) :
    if r.ascending then r.cover rows <:+ rows else r.cover rows <+: rows := by
  unfold cover
  split
  · have front := List.take_prefix (r.coverLength rows.reverse) rows.reverse
    exact List.reverse_prefix.1 (by rwa [List.reverse_reverse])
  · exact List.take_prefix _ _

theorem cover_isInfix (r : Ranking) (rows : List Row) : r.cover rows <:+: rows := by
  have ends := cover_isEnd r rows
  split at ends
  · exact ends.isInfix
  · exact ends.isInfix

/-- The rows that are kept stand side by side in all rows. -/
theorem apply_isInfix (r : Ranking) (timeGrouped : Bool) (l : List (Key × Counters)) :
    r.apply timeGrouped l <:+: r.sorted timeGrouped l := by
  unfold apply
  split
  · exact List.infix_rfl
  · split
    · exact (List.take_prefix _ _).isInfix
    · split
      · exact List.infix_rfl
      · exact cover_isInfix r _

theorem mem_apply {l : List (Key × Counters)} {row : Row} (kept : row ∈ r.apply timeGrouped l) :
    ∃ e ∈ l, row = Row.ofEntry e := by
  have listed := (sorted_perm_map r timeGrouped l).mem_iff.1 ((apply_isInfix r timeGrouped l).subset kept)
  obtain ⟨e, member, same⟩ := List.mem_map.1 listed
  exact ⟨e, member, same.symm⟩

theorem nodup_apply {l : List (Key × Counters)} (distinct : (l.map (·.1)).Nodup) :
    ((r.apply timeGrouped l).map Row.key).Nodup := by
  have all : ((r.sorted timeGrouped l).map Row.key).Nodup := by
    refine ((sorted_perm_map r timeGrouped l).map Row.key).nodup_iff.2 ?_
    rw [List.map_map]
    exact distinct
  exact all.sublist ((apply_isInfix r timeGrouped l).sublist.map Row.key)

end FlowArchive.Ranking
