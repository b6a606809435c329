import FlowArchive.Proofs.Tally
import Mathlib.Data.List.Induction

/-!
# Reductions

Tallies are merged one after the other. Some of them may also be reduced apart from the others, in the same ways, and then
what they come to is merged like a tally of its own; where they come to nothing, they are left out. However tallies are
ordered and split, and in whatever order the entries of each are given, the same is reached in the end.
-/

namespace FlowArchive

namespace Tally

/-- The pairs of tallies that stand beside a key are its values in those that have it. -/
theorem sumOf_flatMap_entries (key : Key) (ts : List Tally) :
    sumOf key (ts.flatMap Table.entries) = Counters.sum (ts.filterMap fun t => t.get? key) := by
  induction ts with
  | nil => rfl
  | cons t rest ih =>
    rw [List.flatMap_cons, sumOf_append, ih, sumOf_entries]
    cases found : t.get? key with
    | none => simp [found, Counters.zero_add]
    | some c => simp [found, Counters.sum_cons]

end Tally

namespace Merger

variable {ts us : List Tally} {m n : Merger} {l k : List (Key × Counters)}

/-- What tallies may be reduced to. -/
inductive Reduces : List Tally → Merger → Prop where
  | start : Reduces [] .start
  /-- The next tally is merged, its entries in any order. -/
  | merge {ts : List Tally} {m : Merger} {t : Tally} {l : List (Key × Counters)} (before : Reduces ts m)
      (listed : l.Perm t.entries) : Reduces (ts ++ [t]) (m.mergeEntries l)
  /-- The next tallies are reduced apart, and what they come to is merged. -/
  | group {ts us : List Tally} {m n : Merger} {a : Aggregate} {l : List (Key × Counters)} (before : Reduces ts m)
      (apart : Reduces us n) (finished : n.finish = .ok a) (listed : l.Perm a.tally.entries) :
      Reduces (ts ++ us) (m.mergeEntries l)
  /-- The next tallies are reduced apart and come to nothing. -/
  | skip {ts us : List Tally} {m n : Merger} (before : Reduces ts m) (apart : Reduces us n)
      (nothing : n.finish = .error .noFlows) : Reduces (ts ++ us) m

/-! ## What a reduction holds -/

theorem finish_cases (m : Merger) : m.finish = .ok m.aggregate ∨ m.finish = .error .noFlows := by
  unfold finish
  split
  · exact .inr rfl
  · exact .inl rfl

theorem aggregate_of_finish {a : Aggregate} (finished : m.finish = .ok a) : a = m.aggregate := by
  rcases m.finish_cases with own | nothing
  · exact (Except.ok.inj (own.symm.trans finished)).symm
  · rw [nothing] at finished
    cases finished

/-- However tallies are reduced, what is reached holds their pairs. -/
theorem Reduces.holds (reduces : Reduces ts m) : m.Holds (ts.flatMap Table.entries) := by
  induction reduces with
  | start => exact start_holds
  | merge before listed ih =>
    rw [List.flatMap_append, List.flatMap_singleton]
    exact (ih.mergeEntries _).perm (listed.append_left _)
  | group before apart finished listed ih inner =>
    obtain rfl := aggregate_of_finish finished
    rw [List.flatMap_append]
    exact ((ih.mergeEntries _).perm (listed.append_left _)).replace inner.tally
  | skip before apart nothing ih inner =>
    rw [List.flatMap_append, inner.finish_eq_noFlows_iff.1 nothing, List.append_nil]
    exact ih

/-! ## One result -/

theorem Reduces.mem_keys_iff (reduces : Reduces ts m) (key : Key) :
    key ∈ m.aggregate.tally.keys ↔ ∃ t ∈ ts, key ∈ t.keys := by
  rw [reduces.holds.tally.mem_keys_iff, List.map_flatMap]
  exact List.mem_flatMap

theorem Reduces.value (reduces : Reduces ts m) {key : Key} {c : Counters}
    (found : m.aggregate.tally.get? key = some c) : c = Counters.sum (ts.filterMap fun t => t.get? key) := by
  have held := reduces.holds.tally key
  rw [found, Tally.sumOf_flatMap_entries] at held
  split at held
  · exact Option.some.inj held
  · cases held

theorem Reduces.totals (reduces : Reduces ts m) : m.aggregate.totals = Counters.sum m.aggregate.tally.values :=
  reduces.holds.totals.trans reduces.holds.tally.sum_values.symm

theorem Reduces.finish_eq_noFlows_iff (reduces : Reduces ts m) :
    m.finish = .error .noFlows ↔ ∀ t ∈ ts, t.isEmpty = true := by
  rw [reduces.holds.finish_eq_noFlows_iff, flatMap_entries_eq_nil_iff]

/-- Whatever the order of the tallies, however they are split into parts that are reduced first, and in whatever order
entries are given, the same is reached: each key of any tally, with the sum of its counters in those that have it, and the
sum of all. There is nothing to reach if and only if every tally is empty. -/
theorem reductions_agree (same : ts.Perm us) (first : Reduces ts m) (second : Reduces us n) :
    m.aggregate = n.aggregate ∧ m.finish = n.finish ∧
      (∀ key, key ∈ m.aggregate.tally.keys ↔ ∃ t ∈ ts, key ∈ t.keys) ∧
      (∀ key c, m.aggregate.tally.get? key = some c → c = Counters.sum (ts.filterMap fun t => t.get? key)) ∧
      m.aggregate.totals = Counters.sum m.aggregate.tally.values ∧
      (m.finish = .error .noFlows ↔ ∀ t ∈ ts, t.isEmpty = true) ∧ ∀ a, m.finish = .ok a → a = m.aggregate := by
  have aggregates := first.holds.aggregate_eq second.holds (same.flatMap_right _)
  refine ⟨aggregates, ?_, first.mem_keys_iff, fun key c => first.value, first.totals, first.finish_eq_noFlows_iff,
    fun a => aggregate_of_finish⟩
  rw [finish, finish, aggregates]

/-! ## Groups -/

/-- Reduces tallies group by group. -/
def mergeGroups (groups : List (List Tally)) : Merger :=
  groups.foldl (fun m ts =>
    match (ts.foldl merge start).finish with
    | .ok a => m.merge a.tally
    | .error _ => m) start

theorem reduces_foldl (ts : List Tally) : Reduces ts (ts.foldl merge start) := by
  induction ts using List.reverseRecOn with
  | nil => exact .start
  | append_singleton front t ih =>
    rw [List.foldl_append]
    exact .merge ih (.refl t.entries)

theorem reduces_mergeGroups (groups : List (List Tally)) : Reduces groups.flatten (mergeGroups groups) := by
  induction groups using List.reverseRecOn with
  | nil => exact .start
  | append_singleton front ts ih =>
    rw [mergeGroups, List.foldl_append, List.flatten_append, List.flatten_singleton]
    have apart := reduces_foldl ts
    simp only [List.foldl_cons, List.foldl_nil]
    rcases finish_cases (ts.foldl merge start) with finished | nothing
    · rw [finished]
      exact .group ih apart finished (.refl _)
    · rw [nothing]
      exact .skip ih apart nothing

/-- The greatest count of packets on one port, and one packet more on the same port. -/
def greatestTally : Tally := .ofList [({ Key.blank with port := some 80 }, ⟨18446744073709551615, 1, 1, 1⟩)]

def oneMoreTally : Tally :=
  .ofList [({ Key.blank with port := some 80 }, ⟨1, 2, 3, 4⟩), ({ Key.blank with port := some 443 }, ⟨5, 6, 7, 8⟩)]

theorem reductions_agree_wrapping :
    let ts := [greatestTally, .empty, oneMoreTally]
    let us := [oneMoreTally, .empty, greatestTally]
    let m := mergeGroups [[greatestTally], [.empty], [oneMoreTally]]
    let n := mergeGroups [[oneMoreTally, .empty], [greatestTally]]
    ts.Perm us ∧ Reduces ts m ∧ Reduces us n ∧ m.aggregate = n.aggregate ∧ m.finish = n.finish ∧
      (∀ key, key ∈ m.aggregate.tally.keys ↔ ∃ t ∈ ts, key ∈ t.keys) ∧
      (∀ key c, m.aggregate.tally.get? key = some c → c = Counters.sum (ts.filterMap fun t => t.get? key)) ∧
      m.aggregate.totals = Counters.sum m.aggregate.tally.values ∧
      (m.finish = .error .noFlows ↔ ∀ t ∈ ts, t.isEmpty = true) ∧ ∀ a, m.finish = .ok a → a = m.aggregate :=
  have same := List.reverse_perm [oneMoreTally, .empty, greatestTally]
  have first := reduces_mergeGroups [[greatestTally], [.empty], [oneMoreTally]]
  have second := reduces_mergeGroups [[oneMoreTally, .empty], [greatestTally]]
  ⟨same, first, second, reductions_agree same first second⟩

end Merger

end FlowArchive
