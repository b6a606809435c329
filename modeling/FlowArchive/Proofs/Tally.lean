import FlowArchive.Proofs.Table
import FlowArchive.Query.Pipeline

/-!
# What tallies hold

A tally of pairs of a key and counters holds each key that occurs, with the sum of the counters that stand
beside it. The same is true of tallies that are merged, whatever blocks the pairs came from, and the totals of a
merger are the sum of all counters.
-/

namespace FlowArchive

namespace Counters

theorem foldl_add (cs : List Counters) (a : Counters) : cs.foldl (· + ·) a = a + sum cs := by
  induction cs generalizing a with
  | nil => exact (add_zero a).symm
  | cons c rest ih =>
    have own : sum (c :: rest) = c + sum rest := by rw [sum, List.foldl_cons, ih, zero_add]
    rw [List.foldl_cons, ih, own, add_assoc]

@[simp] theorem sum_nil : sum [] = zero := rfl

theorem sum_cons (c : Counters) (cs : List Counters) : sum (c :: cs) = c + sum cs := by
  rw [sum, List.foldl_cons, foldl_add, zero_add]

theorem sum_append (cs ds : List Counters) : sum (cs ++ ds) = sum cs + sum ds := by
  rw [sum, List.foldl_append, foldl_add]
  rfl

theorem sum_perm {cs ds : List Counters} (same : cs.Perm ds) : sum cs = sum ds := by
  induction same with
  | nil => rfl
  | cons c _ ih => rw [sum_cons, sum_cons, ih]
  | swap c d rest => rw [sum_cons, sum_cons, sum_cons, sum_cons, ← add_assoc, ← add_assoc, add_comm c d]
  | trans _ _ first second => exact first.trans second

end Counters

namespace Tally

/-- The sum of the counters beside a key. -/
def sumOf (k : Key) (l : List (Key × Counters)) : Counters :=
  Counters.sum ((l.filter fun e => e.1 = k).map (·.2))

/-- A tally holds the keys of some pairs, each with the sum of the counters beside it. -/
def Sums (t : Tally) (l : List (Key × Counters)) : Prop :=
  ∀ k, t.get? k = if k ∈ l.map (·.1) then some (sumOf k l) else none

theorem sumOf_append (k : Key) (l m : List (Key × Counters)) : sumOf k (l ++ m) = sumOf k l + sumOf k m := by
  rw [sumOf, List.filter_append, List.map_append, Counters.sum_append]
  rfl

theorem sumOf_absent {k : Key} {l : List (Key × Counters)} (absent : k ∉ l.map (·.1)) : sumOf k l = .zero := by
  have nothing : (l.filter fun e => e.1 = k) = [] := by
    refine List.filter_eq_nil_iff.2 fun e member same => absent ?_
    exact List.mem_map.2 ⟨e, member, by simpa using same⟩
  simp [sumOf, nothing]

theorem sumOf_perm {k : Key} {l m : List (Key × Counters)} (same : l.Perm m) : sumOf k l = sumOf k m :=
  Counters.sum_perm ((same.filter _).map _)

/-- What pairs come to does not depend on their order. -/
theorem Sums.eq_of_perm {t u : Tally} {l m : List (Key × Counters)} (sums : t.Sums l) (others : u.Sums m)
    (same : l.Perm m) : t = u := by
  refine Table.ext_get? fun k => ?_
  rw [sums k, others k, sumOf_perm same]
  simp only [(same.map (·.1)).mem_iff]

theorem sums_empty : Sums .empty [] := fun _ => rfl

theorem Sums.add {t : Tally} {l : List (Key × Counters)} (sums : t.Sums l) (e : Key × Counters) :
    (t.add e).Sums (l ++ [e]) := by
  intro k
  rw [Tally.add, Table.get?_alter, sumOf_append, List.map_append, List.map_singleton]
  by_cases here : k = e.1
  · have own : sumOf k [e] = e.2 := by simp [sumOf, here, Counters.sum_cons, Counters.add_zero]
    have entered : k ∈ l.map (·.1) ++ [k] := List.mem_append_right _ (List.mem_singleton.2 rfl)
    rw [if_pos here, ← here, sums, own, if_pos entered]
    by_cases present : k ∈ l.map (·.1)
    · rw [if_pos present, Option.getD_some]
    · rw [if_neg present, Option.getD_none, sumOf_absent present]
  · have other : sumOf k [e] = .zero := by simp [sumOf, Ne.symm here, Counters.sum_nil]
    have same : k ∈ l.map (·.1) ++ [e.1] ↔ k ∈ l.map (·.1) := by
      rw [List.mem_append, List.mem_singleton, or_iff_left here]
    rw [if_neg here, sums, other, Counters.add_zero]
    simp only [same]

theorem Sums.foldl_add {t : Tally} {l : List (Key × Counters)} (sums : t.Sums l) (m : List (Key × Counters)) :
    (m.foldl Tally.add t).Sums (l ++ m) := by
  induction m generalizing t l with
  | nil => simpa using sums
  | cons e rest ih => simpa using ih (sums.add e)

theorem sums_ofList (l : List (Key × Counters)) : (ofList l).Sums l := by
  simpa [ofList] using sums_empty.foldl_add l

theorem sumOf_entries (t : Tally) (k : Key) : sumOf k t.entries = (t.get? k).getD .zero := by
  cases found : t.get? k with
  | none =>
    refine sumOf_absent fun member => ?_
    have present := Table.mem_keys_iff.1 member
    simp [found] at present
  | some c =>
    have only : t.entries.filter (fun e => e.1 = k) = [(k, c)] := by
      have once : (t.entries.filter fun e => e.1 = k).Perm [(k, c)] := by
        refine (List.perm_ext_iff_of_nodup ?_ (by simp)).2 fun e => ?_
        · exact (List.Nodup.of_map _ (Table.nodup_keys t)).filter _
        · rw [List.mem_filter, List.mem_singleton]
          constructor
          · rintro ⟨member, same⟩
            obtain ⟨k', c'⟩ := e
            obtain rfl : k' = k := by simpa using same
            have value := Table.mem_entries_iff.1 member
            rw [found] at value
            cases value
            rfl
          · rintro rfl
            exact ⟨Table.mem_entries_iff.2 found, by simp⟩
      exact List.perm_singleton.1 once
    simp [sumOf, only, Counters.sum_cons, Counters.add_zero]

theorem Sums.mem_keys_iff {t : Tally} {l : List (Key × Counters)} (sums : t.Sums l) {k : Key} :
    k ∈ t.keys ↔ k ∈ l.map (·.1) := by
  rw [Table.mem_keys_iff, sums k]
  by_cases present : k ∈ l.map (·.1) <;> simp [present]

theorem Sums.perm {t : Tally} {l m : List (Key × Counters)} (sums : t.Sums l) (same : l.Perm m) : t.Sums m := by
  intro k
  rw [sums k, sumOf_perm same]
  simp only [(same.map (·.1)).mem_iff]

/-- The entries of a tally stand for the pairs that it holds. -/
theorem Sums.replace {t u : Tally} {l m : List (Key × Counters)} (sums : t.Sums (l ++ u.entries)) (more : u.Sums m) :
    t.Sums (l ++ m) := by
  intro k
  have keys : k ∈ u.entries.map (·.1) ↔ k ∈ m.map (·.1) := more.mem_keys_iff
  have value : sumOf k u.entries = sumOf k m := by
    rw [sumOf_entries, more k]
    by_cases present : k ∈ m.map (·.1)
    · simp [present]
    · simp [present, sumOf_absent present]
  rw [sums k, sumOf_append, sumOf_append, value]
  simp only [List.map_append, List.mem_append, keys]

/-! ## Totals -/

theorem sum_alterEntries (k : Key) (c : Counters) (l : List (Key × Counters)) :
    Counters.sum ((Table.alterEntries k (fun old => some (old.getD .zero + c)) l).map (·.2)) =
      Counters.sum (l.map (·.2)) + c := by
  induction l with
  | nil => simp [Table.alterEntries, Counters.sum_cons, Counters.zero_add, Counters.add_zero]
  | cons head rest ih =>
    obtain ⟨k', c'⟩ := head
    rw [Table.alterEntries]
    split
    · simp [Counters.sum_cons, Counters.add_comm _ c, Counters.add_zero]
    · simp only [Option.getD_some, Option.elim_some, List.map_cons, Counters.sum_cons]
      rw [Counters.add_assoc, Counters.add_assoc, Counters.add_comm c]
    · simp only [List.map_cons, Counters.sum_cons, ih, Counters.add_assoc]

theorem sum_values_ofList (l : List (Key × Counters)) :
    Counters.sum (ofList l).values = Counters.sum (l.map (·.2)) := by
  have grow : ∀ t : Tally, Counters.sum (l.foldl add t).values = Counters.sum t.values + Counters.sum (l.map (·.2)) := by
    induction l with
    | nil => exact fun t => (Counters.add_zero _).symm
    | cons e rest ih =>
      intro t
      have one : Counters.sum (t.add e).values = Counters.sum t.values + e.2 := sum_alterEntries e.1 e.2 t.entries
      rw [List.foldl_cons, ih, one, List.map_cons, Counters.sum_cons, Counters.add_assoc]
  rw [ofList, grow]
  exact Counters.zero_add _

/-- The counters of a tally come to those of the pairs that it holds. -/
theorem Sums.sum_values {t : Tally} {l : List (Key × Counters)} (sums : t.Sums l) :
    Counters.sum t.values = Counters.sum (l.map (·.2)) := by
  have made : t = ofList l := sums.eq_of_perm (sums_ofList l) (.refl l)
  rw [made, sum_values_ofList]

end Tally

/-! ## Mergers -/

namespace Merger

/-- A merger holds what some pairs come to, and the sum of all their counters. -/
structure Holds (m : Merger) (l : List (Key × Counters)) : Prop where
  tally : m.aggregate.tally.Sums l
  totals : m.aggregate.totals = Counters.sum (l.map (·.2))

theorem start_holds : start.Holds [] := ⟨Tally.sums_empty, rfl⟩

theorem foldl_mergeEntry (a : Aggregate) (l : List (Key × Counters)) :
    l.foldl mergeEntry a = ⟨l.foldl Tally.add a.tally, a.totals + Counters.sum (l.map (·.2))⟩ := by
  induction l generalizing a with
  | nil => simp [Counters.add_zero]
  | cons e rest ih => simp [ih, mergeEntry, Counters.sum_cons, Counters.add_assoc]

theorem Holds.perm {m : Merger} {l k : List (Key × Counters)} (holds : m.Holds l) (same : l.Perm k) : m.Holds k :=
  ⟨holds.tally.perm same, holds.totals.trans (Counters.sum_perm (same.map _))⟩

theorem Holds.mergeEntries {m : Merger} {l : List (Key × Counters)} (holds : m.Holds l) (k : List (Key × Counters)) :
    (m.mergeEntries k).Holds (l ++ k) := by
  have merged : (m.mergeEntries k).aggregate = k.foldl mergeEntry m.aggregate := rfl
  rw [foldl_mergeEntry] at merged
  constructor
  · rw [merged]
    exact holds.tally.foldl_add k
  · rw [merged, List.map_append, Counters.sum_append, holds.totals]

theorem Holds.replace {m : Merger} {t : Tally} {l held : List (Key × Counters)} (holds : m.Holds (l ++ t.entries))
    (sums : t.Sums held) : m.Holds (l ++ held) := by
  refine ⟨holds.tally.replace sums, ?_⟩
  have values : Counters.sum (t.entries.map (·.2)) = Counters.sum (held.map (·.2)) := sums.sum_values
  rw [holds.totals, List.map_append, List.map_append, Counters.sum_append, Counters.sum_append, values]

/-- Merging the tally of a block adds the pairs of the block. -/
theorem Holds.merge {m : Merger} {l : List (Key × Counters)} (holds : m.Holds l) (block : List (Key × Counters)) :
    (m.merge (.ofList block)).Holds (l ++ block) :=
  (holds.mergeEntries (Tally.ofList block).entries).replace (Tally.sums_ofList block)

theorem Holds.isEmpty_iff {m : Merger} {l : List (Key × Counters)} (holds : m.Holds l) :
    m.aggregate.tally.isEmpty = true ↔ l = [] := by
  rw [Table.isEmpty_iff]
  constructor
  · intro nothing
    refine List.eq_nil_iff_forall_not_mem.2 fun e member => ?_
    have present : e.1 ∈ l.map (·.1) := List.mem_map_of_mem member
    have found := holds.tally e.1
    rw [nothing, if_pos present] at found
    cases found
  · rintro rfl
    exact fun k => holds.tally k

/-! ### The order of merging -/

theorem Holds.mergeTallies {m : Merger} {l : List (Key × Counters)} (holds : m.Holds l) (ts : List Tally) :
    (ts.foldl Merger.merge m).Holds (l ++ ts.flatMap Table.entries) := by
  induction ts generalizing m l with
  | nil => simpa using holds
  | cons t rest ih =>
    have merged : (m.merge t).Holds (l ++ t.entries) := holds.mergeEntries t.entries
    simpa using ih merged

/-- Mergers that hold the same pairs come to the same aggregate. -/
theorem Holds.aggregate_eq {m n : Merger} {l k : List (Key × Counters)} (holds : m.Holds l) (also : n.Holds k)
    (same : l.Perm k) : m.aggregate = n.aggregate := by
  have tallies := holds.tally.eq_of_perm also.tally same
  have totals : m.aggregate.totals = n.aggregate.totals := by
    rw [holds.totals, also.totals, Counters.sum_perm (same.map _)]
  cases m with
  | mk a _ =>
    cases n with
    | mk b _ =>
      cases a
      cases b
      simp_all

/-- The order of tallies does not matter to what they are merged to. -/
theorem finish_perm {ts us : List Tally} (same : ts.Perm us) :
    (ts.foldl Merger.merge start).finish = (us.foldl Merger.merge start).finish := by
  have left := start_holds.mergeTallies ts
  have right := start_holds.mergeTallies us
  have aggregates := left.aggregate_eq right ((same.flatMap_right _).append_left [])
  rw [finish, finish, aggregates]

/-- Nothing is reached only where there is no pair. -/
theorem Holds.finish_eq_noFlows_iff {m : Merger} {l : List (Key × Counters)} (holds : m.Holds l) :
    m.finish = .error .noFlows ↔ l = [] := by
  rw [← holds.isEmpty_iff, finish]
  split
  next empty => simp [empty]
  next some => simp [some]

theorem flatMap_entries_eq_nil_iff {ts : List Tally} :
    ts.flatMap Table.entries = [] ↔ ∀ t ∈ ts, t.isEmpty = true := by
  simp only [List.flatMap_eq_nil_iff, Table.isEmpty, List.isEmpty_iff]

/-- Tallies are merged to nothing if and only if all of them are empty. -/
theorem finish_eq_noFlows_iff (ts : List Tally) :
    (ts.foldl Merger.merge start).finish = .error .noFlows ↔ ∀ t ∈ ts, t.isEmpty = true := by
  have holds := start_holds.mergeTallies ts
  rw [holds.finish_eq_noFlows_iff, List.nil_append, flatMap_entries_eq_nil_iff]

end Merger

namespace Pipeline

/-- Outcomes without a failure are merged to what all their pairs come to. -/
theorem collectFrom_ok {m : Merger} {l : List (Key × Counters)} (holds : m.Holds l)
    (blocks : List (List (Key × Counters))) :
    ∃ n : Merger, n.Holds (l ++ blocks.flatten) ∧
      collectFrom m (blocks.map fun block => .ok (.ofList block)) = n.finish := by
  induction blocks generalizing m l with
  | nil => exact ⟨m, by simpa using holds, rfl⟩
  | cons block rest ih =>
    obtain ⟨n, reached, same⟩ := ih (holds.merge block)
    exact ⟨n, by simpa using reached, same⟩

/-- The first failure among outcomes is what they come to. -/
theorem collectFrom_error (m : Merger) {outcomes : List Outcome} (fails : ∃ text, .error text ∈ outcomes) :
    ∃ text, .error text ∈ outcomes ∧ collectFrom m outcomes = .error (.scan text) := by
  induction outcomes generalizing m with
  | nil => simp at fails
  | cons first rest ih =>
    cases first with
    | error text => exact ⟨text, by simp, rfl⟩
    | ok t =>
      obtain ⟨text, member, same⟩ := ih (m.merge t) (by simpa using fails)
      exact ⟨text, List.mem_cons_of_mem _ member, same⟩

end Pipeline

end FlowArchive
