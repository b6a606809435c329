import FlowArchive.Table
import Mathlib.Data.List.Dedup
import Mathlib.Data.List.Nodup

/-!
# Entries of tables

A table lists each of its keys once, so its entries and its look-ups say the same. Filters act on look-ups, and
a table that is filled with the entries of another is that table.
-/

namespace FlowArchive.Table

variable {κ ν : Type} [Ord κ] [Std.TransOrd κ] [Std.LawfulEqOrd κ]

omit [Std.TransOrd κ] in
theorem mem_of_lookup {k : κ} {v : ν} {l : List (κ × ν)} (found : lookup k l = some v) : (k, v) ∈ l := by
  induction l with
  | nil => cases found
  | cons head rest ih =>
    obtain ⟨k', v'⟩ := head
    rw [lookup] at found
    split at found
    next same =>
      obtain rfl := Std.LawfulEqCmp.eq_of_compare same
      cases found
      exact List.mem_cons_self
    next => exact List.mem_cons_of_mem _ (ih found)

omit [Std.LawfulEqOrd κ] in
theorem lookup_of_mem {k : κ} {v : ν} {l : List (κ × ν)}
    (ascending : l.Pairwise fun a b => compare a.1 b.1 = .lt) (member : (k, v) ∈ l) : lookup k l = some v := by
  induction l with
  | nil => cases member
  | cons head rest ih =>
    obtain ⟨first, tail⟩ := List.pairwise_cons.1 ascending
    rcases List.mem_cons.1 member with rfl | later
    · simp [lookup]
    · have above : compare head.1 k = .lt := first (k, v) later
      have apart : ¬ compare k head.1 = .eq := fun same => by
        rw [Std.OrientedCmp.eq_symm same] at above
        cases above
      rw [lookup, if_neg apart]
      exact ih tail later

theorem mem_entries_iff {t : Table κ ν} {k : κ} {v : ν} : (k, v) ∈ t.entries ↔ t.get? k = some v :=
  ⟨lookup_of_mem t.ascending, mem_of_lookup⟩

theorem mem_keys_iff {t : Table κ ν} {k : κ} : k ∈ t.keys ↔ (t.get? k).isSome := by
  simp only [keys, List.mem_map, Option.isSome_iff_exists, ← mem_entries_iff]
  constructor
  · rintro ⟨⟨k, v⟩, member, rfl⟩
    exact ⟨v, member⟩
  · rintro ⟨v, member⟩
    exact ⟨(k, v), member, rfl⟩

omit [Std.LawfulEqOrd κ] in
theorem nodup_keys (t : Table κ ν) : t.keys.Nodup := by
  refine List.pairwise_map.2 (t.ascending.imp fun {a b} below same => ?_)
  have equal : compare a.1 b.1 = .eq := by rw [same]; exact Std.ReflCmp.compare_self
  rw [equal] at below
  cases below

theorem isEmpty_iff {t : Table κ ν} : t.isEmpty = true ↔ ∀ k, t.get? k = none := by
  simp only [isEmpty, List.isEmpty_iff]
  constructor
  · intro nothing k
    simp [get?, nothing, lookup]
  · intro nothing
    refine List.eq_nil_iff_forall_not_mem.2 fun e member => ?_
    have found := mem_entries_iff.1 (show (e.1, e.2) ∈ t.entries from member)
    rw [nothing] at found
    cases found

/-- The number of entries is the number of distinct keys among any that the table has. -/
theorem size_eq_of_keys [DecidableEq κ] {t : Table κ ν} {l : List κ} (same : ∀ k, (t.get? k).isSome ↔ k ∈ l) :
    t.size = l.dedup.length := by
  have listed : t.keys.Perm l.dedup := by
    refine (List.perm_ext_iff_of_nodup (nodup_keys t) (List.nodup_dedup l)).2 fun k => ?_
    rw [mem_keys_iff, same, List.mem_dedup]
  simpa [keys, size] using listed.length_eq

/-! ## Filters -/

theorem get?_filter (t : Table κ ν) (p : κ → ν → Bool) (k : κ) :
    (t.filter p).get? k = (t.get? k).filter (p k) := by
  cases kept : (t.filter p).get? k with
  | some v =>
    have member : (k, v) ∈ t.entries.filter fun e => p e.1 e.2 := mem_entries_iff.2 kept
    obtain ⟨listed, passes⟩ := List.mem_filter.1 member
    rw [mem_entries_iff.1 listed, Option.filter_some, if_pos passes]
  | none =>
    cases found : t.get? k with
    | none => rfl
    | some v =>
      by_cases passes : p k v = true
      · have member : (k, v) ∈ (t.filter p).entries := List.mem_filter.2 ⟨mem_entries_iff.2 found, passes⟩
        rw [mem_entries_iff.1 member] at kept
        cases kept
      · rw [Option.filter_some, if_neg passes]

/-! ## Filling -/

variable [DecidableEq κ]

theorem get?_foldl_insert (l : List (κ × ν)) (t : Table κ ν) (distinct : (l.map (·.1)).Nodup) (k : κ) :
    (l.foldl (fun t e => t.insert e.1 e.2) t).get? k = (lookup k l).or (t.get? k) := by
  induction l generalizing t with
  | nil => simp [lookup]
  | cons head rest ih =>
    obtain ⟨k', v'⟩ := head
    obtain ⟨unseen, distinct⟩ := List.nodup_cons.1 distinct
    rw [List.foldl_cons, ih _ distinct, get?_insert, lookup]
    by_cases same : k = k'
    · subst same
      have absent : lookup k rest = none := by
        cases later : lookup k rest with
        | none => rfl
        | some v => exact absurd (List.mem_map_of_mem (f := (·.1)) (mem_of_lookup later)) unseen
      simp [absent]
    · simp [same]

/-- A table that is filled with the entries of another is that table. -/
theorem foldl_insert_entries (t : Table κ ν) : t.entries.foldl (fun u e => u.insert e.1 e.2) empty = t := by
  refine ext_get? fun k => ?_
  rw [get?_foldl_insert _ _ (nodup_keys t), get?_empty, Option.or_none]
  rfl

end FlowArchive.Table
