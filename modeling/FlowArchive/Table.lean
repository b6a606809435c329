/-!
# Tables with ordered keys

A table pairs keys with values, each key once, in the order of its keys. Two tables that answer every
look-up alike are equal, so a table has no memory of how it was filled.
-/

namespace FlowArchive

/-- Pairs of a key and a value, strictly ascending by key. -/
structure Table (κ : Type) (ν : Type) [Ord κ] where
  entries : List (κ × ν)
  ascending : entries.Pairwise fun a b => compare a.1 b.1 = .lt

namespace Table

variable {κ ν : Type} [Ord κ]

/-- The table that holds no key. -/
def empty : Table κ ν := ⟨[], .nil⟩

instance : EmptyCollection (Table κ ν) := ⟨empty⟩
instance : Inhabited (Table κ ν) := ⟨empty⟩

instance [DecidableEq κ] [DecidableEq ν] : DecidableEq (Table κ ν) := fun a b =>
  if h : a.entries = b.entries then
    isTrue (by cases a; cases b; cases h; rfl)
  else
    isFalse fun e => h (e ▸ rfl)

def keys (t : Table κ ν) : List κ := t.entries.map (·.1)

/-- The values of a table in the order of their keys. -/
def values (t : Table κ ν) : List ν := t.entries.map (·.2)

def size (t : Table κ ν) : Nat := t.entries.length

def isEmpty (t : Table κ ν) : Bool := t.entries.isEmpty

/-- The value beside the first entry whose key compares equal. -/
def lookup (k : κ) : List (κ × ν) → Option ν
  | [] => none
  | (k', v) :: rest => if compare k k' = .eq then some v else lookup k rest

/-- The value of a key. -/
def get? (t : Table κ ν) (k : κ) : Option ν := lookup k t.entries

def contains (t : Table κ ν) (k : κ) : Bool := (t.get? k).isSome

/-- Replaces what stands at one key of an ascending list; `none` stands for an absent key. -/
def alterEntries (k : κ) (f : Option ν → Option ν) : List (κ × ν) → List (κ × ν)
  | [] => (f none).elim [] fun v => [(k, v)]
  | (k', v') :: rest =>
    match compare k k' with
    | .lt => (f none).elim ((k', v') :: rest) fun v => (k, v) :: (k', v') :: rest
    | .eq => (f (some v')).elim rest fun v => (k', v) :: rest
    | .gt => (k', v') :: alterEntries k f rest

theorem mem_alterEntries {k : κ} {f : Option ν → Option ν} {l : List (κ × ν)} {e : κ × ν}
    (h : e ∈ alterEntries k f l) : e.1 = k ∨ ∃ v, (e.1, v) ∈ l := by
  induction l with
  | nil =>
    rw [alterEntries] at h
    cases hv : f none <;> simp_all
  | cons head rest ih =>
    obtain ⟨k', v'⟩ := head
    rw [alterEntries] at h
    split at h
    · cases hv : f none <;> simp [hv] at h
      · rcases h with rfl | h
        · exact .inr ⟨v', by simp⟩
        · exact .inr ⟨e.2, by simp [h]⟩
      · rcases h with rfl | rfl | h
        · exact .inl rfl
        · exact .inr ⟨v', by simp⟩
        · exact .inr ⟨e.2, by simp [h]⟩
    · cases hv : f (some v') <;> simp [hv] at h
      · exact .inr ⟨e.2, by simp [h]⟩
      · rcases h with rfl | h
        · exact .inr ⟨v', by simp⟩
        · exact .inr ⟨e.2, by simp [h]⟩
    · rcases List.mem_cons.1 h with rfl | h
      · exact .inr ⟨v', by simp⟩
      · rcases ih h with h | ⟨v, h⟩
        · exact .inl h
        · exact .inr ⟨v, by simp [h]⟩

variable [Std.TransOrd κ]

theorem alterEntries_ascending (k : κ) (f : Option ν → Option ν) {l : List (κ × ν)}
    (h : l.Pairwise fun a b => compare a.1 b.1 = .lt) :
    (alterEntries k f l).Pairwise fun a b => compare a.1 b.1 = .lt := by
  induction l with
  | nil => rw [alterEntries]; cases f none <;> simp
  | cons head rest ih =>
    obtain ⟨k', v'⟩ := head
    obtain ⟨first, tail⟩ := List.pairwise_cons.1 h
    rw [alterEntries]
    split
    next below =>
      cases f none with
      | none => exact h
      | some v =>
        refine List.pairwise_cons.2 ⟨fun e he => ?_, h⟩
        rcases List.mem_cons.1 he with rfl | he
        · exact below
        · exact Std.TransCmp.lt_trans below (first e he)
    next equal =>
      cases f (some v') with
      | none => exact tail
      | some v => exact List.pairwise_cons.2 ⟨first, tail⟩
    next above =>
      refine List.pairwise_cons.2 ⟨fun e he => ?_, ih tail⟩
      rcases mem_alterEntries he with hk | ⟨v, he⟩
      · rw [hk]; exact Std.OrientedCmp.lt_of_gt above
      · exact first (e.1, v) he

/-- Replaces what stands at one key; `none` stands for an absent key. -/
def alter (t : Table κ ν) (k : κ) (f : Option ν → Option ν) : Table κ ν :=
  ⟨alterEntries k f t.entries, alterEntries_ascending k f t.ascending⟩

/-- Sets the value of a key. -/
def insert (t : Table κ ν) (k : κ) (v : ν) : Table κ ν := t.alter k fun _ => some v

/-- Removes a key. -/
def erase (t : Table κ ν) (k : κ) : Table κ ν := t.alter k fun _ => none

/-- Keeps the entries that pass a test. -/
def filter (t : Table κ ν) (p : κ → ν → Bool) : Table κ ν :=
  ⟨t.entries.filter fun e => p e.1 e.2, t.ascending.filter _⟩

/-- A table of the given pairs; a repeated key takes its last value. -/
def ofList (l : List (κ × ν)) : Table κ ν := l.foldl (fun t e => t.insert e.1 e.2) empty

/-! ## Look-up after a change -/

omit [Std.TransOrd κ] in
theorem lookup_eq_none_of_lt {k : κ} {l : List (κ × ν)} (h : ∀ e ∈ l, compare k e.1 = .lt) :
    lookup k l = none := by
  induction l with
  | nil => rfl
  | cons head rest ih =>
    have below : compare k head.1 = .lt := h head (by simp)
    rw [lookup, if_neg (by simp [below])]
    exact ih fun e he => h e (by simp [he])

variable [Std.LawfulEqOrd κ]

theorem lookup_alterEntries {k j : κ} {f : Option ν → Option ν} {l : List (κ × ν)}
    (h : l.Pairwise fun a b => compare a.1 b.1 = .lt) :
    lookup j (alterEntries k f l) = if compare j k = .eq then f (lookup k l) else lookup j l := by
  induction l with
  | nil =>
    rw [alterEntries]
    cases hv : f none <;> simp [lookup, hv]
  | cons head rest ih =>
    obtain ⟨k', v'⟩ := head
    obtain ⟨first, tail⟩ := List.pairwise_cons.1 h
    rw [alterEntries]
    split
    next below =>
      have absent : lookup k ((k', v') :: rest) = none := by
        refine lookup_eq_none_of_lt fun e he => ?_
        rcases List.mem_cons.1 he with rfl | he
        · exact below
        · exact Std.TransCmp.lt_trans below (first e he)
      rw [absent]
      cases hv : f none with
      | some v => simp [lookup]
      | none =>
        simp only [Option.elim]
        split
        next same => rw [Std.LawfulEqCmp.eq_of_compare same, absent]
        next => rfl
    next equal =>
      obtain rfl := Std.LawfulEqCmp.eq_of_compare equal
      have present : lookup k ((k, v') :: rest) = some v' := by simp [lookup]
      rw [present]
      cases hv : f (some v') with
      | some v => simp only [Option.elim, lookup]; split <;> rfl
      | none =>
        simp only [Option.elim, lookup]
        split
        next same =>
          obtain rfl := Std.LawfulEqCmp.eq_of_compare same
          exact lookup_eq_none_of_lt first
        next => rfl
    next above =>
      have other : ¬ compare k k' = .eq := by simp [above]
      rw [lookup, lookup, lookup, ih tail, if_neg other]
      by_cases same : compare j k' = .eq
      · obtain rfl := Std.LawfulEqCmp.eq_of_compare same
        have apart : ¬ compare j k = .eq := fun e => other (Std.OrientedCmp.eq_symm e)
        simp [apart]
      · simp [same]

omit [Std.TransOrd κ] [Std.LawfulEqOrd κ] in
@[simp] theorem get?_empty (k : κ) : (empty : Table κ ν).get? k = none := rfl

variable [DecidableEq κ]

theorem get?_alter (t : Table κ ν) (k j : κ) (f : Option ν → Option ν) :
    (t.alter k f).get? j = if j = k then f (t.get? k) else t.get? j := by
  rw [get?, alter, lookup_alterEntries t.ascending]
  simp only [Std.LawfulEqCmp.compare_eq_iff_eq]
  rfl

theorem get?_insert (t : Table κ ν) (k j : κ) (v : ν) :
    (t.insert k v).get? j = if j = k then some v else t.get? j :=
  get?_alter t k j _

theorem get?_erase (t : Table κ ν) (k j : κ) :
    (t.erase k).get? j = if j = k then none else t.get? j :=
  get?_alter t k j _

/-! ## A table is its look-ups -/

omit [DecidableEq κ] in
theorem eq_of_lookup_eq {l m : List (κ × ν)}
    (hl : l.Pairwise fun a b => compare a.1 b.1 = .lt)
    (hm : m.Pairwise fun a b => compare a.1 b.1 = .lt)
    (same : ∀ k, lookup k l = lookup k m) : l = m := by
  induction l generalizing m with
  | nil =>
    cases m with
    | nil => rfl
    | cons head rest => simpa [lookup] using same head.1
  | cons head rest ih =>
    obtain ⟨k, v⟩ := head
    obtain ⟨first, tail⟩ := List.pairwise_cons.1 hl
    cases m with
    | nil => simpa [lookup] using same k
    | cons head' rest' =>
      obtain ⟨k', v'⟩ := head'
      obtain ⟨first', tail'⟩ := List.pairwise_cons.1 hm
      cases order : compare k k' with
      | lt =>
        have absent : lookup k ((k', v') :: rest') = none := by
          refine lookup_eq_none_of_lt fun e he => ?_
          rcases List.mem_cons.1 he with rfl | he
          · exact order
          · exact Std.TransCmp.lt_trans order (first' e he)
        have found : lookup k ((k, v) :: rest) = some v := by simp [lookup]
        rw [same k, absent] at found
        cases found
      | gt =>
        have flipped : compare k' k = .lt := Std.OrientedCmp.lt_of_gt order
        have absent : lookup k' ((k, v) :: rest) = none := by
          refine lookup_eq_none_of_lt fun e he => ?_
          rcases List.mem_cons.1 he with rfl | he
          · exact flipped
          · exact Std.TransCmp.lt_trans flipped (first e he)
        have found : lookup k' ((k', v') :: rest') = some v' := by simp [lookup]
        rw [← same k', absent] at found
        cases found
      | eq =>
        obtain rfl := Std.LawfulEqCmp.eq_of_compare order
        have value : v = v' := by simpa [lookup] using same k
        have others : rest = rest' := by
          refine ih tail tail' fun j => ?_
          by_cases here : compare j k = .eq
          · obtain rfl := Std.LawfulEqCmp.eq_of_compare here
            rw [lookup_eq_none_of_lt first, lookup_eq_none_of_lt first']
          · simpa [lookup, here] using same j
        rw [value, others]

omit [DecidableEq κ] in
theorem ext_get? {t u : Table κ ν} (same : ∀ k, t.get? k = u.get? k) : t = u := by
  have entries : t.entries = u.entries := eq_of_lookup_eq t.ascending u.ascending same
  cases t; cases u; cases entries; rfl

end Table

end FlowArchive
