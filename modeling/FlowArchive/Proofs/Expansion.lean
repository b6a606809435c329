import FlowArchive.Condition.Predicate
import FlowArchive.Proofs.PrintedConditions

/-!
# Expanded conditions

Expansion fails if and only if a comparison is one that its attribute does not support. What it gives has no attribute
left that stands for either end, and expanding it again changes nothing.
-/

namespace FlowArchive

namespace Condition

variable {c d l r : Condition} {a : Attribute} {op : Comparison} {flaw : Flaw}

/-- The comparisons of a condition from left to right: what is compared, how, and with what. -/
def comparisons : Condition → List (Attribute × Comparison × String)
  | compare a op value => [(a, op, value)]
  | and l r | or l r => l.comparisons ++ r.comparisons
  | not inner => inner.comparisons

theorem comparisons_join (joint : Joint) : (joint.join l r).comparisons = l.comparisons ++ r.comparisons := by
  cases joint <;> rfl

/-! ## What expansion gives for each node -/

theorem expand_not_eq_ok_iff : (not c).expand = .ok d ↔ ∃ x, c.expand = .ok x ∧ d = not x := by
  rw [expand]
  cases c.expand <;> simp [bind, Except.bind, eq_comm]

theorem expand_not_eq_error_iff : (not c).expand = .error flaw ↔ c.expand = .error flaw := by
  rw [expand]
  cases c.expand <;> simp [bind, Except.bind]

theorem expand_join_eq_ok_iff (joint : Joint) :
    (joint.join l r).expand = .ok d ↔ ∃ x y, l.expand = .ok x ∧ r.expand = .ok y ∧ d = joint.join x y := by
  cases joint <;> simp only [Joint.join, expand] <;> cases l.expand <;> cases r.expand <;>
    simp [bind, Except.bind, eq_comm]

/-- The part on the left is expanded first. -/
theorem expand_join_eq_error_iff (joint : Joint) : (joint.join l r).expand = .error flaw ↔
    l.expand = .error flaw ∨ (∃ x, l.expand = .ok x) ∧ r.expand = .error flaw := by
  cases joint <;> simp only [Joint.join, expand] <;> cases l.expand <;> cases r.expand <;>
    simp [bind, Except.bind]

theorem expand_unsupported (unsupported : a.supports op = false) (value : String) :
    (compare a op value).expand = .error (.unordered a op) := by
  simp [expand, unsupported]

theorem expand_own (own : ends? a = none) (supported : a.supports op = true) (value : String) :
    (compare a op value).expand = .ok (compare a op value) := by
  simp [expand, own, supported]

/-- Either end has the value for equality, and both differ from it for inequality. -/
theorem expand_ends {first second : Attribute} (ends : ends? a = some (first, second))
    (supported : a.supports op = true) (value : String) : ∃ joint : Joint, (compare a op value).expand =
      .ok (joint.join (compare first op value) (compare second op value)) := by
  rw [expand, if_pos supported, ends]
  dsimp only
  split
  · exact ⟨.or, rfl⟩
  · exact ⟨.and, rfl⟩

/-! ## When expansion fails -/

/-- Some comparison is one that its attribute does not support. -/
def HasUnsupported (c : Condition) : Prop := ∃ x ∈ c.comparisons, x.1.supports x.2.1 = false

theorem hasUnsupported_join (joint : Joint) :
    (joint.join l r).HasUnsupported ↔ l.HasUnsupported ∨ r.HasUnsupported := by
  simp only [HasUnsupported, comparisons_join, List.mem_append, or_and_right, exists_or]

theorem expand_compare_isOk (supported : a.supports op = true) (value : String) :
    ∃ d, (compare a op value).expand = .ok d := by
  cases ends : ends? a with
  | none => exact ⟨_, expand_own ends supported value⟩
  | some pair =>
    obtain ⟨joint, expanded⟩ := expand_ends ends supported value
    exact ⟨_, expanded⟩

/-- The flaw names the comparison that is not supported. -/
theorem exists_of_expand_eq_error (failed : c.expand = .error flaw) :
    ∃ x ∈ c.comparisons, x.1.supports x.2.1 = false ∧ flaw = .unordered x.1 x.2.1 := by
  induction c using byJoint with
  | compare a op value =>
    cases supported : a.supports op with
    | true =>
      obtain ⟨d, expanded⟩ := expand_compare_isOk supported value
      rw [expanded] at failed
      cases failed
    | false =>
      rw [expand_unsupported supported] at failed
      cases failed
      exact ⟨_, List.mem_cons_self, supported, rfl⟩
  | not inner ih => exact ih (expand_not_eq_error_iff.1 failed)
  | join joint l r left right =>
    rw [comparisons_join]
    rcases (expand_join_eq_error_iff joint).1 failed with first | ⟨-, second⟩
    · obtain ⟨x, member, flawed⟩ := left first
      exact ⟨x, List.mem_append_left _ member, flawed⟩
    · obtain ⟨x, member, flawed⟩ := right second
      exact ⟨x, List.mem_append_right _ member, flawed⟩

theorem exists_expand_eq_error (unsupported : c.HasUnsupported) : ∃ flaw, c.expand = .error flaw := by
  induction c using byJoint with
  | compare a op value =>
    obtain ⟨x, member, unsupported⟩ := unsupported
    cases List.mem_singleton.1 member
    exact ⟨_, expand_unsupported unsupported value⟩
  | not inner ih =>
    obtain ⟨flaw, failed⟩ := ih unsupported
    exact ⟨flaw, expand_not_eq_error_iff.2 failed⟩
  | join joint l r left right =>
    simp only [expand_join_eq_error_iff]
    cases first : l.expand with
    | error flaw => exact ⟨flaw, .inl rfl⟩
    | ok x =>
      rcases (hasUnsupported_join joint).1 unsupported with inLeft | inRight
      · obtain ⟨flaw, failed⟩ := left inLeft
        rw [first] at failed
        cases failed
      · obtain ⟨flaw, failed⟩ := right inRight
        exact ⟨flaw, .inr ⟨⟨x, rfl⟩, failed⟩⟩

theorem expand_fails_iff : (∃ flaw, c.expand = .error flaw) ↔ c.HasUnsupported := by
  refine ⟨fun ⟨flaw, failed⟩ => ?_, exists_expand_eq_error⟩
  obtain ⟨x, member, unsupported, -⟩ := exists_of_expand_eq_error failed
  exact ⟨x, member, unsupported⟩

/-! ## What expansion leaves -/

/-- Every comparison is supported and of an attribute that stands for itself. -/
def IsExpanded (c : Condition) : Prop := ∀ x ∈ c.comparisons, x.1.supports x.2.1 = true ∧ ends? x.1 = none

theorem isExpanded_compare (value : String) :
    (compare a op value).IsExpanded ↔ a.supports op = true ∧ ends? a = none := by
  simp [IsExpanded, comparisons]

theorem isExpanded_join (joint : Joint) : (joint.join l r).IsExpanded ↔ l.IsExpanded ∧ r.IsExpanded := by
  rw [IsExpanded, comparisons_join, List.forall_mem_append]
  exact Iff.rfl

/-- Each of the two ends that an attribute stands for stands for itself, and supports what the attribute does. -/
theorem isExpanded_end {first second : Attribute} (ends : ends? a = some (first, second))
    (supported : a.supports op = true) (value : String) :
    (compare first op value).IsExpanded ∧ (compare second op value).IsExpanded := by
  rw [isExpanded_compare, isExpanded_compare]
  cases a with
  | host | net =>
    cases ends
    exact ⟨⟨supported, rfl⟩, supported, rfl⟩
  | _ => cases ends

theorem isExpanded_of_expand (expanded : c.expand = .ok d) : d.IsExpanded := by
  induction c using byJoint generalizing d with
  | compare a op value =>
    cases supported : a.supports op with
    | false =>
      rw [expand_unsupported supported] at expanded
      cases expanded
    | true =>
      cases ends : ends? a with
      | none =>
        rw [expand_own ends supported] at expanded
        cases expanded
        exact (isExpanded_compare value).2 ⟨supported, ends⟩
      | some pair =>
        obtain ⟨joint, both⟩ := expand_ends ends supported value
        rw [both] at expanded
        cases expanded
        exact (isExpanded_join joint).2 (isExpanded_end ends supported value)
  | not inner ih =>
    obtain ⟨x, inside, rfl⟩ := expand_not_eq_ok_iff.1 expanded
    have same : x.IsExpanded := ih inside
    exact same
  | join joint l r left right =>
    obtain ⟨x, y, first, second, rfl⟩ := (expand_join_eq_ok_iff joint).1 expanded
    exact (isExpanded_join joint).2 ⟨left first, right second⟩

theorem IsExpanded.expand (expanded : c.IsExpanded) : c.expand = .ok c := by
  induction c using byJoint with
  | compare a op value =>
    obtain ⟨supported, own⟩ := (isExpanded_compare value).1 expanded
    exact expand_own own supported value
  | not inner ih => exact expand_not_eq_ok_iff.2 ⟨inner, ih expanded, rfl⟩
  | join joint l r left right =>
    obtain ⟨first, second⟩ := (isExpanded_join joint).1 expanded
    exact (expand_join_eq_ok_iff joint).2 ⟨l, r, left first, right second, rfl⟩

end Condition

end FlowArchive
