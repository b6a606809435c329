import FlowArchive.Proofs.ConditionMeaning
import FlowArchive.Proofs.Expansion

/-!
# How high conditions are

Brackets and negations are limited, but a chain of operands is not: each of its operators puts the tree of what was read
so far under one more node. So the tree of a text that is read is no higher than the limit and the number of operators
in the text allow, and what walks down the tree, or down what it is expanded and compiled to, goes no deeper than that.
No smaller bound holds for any number of operators, and none holds for all.
-/

namespace FlowArchive

/-- A token joins two conditions. -/
def Token.joins : Token → Bool
  | .and | .or => true
  | _ => false

/-- The number of nodes and tests on the longest way from the root of a predicate to a leaf. -/
def Predicate.height : Predicate → Nat
  | any | test _ => 1
  | not inner => inner.height + 1
  | and l r | or l r => max l.height r.height + 1
  | every _ | some _ => 2

namespace Condition

variable {s t : List Token} {c d l r : Condition} {levels : Nat} {joint : Joint}

/-! ## Trees that are read -/

/-- The number of tokens that join conditions. -/
def joints (s : List Token) : Nat := s.countP Token.joins

theorem joints_joined (joint : Joint) (s t : List Token) :
    joints (s ++ joint.token :: t) = joints s + joints t + 1 := by
  have joins : Token.joins joint.token = true := by cases joint <;> rfl
  rw [joints, List.countP_append, List.countP_cons_of_pos joins, ← Nat.add_assoc]
  rfl

theorem height_join (joint : Joint) : (joint.join l r).height = max l.height r.height + 1 := by
  cases joint <;> rfl

/-- A tree is no higher than its levels and its operators allow. -/
def IsLow (levels : Nat) (s : List Token) (c : Condition) : Prop := c.height ≤ levels + 1 + joints s

theorem IsLow.join (left : IsLow levels s l) (right : IsLow levels t r) :
    IsLow levels (s ++ joint.token :: t) (joint.join l r) := by
  rw [IsLow] at left right
  rw [IsLow, height_join, joints_joined]
  omega

theorem IsOperand.isLow (operand : IsOperand levels s c) : IsLow levels s c := by
  -- Each bracket and each negation uses up a level.
  induction levels generalizing s c with
  | zero =>
    obtain ⟨op, known⟩ := operand
    exact Nat.le_add_right _ _
  | succ levels ih =>
    obtain ⟨op, known⟩ | inner | ⟨kind, inner⟩ := operand
    · simp only [IsLow, height]
      omega
    · have low : _ ≤ _ := ih inner
      simp only [IsLow, height, joints, List.countP_cons, Token.joins] at low ⊢
      omega
    · have low : _ ≤ _ := inner.chained.all (fun s c conjunction => conjunction.chained.all
        (fun s c operand => ih operand) fun _ _ _ _ => IsLow.join) fun _ _ _ _ => IsLow.join
      simp only [IsLow, joints, List.cons_append, List.countP_cons, List.countP_append, Token.joins] at low ⊢
      omega

theorem IsAlternatives.isLow (alternatives : IsAlternatives levels s c) : IsLow levels s c :=
  alternatives.chained.all (fun _ _ conjunction => conjunction.chained.all (fun _ _ operand => operand.isLow)
    fun _ _ _ _ => IsLow.join) fun _ _ _ _ => IsLow.join

/-! ## What trees are expanded and compiled to -/

/-- Expansion puts a node on top of two comparisons in place of one. -/
theorem height_expand (expanded : c.expand = .ok d) : d.height ≤ c.height + 1 := by
  induction c using byJoint generalizing d with
  | compare a op value =>
    cases supported : a.supports op with
    | false =>
      rw [expand_unsupported supported] at expanded
      cases expanded
    | true =>
      cases ends : ends? a with
      | none =>
        rw [expand_own ends supported] at expanded
        cases expanded
        exact Nat.le_succ _
      | some pair =>
        obtain ⟨joint, both⟩ := expand_ends ends supported value
        rw [both] at expanded
        cases expanded
        exact (height_join joint).le
  | not inner ih =>
    obtain ⟨x, inside, rfl⟩ := expand_not_eq_ok_iff.1 expanded
    have low := ih inside
    simp only [height]
    omega
  | join joint l r left right =>
    obtain ⟨x, y, first, second, rfl⟩ := (expand_join_eq_ok_iff joint).1 expanded
    have low := left first
    have low' := right second
    rw [height_join, height_join]
    omega

end Condition

namespace Predicate

variable {hosts : Resolver} {c : Condition} {p : Predicate}

theorem ofExpanded_not : ofExpanded hosts (.not c) = .ok p ↔ ∃ q, ofExpanded hosts c = .ok q ∧ p = not q := by
  rw [ofExpanded]
  cases ofExpanded hosts c <;> simp [bind, Except.bind, eq_comm]

/-- The tests of the addresses of a host lie under one node. -/
theorem height_ofHost {e : FlowEnd} {value : String} {negated : Bool} (compiled : ofHost hosts e value negated = .ok p) :
    p.height ≤ 2 := by
  unfold ofHost at compiled
  split at compiled
  · cases compiled
    exact Nat.le_succ 1
  · split at compiled
    · cases compiled
    · cases compiled
      cases negated <;> exact Nat.le_refl 2

theorem height_ofNetwork {e : FlowEnd} {value : String} {negated : Bool}
    (compiled : ofNetwork e value negated = .ok p) : p.height ≤ 2 := by
  unfold ofNetwork at compiled
  split at compiled
  · cases compiled
    exact Nat.le_succ 1
  · cases compiled

theorem height_ofComparison {a : Attribute} {op : Comparison} {value : String}
    (compiled : ofComparison hosts a op value = .ok p) : p.height ≤ 2 := by
  unfold ofComparison at compiled
  split at compiled
  next =>
    cases a with
    | source | destination => exact height_ofHost compiled
    | sourceNet | destinationNet => exact height_ofNetwork compiled
    | port | protocol =>
      dsimp only at compiled
      split at compiled
      · cases compiled
        exact Nat.le_succ 1
      · cases compiled
    | host | net => cases compiled
  next => cases compiled

theorem height_ofExpanded (compiled : ofExpanded hosts c = .ok p) : p.height ≤ c.height + 1 := by
  induction c generalizing p with
  | compare a op value => exact height_ofComparison compiled
  | not inner ih =>
    obtain ⟨q, inside, rfl⟩ := ofExpanded_not.1 compiled
    have low := ih inside
    simp only [height, Condition.height]
    omega
  | and l r left right =>
    obtain ⟨q, s, first, second, rfl⟩ := ofExpanded_and.1 compiled
    have low := left first
    have low' := right second
    simp only [height, Condition.height]
    omega
  | or l r left right =>
    obtain ⟨q, s, first, second, rfl⟩ := ofExpanded_or.1 compiled
    have low := left first
    have low' := right second
    simp only [height, Condition.height]
    omega

theorem height_ofCondition (compiled : ofCondition hosts c = .ok p) : p.height ≤ c.height + 2 := by
  unfold ofCondition at compiled
  split at compiled
  · cases compiled
  next d expanded =>
    have low := Condition.height_expand expanded
    have low' := height_ofExpanded compiled
    omega

end Predicate

namespace Condition

variable {s : String} {c : Condition}

/-! ## Trees of every height -/

theorem ofText_of_isAlternatives (stands : IsAlternatives maxNesting (Token.scan s) c) : ofText s = .ok (some c) := by
  have read := ofTokens_eq_ok_iff.2 stands
  rw [ofText]
  split
  next empty =>
    rw [empty] at read
    cases read
  next t rest scanned =>
    rw [← scanned, read]
    rfl

/-- A comparison under a number of negations. -/
theorem exists_negated (n : Nat) : ∃ letters ts c, (∀ rest, (letters ++ rest).head? ≠ some '=') ∧ Scans letters ts ∧
    IsOperand n ts c ∧ joints ts = 0 ∧ c.height = n + 1 := by
  induction n with
  | zero =>
    have row : Token.IsRow "1" := ⟨by decide, List.all_eq_true.1 rfl⟩
    have one : Token.ofValue "1" = .word "1" := by decide
    have scans := scans_comparison .port .eq row
    rw [one] at scans
    exact ⟨_, _, _, by simp [Attribute.name], scans, .comparison .eq (Attribute.ofName?_name .port), rfl, rfl⟩
  | succ n ih =>
    obtain ⟨letters, ts, c, first, scans, operand, none, height⟩ := ih
    refine ⟨'!' :: letters, .not :: ts, .not c, by simp, scans_negation scans first, .negation operand, ?_, ?_⟩
    · simpa [joints, Token.joins] using none
    · rw [Condition.height, height]

/-- A comparison under all negations that are allowed opens a chain of operands. -/
theorem exists_chained (n : Nat) : ∃ letters ts c, Scans letters ts ∧ IsConjunction maxNesting ts c ∧ joints ts = n ∧
    c.height = 257 + n := by
  induction n with
  | zero =>
    obtain ⟨letters, ts, c, -, scans, operand, none, height⟩ := exists_negated maxNesting
    exact ⟨letters, ts, c, scans, .single operand, none, height⟩
  | succ n ih =>
    obtain ⟨letters, ts, c, scans, conjunction, counted, height⟩ := ih
    obtain ⟨letters', ts', c', -, scans', operand', none', height'⟩ := exists_negated 0
    have deeper : IsOperand maxNesting ts' c' := by
      cases operand' with
      | comparison op known => exact .comparison op known
    have listed : (['&'], Token.and) ∈ Token.symbols := by decide
    refine ⟨_, _, .and c c', scans_joined listed scans scans', .more conjunction deeper, ?_, ?_⟩
    · have counted' := joints_joined .and ts ts'
      rwa [counted, none'] at counted'
    · rw [Condition.height, height, height']
      omega

theorem exists_high (n : Nat) :
    ∃ s c, ofText s = .ok (some c) ∧ joints (Token.scan s) = n ∧ c.height = 257 + n := by
  obtain ⟨letters, ts, c, scans, conjunction, counted, height⟩ := exists_chained n
  have scanned : Token.scan (String.ofList letters) = ts := by
    have whole := scans none [] rfl
    rw [List.append_nil, Lexeme.scan_nil, List.map_nil, List.append_nil] at whole
    rw [Token.scan, String.toList_ofList, whole]
  refine ⟨String.ofList letters, c, ofText_of_isAlternatives ?_, by rw [scanned, counted], height⟩
  rw [scanned]
  exact .single conjunction

/-- No bound holds for the trees of all texts that are read. -/
theorem height_unbounded : ¬ ∃ bound, ∀ s c, ofText s = .ok (some c) → c.height ≤ bound := by
  rintro ⟨bound, low⟩
  obtain ⟨s, c, read, -, height⟩ := exists_high bound
  have below := low s c read
  omega

/-- The tree of a text that is read is at most 257 nodes high, and one more for each operator in the text that joins two
conditions. What it is expanded to is one node higher at most, and the predicate that it is compiled to two. Some text
reaches the bound, for every number of operators. -/
theorem height_le_operators :
    (∀ s c, ofText s = .ok (some c) → c.height ≤ 257 + joints (Token.scan s) ∧
      (∀ d, c.expand = .ok d → d.height ≤ 258 + joints (Token.scan s)) ∧
      ∀ hosts p, Predicate.ofCondition hosts c = .ok p → p.height ≤ 259 + joints (Token.scan s)) ∧
    ∀ n, ∃ s c, ofText s = .ok (some c) ∧ joints (Token.scan s) = n ∧ c.height = 257 + n := by
  refine ⟨fun s c read => ?_, exists_high⟩
  have low : c.height ≤ 257 + joints (Token.scan s) := (isAlternatives_of_ofText read).isLow
  refine ⟨low, fun d expanded => ?_, fun hosts p compiled => ?_⟩
  · have more := height_expand expanded
    omega
  · have more := Predicate.height_ofCondition compiled
    omega

/-- Either end of a flow under a negation, joined with a port. -/
theorem height_le_operators_either_end :
    let s := "!host=a&dport>80"
    let c := Condition.and (.not (.compare .host .eq "a")) (.compare .port .gt "80")
    ofText s = .ok (some c) ∧ c.height ≤ 257 + joints (Token.scan s) ∧
      (∀ d, c.expand = .ok d → d.height ≤ 258 + joints (Token.scan s)) ∧
      ∀ hosts p, Predicate.ofCondition hosts c = .ok p → p.height ≤ 259 + joints (Token.scan s) := by
  intro s c
  have scanned : Token.scan s = [.not, .word "host", .compare .eq, .word "a", .and, .word "dport", .compare .gt,
      .word "80"] := by
    decide +kernel
  have read : ofText s = .ok (some c) := by
    rw [ofText, scanned]
    rfl
  exact ⟨read, height_le_operators.1 s c read⟩

end Condition

end FlowArchive
