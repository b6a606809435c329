import FlowArchive.Condition.Grammar
import FlowArchive.Condition.Parser

/-!
# The reader accepts the grammar

A list of tokens is read as a condition if and only if the grammar says that it stands for that condition, so it
stands for one at most. Alternatives and conjunctions are both chains of operands between an operator; what is
true of reading chains is proved once, from what is true of reading their operands.
-/

namespace FlowArchive.Condition

variable {joint : Joint} {P : List Token → Condition → Prop} {reader : Reader} {s t rest front : List Token}
  {c d left : Condition} {levels rounds : Nat}

/-! ## Chains -/

/-- A list of tokens is a chain of lists that stand for conditions, grouped to the left. -/
inductive Chained (joint : Joint) (P : List Token → Condition → Prop) : List Token → Condition → Prop where
  | single {s : List Token} {c : Condition} (operand : P s c) : Chained joint P s c
  | more {s t : List Token} {l r : Condition} (left : Chained joint P s l) (right : P t r) :
      Chained joint P (s ++ joint.token :: t) (joint.join l r)

theorem IsConjunction.chained {s : List Token} {c : Condition} :
    IsConjunction levels s c → Chained .and (IsOperand levels) s c
  | .single operand => .single operand
  | .more left right => .more left.chained right

theorem Chained.isConjunction (chained : Chained .and (IsOperand levels) s c) : IsConjunction levels s c := by
  induction chained with
  | single operand => exact .single operand
  | more _ right ih => exact .more ih right

theorem IsAlternatives.chained {s : List Token} {c : Condition} :
    IsAlternatives levels s c → Chained .or (IsConjunction levels) s c
  | .single conjunction => .single conjunction
  | .more left right => .more left.chained right

theorem Chained.isAlternatives (chained : Chained .or (IsConjunction levels) s c) : IsAlternatives levels s c := by
  induction chained with
  | single conjunction => exact .single conjunction
  | more _ right ih => exact .more ih right

/-! ## What is read is in the grammar -/

/-- What a reader takes from the front of a list stands for the condition it reads. -/
def Reads (reader : Reader) (P : List Token → Condition → Prop) : Prop :=
  ∀ s rest c, reader s = .ok (c, rest) → ∃ front, s = front ++ rest ∧ P front c

theorem Reads.length_le (reads : Reads reader P) (read : reader s = .ok (c, rest)) : rest.length ≤ s.length := by
  obtain ⟨front, rfl, -⟩ := reads _ _ _ read
  simp

theorem Reads.chainMore (reads : Reads reader P) (before : Chained joint P front left)
    (read : chainMore joint reader rounds left s = .ok (c, rest)) :
    ∃ more, s = more ++ rest ∧ Chained joint P (front ++ more) c := by
  induction rounds generalizing left s front with
  | zero =>
    cases read
    exact ⟨[], rfl, by simpa using before⟩
  | succ rounds ih =>
    cases s with
    | nil =>
      cases read
      exact ⟨[], rfl, by simpa using before⟩
    | cons t s =>
      rw [Condition.chainMore] at read
      by_cases joins : t = joint.token
      · rw [if_pos joins] at read
        cases next : reader s with
        | error flaw => simp [next] at read
        | ok found =>
          obtain ⟨right, behind⟩ := found
          rw [next] at read
          obtain ⟨operand, rfl, stands⟩ := reads _ _ _ next
          obtain ⟨more, rfl, chained⟩ := ih (before.more stands) read
          exact ⟨t :: operand ++ more, by simp, by simpa [joins] using chained⟩
      · rw [if_neg joins] at read
        cases read
        exact ⟨[], rfl, by simpa using before⟩

theorem Reads.chain (reads : Reads reader P) : Reads (chain joint reader) (Chained joint P) := by
  intro s rest c read
  rw [Condition.chain] at read
  cases first : reader s with
  | error flaw => simp [first] at read
  | ok found =>
    obtain ⟨left, behind⟩ := found
    rw [first] at read
    obtain ⟨front, rfl, stands⟩ := reads _ _ _ first
    obtain ⟨more, rfl, chained⟩ := reads.chainMore (.single stands) read
    exact ⟨front ++ more, by simp, chained⟩

theorem Reads.mono {Q : List Token → Condition → Prop} (reads : Reads reader P) (sub : ∀ s c, P s c → Q s c) :
    Reads reader Q := by
  intro s rest c read
  obtain ⟨front, rfl, stands⟩ := reads _ _ _ read
  exact ⟨front, rfl, sub _ _ stands⟩

theorem reads_comparison {name : String} (read : comparison name s = .ok (c, rest)) :
    ∃ front, s = front ++ rest ∧ IsOperand levels (.word name :: front) c := by
  simp only [comparison] at read
  split at read
  · cases read
  · next a known =>
    split at read
    · cases read
    · next op behind =>
      split at read
      · cases read
      · next value behind =>
        cases read
        exact ⟨[.compare op, .word value], rfl, .comparison op known⟩
      · cases read
    · cases read

theorem reads_close {kind : Bracket} (read : close kind c s = .ok (d, rest)) :
    s = .closing kind :: rest ∧ d = c := by
  unfold close at read
  split at read
  · cases read
  · next found behind =>
    split at read
    · next same =>
      cases read
      exact ⟨by rw [same], rfl⟩
    · cases read
  · cases read

theorem reads_conjunction (reads : Reads (operand levels) (IsOperand levels)) :
    Reads (chain .and (operand levels)) (IsConjunction levels) :=
  reads.chain.mono fun _ _ => Chained.isConjunction

theorem reads_alternatives (reads : Reads (operand levels) (IsOperand levels)) :
    Reads (alternatives levels) (IsAlternatives levels) :=
  (reads_conjunction reads).chain.mono fun _ _ => Chained.isAlternatives

theorem reads_operand (levels : Nat) : Reads (operand levels) (IsOperand levels) := by
  -- Each bracket and each negation uses up a level.
  induction levels with
  | zero =>
    intro s rest c read
    cases s with
    | nil => cases read
    | cons t s =>
      cases t with
      | word name =>
        obtain ⟨front, rfl, stands⟩ := reads_comparison read
        exact ⟨.word name :: front, rfl, stands⟩
      | _ => cases read
  | succ levels ih =>
    intro s rest c read
    cases s with
    | nil => cases read
    | cons t s =>
      cases t with
      | word name =>
        obtain ⟨front, rfl, stands⟩ := reads_comparison read
        exact ⟨.word name :: front, rfl, stands⟩
      | not =>
        rw [operand] at read
        cases first : operand levels s with
        | error flaw => simp [first] at read
        | ok found =>
          obtain ⟨inner, behind⟩ := found
          rw [first] at read
          cases read
          obtain ⟨front, rfl, stands⟩ := ih _ _ _ first
          exact ⟨.not :: front, rfl, .negation stands⟩
      | opening kind =>
        rw [operand] at read
        cases first : chain .or (chain .and (operand levels)) s with
        | error flaw => simp [first] at read
        | ok found =>
          obtain ⟨inner, behind⟩ := found
          rw [first] at read
          obtain ⟨rfl, rfl⟩ := reads_close read
          obtain ⟨front, rfl, stands⟩ := reads_alternatives ih _ _ _ first
          exact ⟨.opening kind :: front ++ [.closing kind], by simp, .bracketed kind stands⟩
      | _ => cases read

/-! ## Rounds do not matter -/

/-- A chain ends before its rounds do, so one number of rounds is as good as another. -/
theorem chainMore_congr {more : Nat} (reads : Reads reader P) (enough : s.length ≤ rounds) (also : s.length ≤ more) :
    chainMore joint reader rounds left s = chainMore joint reader more left s := by
  induction rounds generalizing more left s with
  | zero =>
    obtain rfl := List.length_eq_zero_iff.1 (Nat.le_zero.1 enough)
    cases more <;> rfl
  | succ rounds ih =>
    cases s with
    | nil => cases more <;> rfl
    | cons t s =>
      cases more with
      | zero => cases also
      | succ more =>
        rw [List.length_cons, Nat.succ_le_succ_iff] at enough also
        rw [chainMore, chainMore]
        by_cases joins : t = joint.token
        · rw [if_pos joins, if_pos joins]
          cases next : reader s with
          | error flaw => rfl
          | ok found =>
            have shorter := reads.length_le next
            exact ih (Nat.le_trans shorter enough) (Nat.le_trans shorter also)
        · rw [if_neg joins, if_neg joins]

/-! ## What is in the grammar is read -/

/-- A reader takes what stands for a condition from the front of a list, if it can stop at what follows. -/
def Accepts (reader : Reader) (P : List Token → Condition → Prop) (stops : List Token → Prop) : Prop :=
  ∀ s rest c, P s c → stops rest → reader (s ++ rest) = .ok (c, rest)

/-- A chain that was read so far goes on with what follows. -/
theorem chain_append {stops : List Token → Prop} (reads : Reads reader P) (accepts : Accepts reader P stops)
    (goesOn : ∀ t, stops (joint.token :: t)) (chained : Chained joint P s c) (stop : stops rest) :
    chain joint reader (s ++ rest) = chainMore joint reader rest.length c rest := by
  induction chained generalizing rest with
  | single operand => rw [chain, accepts _ _ _ operand stop]
  | @more s t l r before right ih =>
    have longer : rest.length ≤ (t ++ rest).length := by simp
    rw [List.append_assoc, List.cons_append, ih (goesOn _), List.length_cons, chainMore, if_pos rfl,
      accepts _ _ _ right stop]
    exact chainMore_congr reads longer (Nat.le_refl _)

theorem chainMore_stop (stop : rest.head? ≠ some joint.token) :
    chainMore joint reader rounds c rest = .ok (c, rest) := by
  cases rounds with
  | zero => rfl
  | succ rounds =>
    cases rest with
    | nil => rfl
    | cons t rest =>
      have other : t ≠ joint.token := by simpa using stop
      rw [chainMore, if_neg other]

/-- A chain stops where neither its operator follows nor an operand goes on. -/
theorem Accepts.chain {stops : List Token → Prop} (accepts : Accepts reader P stops) (reads : Reads reader P)
    (goesOn : ∀ t, stops (joint.token :: t)) :
    Accepts (chain joint reader) (Chained joint P) fun rest => stops rest ∧ rest.head? ≠ some joint.token := by
  intro s rest c chained stop
  rw [chain_append reads accepts goesOn chained stop.1, chainMore_stop stop.2]

theorem accepts_alternatives (accepts : Accepts (operand levels) (IsOperand levels) fun _ => True) :
    Accepts (alternatives levels) (IsAlternatives levels)
      fun rest => rest.head? ≠ some .and ∧ rest.head? ≠ some .or := by
  have conjunctions : Accepts (chain .and (operand levels)) (IsConjunction levels)
      fun rest => rest.head? ≠ some .and := by
    intro s rest c conjunction stop
    exact accepts.chain (reads_operand levels) (fun _ => trivial) _ _ _ conjunction.chained ⟨trivial, stop⟩
  intro s rest c stands stop
  exact conjunctions.chain (reads_conjunction (reads_operand levels)) (fun _ => by simp [Joint.token])
    _ _ _ stands.chained stop

theorem accepts_operand (levels : Nat) : Accepts (operand levels) (IsOperand levels) fun _ => True := by
  induction levels with
  | zero =>
    rintro s rest c (⟨op, known⟩ | _ | _) -
    simp [operand, comparison, known]
  | succ levels ih =>
    rintro s rest c (⟨op, known⟩ | inner | ⟨kind, inner⟩) -
    · simp [operand, comparison, known]
    · have read := ih _ rest _ inner trivial
      simp [operand, read]
    · have read := accepts_alternatives ih _ (.closing kind :: rest) _ inner (by simp)
      rw [alternatives] at read
      simp [operand, read, close]

/-! ## Reading whole lists -/

theorem ofTokens_eq_ok_iff : ofTokens s = .ok c ↔ IsAlternatives maxNesting s c := by
  constructor
  · intro read
    rw [ofTokens] at read
    split at read
    · cases read
    · next d all =>
      cases read
      obtain ⟨front, rfl, stands⟩ := reads_alternatives (reads_operand maxNesting) _ _ _ all
      simpa using stands
    · cases read
  · intro stands
    have read := accepts_alternatives (accepts_operand maxNesting) _ [] _ stands (by simp)
    rw [List.append_nil] at read
    rw [ofTokens, read]

/-- Reading accepts what the grammar derives under at most 256 brackets and negations, and gives the tree of the
derivation, of which there is one at most. It fails on every other list, and on none because of its rounds. -/
theorem reads_exactly_grammar (s : List Token) :
    (∀ c, ofTokens s = .ok c ↔ IsAlternatives 256 s c) ∧
    (∀ c d, IsAlternatives 256 s c → IsAlternatives 256 s d → c = d) ∧
    ((∃ flaw, ofTokens s = .error flaw) ↔ ¬ ∃ c, IsAlternatives 256 s c) ∧
    ∀ levels rounds left, s.length ≤ rounds →
      chainMore .and (operand levels) rounds left s = chainMore .and (operand levels) s.length left s ∧
      chainMore .or (chain .and (operand levels)) rounds left s =
        chainMore .or (chain .and (operand levels)) s.length left s := by
  have accepted : ∀ c, ofTokens s = .ok c ↔ IsAlternatives 256 s c := fun _ => ofTokens_eq_ok_iff
  refine ⟨accepted, ?_, ?_, ?_⟩
  · intro c d one other
    have same := ((accepted c).2 one).symm.trans ((accepted d).2 other)
    injection same
  · simp only [← accepted]
    cases ofTokens s <;> simp
  · intro levels rounds left enough
    have operands := reads_operand levels
    have conjunctions := reads_conjunction operands
    exact ⟨chainMore_congr operands enough (Nat.le_refl _), chainMore_congr conjunctions enough (Nat.le_refl _)⟩

/-- Brackets leave no node, and a negation binds tighter than a conjunction. -/
theorem reads_exactly_grammar_brackets :
    let s := [Token.opening .round, .not, .word "proto", .compare .eq, .word "tcp", .and, .word "dport", .compare .gt,
      .word "80", .closing .round]
    let c := Condition.and (.not (.compare .protocol .eq "tcp")) (.compare .port .gt "80")
    ofTokens s = .ok c ∧ IsAlternatives 256 s c := by
  intro s c
  have read : ofTokens s = .ok c := by rfl
  exact ⟨read, ((reads_exactly_grammar s).1 c).1 read⟩

end FlowArchive.Condition
