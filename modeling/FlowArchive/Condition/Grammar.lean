import FlowArchive.Condition.Tree

/-!
# The grammar of conditions

What conditions look like as lists of tokens, said without a reader: alternatives are conjunctions between
bars, conjunctions are operands between ampersands, and an operand is a negated operand, alternatives in
brackets of one kind, or a comparison. A number bounds how many brackets and negations enclose a comparison.
-/

namespace FlowArchive.Condition

mutual

/-- A list of tokens is an operand under at most a number of brackets and negations, and stands for a
condition. -/
inductive IsOperand : (levels : Nat) → List Token → Condition → Prop where
  | comparison {levels : Nat} {name value : String} {a : Attribute} (op : Comparison)
      (known : Attribute.ofName? name = some a) :
      IsOperand levels [.word name, .compare op, .word value] (.compare a op value)
  | negation {levels : Nat} {s : List Token} {c : Condition} (inner : IsOperand levels s c) :
      IsOperand (levels + 1) (.not :: s) (.not c)
  | bracketed {levels : Nat} {s : List Token} {c : Condition} (kind : Bracket)
      (inner : IsAlternatives levels s c) :
      IsOperand (levels + 1) (.opening kind :: s ++ [.closing kind]) c

/-- A list of tokens is operands joined by and. -/
inductive IsConjunction : (levels : Nat) → List Token → Condition → Prop where
  | single {levels : Nat} {s : List Token} {c : Condition} (operand : IsOperand levels s c) :
      IsConjunction levels s c
  | more {levels : Nat} {s t : List Token} {l r : Condition} (left : IsConjunction levels s l)
      (right : IsOperand levels t r) : IsConjunction levels (s ++ .and :: t) (.and l r)

/-- A list of tokens is conjunctions joined by or. -/
inductive IsAlternatives : (levels : Nat) → List Token → Condition → Prop where
  | single {levels : Nat} {s : List Token} {c : Condition} (conjunction : IsConjunction levels s c) :
      IsAlternatives levels s c
  | more {levels : Nat} {s t : List Token} {l r : Condition} (left : IsAlternatives levels s l)
      (right : IsConjunction levels t r) : IsAlternatives levels (s ++ .or :: t) (.or l r)

end

end FlowArchive.Condition
