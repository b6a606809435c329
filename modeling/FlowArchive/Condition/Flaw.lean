import FlowArchive.Condition.Tree
import FlowArchive.Text.Decimal
import FlowArchive.Text.Quoted

/-!
# Flaws of conditions

What can be wrong with a condition, from its brackets to the values it names, and how each flaw is worded.
-/

namespace FlowArchive.Condition

/-- The number of brackets and negations that may enclose a comparison. -/
def maxNesting : Nat := 256

/-- Why a condition is refused. -/
inductive Flaw where
  | tooDeep
  | trailing (t : Token)
  | mismatched (opened closed : Bracket)
  | expectedClosing (opened : Bracket) (found : Token)
  | unclosed (opened : Bracket)
  | expectedAttribute (found : Token)
  | unexpectedEnd
  | unknownAttribute (name : String)
  | expectedComparison (name : String) (found : Token)
  | missingComparison (name : String)
  | expectedValue (name : String) (op : Comparison) (found : Token)
  | missingValue (name : String) (op : Comparison)
  /-- An address attribute is compared by order. -/
  | unordered (a : Attribute) (op : Comparison)
  /-- An address attribute that stands for no other is compared by order. -/
  | unorderedTest (a : Attribute)
  | unexpanded (a : Attribute)
  | unknownHost (name : String)
  /-- The look-up of a host failed for a reason. -/
  | unresolvable (name reason : String)
  | invalidNetwork (value : String)
  | invalidPort (value : String)
  | unknownProtocol (value : String)
  /-- A flaw worded by whoever found it. -/
  | other (text : String)
deriving DecidableEq, Repr

/-- How a message shows a token. -/
def describe : Token → String
  | .opening k => "'" ++ k.opening.toString ++ "'"
  | .closing k => "'" ++ k.closing.toString ++ "'"
  | .not => "'!'"
  | .and => "'&'"
  | .or => "'|'"
  | .compare op => "'" ++ op.symbol ++ "'"
  | .word s => Text.quoted s

def Flaw.message : Flaw → String
  | tooDeep => "Condition nested too deeply (more than " ++ Decimal.text maxNesting ++ " levels)"
  | trailing t => "Unexpected " ++ describe t ++ " after complete condition"
  | mismatched o c =>
    "Mismatched brackets: " ++ o.opening.toString ++ " closed by " ++ c.closing.toString
  | expectedClosing o t => "Expected " ++ o.closing.toString ++ " but found " ++ describe t
  | unclosed o => "Missing closing " ++ o.closing.toString
  | expectedAttribute t => "Expected attribute but found " ++ describe t
  | unexpectedEnd => "Unexpected end of condition"
  | unknownAttribute name => "Unknown attribute: " ++ name
  | expectedComparison name t => "Expected comparator after " ++ name ++ " but found " ++ describe t
  | missingComparison name => "Missing comparator after " ++ name
  | expectedValue name op t =>
    "Expected value after " ++ name ++ " " ++ op.symbol ++ " but found " ++ describe t
  | missingValue name op => "Missing value after " ++ name ++ " " ++ op.symbol
  | unordered a op => "Attribute " ++ a.name ++ " only supports = and !=, got " ++ op.symbol
  | unorderedTest a => "Attribute " ++ a.name ++ " only supports = and !="
  | unexpanded a => "Alias " ++ a.name ++ " must be expanded before compilation"
  | unknownHost name => "Cannot resolve host " ++ name
  | unresolvable name reason => "Cannot resolve host " ++ name ++ ": " ++ reason
  | invalidNetwork value => "Invalid network: " ++ value
  | invalidPort value => "Invalid port: " ++ value
  | unknownProtocol value => "Unknown protocol: " ++ value
  | other text => text

end FlowArchive.Condition
