import FlowArchive.Condition.Flaw

/-!
# Reading conditions

Alternatives bind weakest, then conjunctions, then negations; chains of one operator group to the left, and
brackets leave no node. The reader counts the brackets and negations around a term down from the greatest
number that is allowed, so it ends on every list of tokens.
-/

namespace FlowArchive.Condition

/-- A reader takes a condition from the front of a token list and hands on the rest. -/
abbrev Reader := List Token → Except Flaw (Condition × List Token)

/-- The operators that join two conditions. -/
inductive Joint where
  | and
  | or
deriving DecidableEq, Repr

namespace Joint

def token : Joint → Token
  | and => .and
  | or => .or

def join : Joint → Condition → Condition → Condition
  | and => Condition.and
  | or => Condition.or

end Joint

/-- Reads more operands of a chain as long as its operator follows. Each takes at least its operator, so as
many rounds as there are tokens suffice. -/
def chainMore (joint : Joint) (operand : Reader) : (rounds : Nat) → Condition → Reader
  | 0, left, s => .ok (left, s)
  | _ + 1, left, [] => .ok (left, [])
  | rounds + 1, left, t :: s =>
    if t = joint.token then
      match operand s with
      | .error flaw => .error flaw
      | .ok (right, rest) => chainMore joint operand rounds (joint.join left right) rest
    else .ok (left, t :: s)

def chain (joint : Joint) (operand : Reader) : Reader := fun s =>
  match operand s with
  | .error flaw => .error flaw
  | .ok (left, rest) => chainMore joint operand rest.length left rest

/-- Reads what follows the word that opens a comparison. -/
def comparison (name : String) : Reader := fun s =>
  match Attribute.ofName? name with
  | none => .error (.unknownAttribute name)
  | some a =>
    match s with
    | [] => .error (.missingComparison name)
    | .compare op :: rest =>
      match rest with
      | [] => .error (.missingValue name op)
      | .word value :: rest => .ok (.compare a op value, rest)
      | t :: _ => .error (.expectedValue name op t)
    | t :: _ => .error (.expectedComparison name t)

/-- Reads the bracket that closes a condition. -/
def close (kind : Bracket) (inner : Condition) : Reader
  | [] => .error (.unclosed kind)
  | .closing found :: rest => if found = kind then .ok (inner, rest) else .error (.mismatched kind found)
  | t :: _ => .error (.expectedClosing kind t)

/-- Reads a comparison, a negation or a condition in brackets, under at most `levels` more brackets and
negations. -/
def operand : (levels : Nat) → Reader
  | _, [] => .error .unexpectedEnd
  | 0, .not :: _ => .error .tooDeep
  | levels + 1, .not :: s =>
    match operand levels s with
    | .error flaw => .error flaw
    | .ok (inner, rest) => .ok (.not inner, rest)
  | 0, .opening _ :: _ => .error .tooDeep
  | levels + 1, .opening kind :: s =>
    match chain .or (chain .and (operand levels)) s with
    | .error flaw => .error flaw
    | .ok (inner, rest) => close kind inner rest
  | _, .word name :: s => comparison name s
  | _, t :: _ => .error (.expectedAttribute t)

def alternatives (levels : Nat) : Reader := chain .or (chain .and (operand levels))

def ofTokens (s : List Token) : Except Flaw Condition :=
  match alternatives maxNesting s with
  | .error flaw => .error flaw
  | .ok (c, []) => .ok c
  | .ok (_, t :: _) => .error (.trailing t)

/-- Reads a text; a blank one states no condition. -/
def ofText (s : String) : Except Flaw (Option Condition) :=
  match Token.scan s with
  | [] => .ok none
  | t :: rest => (ofTokens (t :: rest)).map some

end FlowArchive.Condition
