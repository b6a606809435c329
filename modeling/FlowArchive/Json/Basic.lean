import FlowArchive.Text.Quoted
import FlowArchive.Text.Shortest

/-!
# JSON documents

Documents are printed with one member to a line and two blanks for each level; empty arrays and objects take
no line of their own.
-/

namespace FlowArchive

/-- A JSON document. Members of an object stay in their order. -/
inductive Json where
  | integer (i : Int)
  | float (x : Float)
  | string (s : String)
  | array (items : List Json)
  | object (members : List (String × Json))

namespace Json

/-- The document of a natural number. -/
def natural (n : Nat) : Json := integer n

/-- The digits of a control character in four places. -/
def hexPlaces (c : Char) : List Char :=
  let shown := Text.hexDigits c.toNat
  List.replicate (4 - shown.length) '0' ++ shown

/-- The spelling of one character of a string. Quotes, backslashes and controls are escaped. -/
def escapeChar (c : Char) : List Char :=
  match c with
  | '"' => ['\\', '"']
  | '\\' => ['\\', '\\']
  | '\x08' => ['\\', 'b']
  | '\x0c' => ['\\', 'f']
  | '\n' => ['\\', 'n']
  | '\r' => ['\\', 'r']
  | '\t' => ['\\', 't']
  | _ => if c.toNat < 32 then ['\\', 'u'] ++ hexPlaces c else [c]

/-- A text as a string. -/
def printString (s : String) : List Char := ['"'] ++ s.toList.flatMap escapeChar ++ ['"']

/-- A number in its shortest form. What is not a number, or infinite, is null. -/
def printFloat (x : Float) : List Char :=
  if x.isFinite then Decimal.printShortest x else ['n', 'u', 'l', 'l']

def newLine (level : Nat) : List Char := '\n' :: List.replicate (2 * level) ' '

mutual

/-- A document that starts at a level. -/
def printAt (level : Nat) : Json → List Char
  | integer i => Decimal.printInt i
  | float x => printFloat x
  | string s => printString s
  | array [] => ['[', ']']
  | array (item :: rest) =>
    '[' :: newLine (level + 1) ++ printAt (level + 1) item ++ printItems (level + 1) rest ++ newLine level ++
      [']']
  | object [] => ['\x7b', '\x7d']
  | object (m :: rest) =>
    '\x7b' :: newLine (level + 1) ++ printMember (level + 1) m ++ printMembers (level + 1) rest ++
      newLine level ++ ['\x7d']

/-- The items of an array behind the first. -/
def printItems (level : Nat) : List Json → List Char
  | [] => []
  | item :: rest => ',' :: newLine level ++ printAt level item ++ printItems level rest

/-- A member of an object. -/
def printMember (level : Nat) : String × Json → List Char
  | (name, value) => printString name ++ ':' :: ' ' :: printAt level value

/-- The members of an object behind the first. -/
def printMembers (level : Nat) : List (String × Json) → List Char
  | [] => []
  | m :: rest => ',' :: newLine level ++ printMember level m ++ printMembers level rest

end

/-- A document. -/
def print (j : Json) : List Char := printAt 0 j

def text (j : Json) : String := String.ofList j.print

end Json

end FlowArchive
