import FlowArchive.Text.Blank
import FlowArchive.Text.Case

/-!
# Tokens of the condition language

A condition is written with symbols, brackets and words. Every operator has several spellings, which all read
as one token: symbols anywhere, and keywords where they stand alone between blanks, brackets or the ends of
the text. What is neither blank nor an operator nor a bracket is a word and keeps its letters.
-/

namespace FlowArchive

/-- Kinds of brackets; an opening bracket is closed by one of its own kind. -/
inductive Bracket where
  | round
  | square
  | curly
deriving DecidableEq, Repr

namespace Bracket

def opening : Bracket → Char
  | round => '('
  | square => '['
  | curly => '\x7b'

def closing : Bracket → Char
  | round => ')'
  | square => ']'
  | curly => '\x7d'

end Bracket

/-- Comparisons of a value of a flow with a given one. -/
inductive Comparison where
  | eq
  | ne
  | lt
  | le
  | gt
  | ge
deriving DecidableEq, Repr

namespace Comparison

def all : List Comparison := [eq, ne, lt, le, gt, ge]

def symbol : Comparison → String
  | eq => "="
  | ne => "!="
  | lt => "<"
  | le => "<="
  | gt => ">"
  | ge => ">="

/-- Whether two values that stand in an order satisfy the comparison. -/
def admits : Comparison → Ordering → Bool
  | eq, o => o.isEq
  | ne, o => o.isNe
  | lt, o => o.isLT
  | le, o => o.isLE
  | gt, o => o.isGT
  | ge, o => o.isGE

/-- Compares two values. -/
def holds {α : Type} [Ord α] (op : Comparison) (a b : α) : Bool := op.admits (compare a b)

end Comparison

inductive Token where
  | opening (kind : Bracket)
  | closing (kind : Bracket)
  | not
  | and
  | or
  | compare (op : Comparison)
  | word (text : String)
deriving DecidableEq, Repr

namespace Token

/-- The symbols, longer ones before those that open them. -/
def symbols : List (List Char × Token) :=
  [(['=', '=', '='], compare .eq), (['=', '='], compare .eq), (['!', '='], compare .ne),
    (['<', '='], compare .le), (['>', '='], compare .ge), (['&', '&'], and), (['|', '|'], or),
    (['='], compare .eq), (['<'], compare .lt), (['>'], compare .gt), (['!'], not), (['&'], and),
    (['*'], and), (['|'], or), (['+'], or)]

/-- The keywords in small letters. -/
def keywords : List (String × Token) :=
  [("not", not), ("and", and), ("or", or),
    ("eq", compare .eq), ("-eq", compare .eq), ("equals", compare .eq),
    ("neq", compare .ne), ("-neq", compare .ne), ("ne", compare .ne), ("-ne", compare .ne),
    ("le", compare .le), ("-le", compare .le), ("leq", compare .le), ("-leq", compare .le),
    ("ge", compare .ge), ("-ge", compare .ge), ("geq", compare .ge), ("-geq", compare .ge),
    ("less", compare .lt), ("l", compare .lt), ("-l", compare .lt), ("lt", compare .lt), ("-lt", compare .lt),
    ("greater", compare .gt), ("g", compare .gt), ("-g", compare .gt), ("gt", compare .gt), ("-gt", compare .gt)]

def bracket? (c : Char) : Option Token :=
  match c with
  | '(' => some (opening .round)
  | '[' => some (opening .square)
  | '\x7b' => some (opening .curly)
  | ')' => some (closing .round)
  | ']' => some (closing .square)
  | '\x7d' => some (closing .curly)
  | _ => none

def isSymbolChar (c : Char) : Bool := c ∈ ['!', '&', '|', '*', '+', '=', '<', '>']

def isWordChar (c : Char) : Bool := !Text.isBlank c && !isSymbolChar c && (bracket? c).isNone

/-- The longest symbol that opens a text. -/
def symbolAt? (s : List Char) : Option (List Char × Token) := symbols.find? fun e => e.1.isPrefixOf s

/-- The token of a keyword in any letter case. -/
def keyword? (word : List Char) : Option Token :=
  (keywords.find? fun e => e.1.toList == word.map Text.fold).map (·.2)

/-- Whether a word beside this neighbour stands alone. -/
def separates : Option Char → Bool
  | none => true
  | some c => Text.isBlank c || (bracket? c).isSome

/-- The token of a row of word characters between two neighbours. -/
def ofWord (before : Option Char) (letters : List Char) (after : Option Char) : Token :=
  match keyword? letters with
  | some t => if separates before && separates after then t else word (String.ofList letters)
  | none => word (String.ofList letters)

end Token

/-- A token with the characters that it was read from. -/
structure Lexeme where
  token : Token
  spelling : List Char
deriving DecidableEq, Repr

namespace Lexeme

theorem length_dropWhile_le {α : Type} (p : α → Bool) (l : List α) : (l.dropWhile p).length ≤ l.length :=
  (List.dropWhile_sublist p).length_le

/-- Reads the lexemes of a text that follows the character `before`. -/
def scan (before : Option Char) (s : List Char) : List Lexeme :=
  match s with
  | [] => []
  | c :: rest =>
    if Text.isBlank c then scan (some c) rest
    else
      match Token.bracket? c with
      | some t => ⟨t, [c]⟩ :: scan (some c) rest
      | none =>
        match Token.symbolAt? (c :: rest) with
        | some (spelling, t) => ⟨t, spelling⟩ :: scan spelling.getLast? (rest.drop (spelling.length - 1))
        | none =>
          let letters := c :: rest.takeWhile Token.isWordChar
          let after := rest.dropWhile Token.isWordChar
          ⟨Token.ofWord before letters after.head?, letters⟩ :: scan letters.getLast? after
termination_by s.length
decreasing_by
  all_goals simp only [List.length_cons, List.length_drop]
  · omega
  · omega
  · omega
  · exact Nat.lt_succ_of_le (length_dropWhile_le _ _)

end Lexeme

namespace Token

/-- The tokens of a text. -/
def scan (s : String) : List Token := (Lexeme.scan none s.toList).map (·.token)

/-! ## Spellings -/

/-- A list of characters is a spelling of a token: a symbol, a keyword in any case of ASCII letters, a bracket,
or a word that is no keyword. -/
inductive Spells : List Char → Token → Prop where
  | symbol {s : List Char} {t : Token} (h : (s, t) ∈ symbols) : Spells s t
  | keyword {s : List Char} {w : String} {t : Token} (h : (w, t) ∈ keywords)
      (sameLetters : s.map Text.lowerAscii = w.toList) : Spells s t
  | opening (k : Bracket) : Spells [k.opening] (Token.opening k)
  | closing (k : Bracket) : Spells [k.closing] (Token.closing k)
  | word {s : List Char} (nonempty : s ≠ []) (letters : ∀ c ∈ s, isWordChar c) (free : keyword? s = none) :
      Spells s (Token.word (String.ofList s))

end Token

end FlowArchive
