/-!
# White space

Trimming, splitting into words and into lines. White space is what Unicode gives the property
`White_Space`, which is wider than the four characters of the core library.
-/

namespace FlowArchive.Text

/-- The characters with the Unicode property `White_Space`. -/
def isBlank (c : Char) : Bool :=
  let n := c.toNat
  (9 ≤ n && n ≤ 13) || n == 32 || n == 0x85 || n == 0xA0 || n == 0x1680 ||
    (0x2000 ≤ n && n ≤ 0x200A) || n == 0x2028 || n == 0x2029 || n == 0x202F || n == 0x205F || n == 0x3000

def trimStart (s : List Char) : List Char := s.dropWhile isBlank

def trimEnd (s : List Char) : List Char := (s.reverse.dropWhile isBlank).reverse

/-- Drops blanks at both ends. -/
def trimChars (s : List Char) : List Char := trimEnd (trimStart s)

/-- Drops blanks at both ends of a text. -/
def trim (s : String) : String := String.ofList (trimChars s.toList)

/-- Splits at each character that passes the test; the parts may be empty. -/
def splitAtEach (sep : Char → Bool) : List Char → List (List Char)
  | [] => [[]]
  | c :: rest =>
    match splitAtEach sep rest with
    | [] => [[]]
    | part :: parts => if sep c then [] :: part :: parts else (c :: part) :: parts

/-- The parts of a text between separators; the parts may be empty. -/
def split (sep : Char) (s : String) : List String :=
  (splitAtEach (· == sep) s.toList).map String.ofList

/-- The maximal runs of characters that are not blank. -/
def wordsOf (s : List Char) : List (List Char) :=
  (splitAtEach isBlank s).filter fun part => !part.isEmpty

/-- Joins parts with a separator between neighbours. -/
def joinChars (sep : List Char) : List (List Char) → List Char
  | [] => []
  | [part] => part
  | part :: rest => part ++ sep ++ joinChars sep rest

/-- The words of a text, one space between neighbours. -/
def collapse (s : List Char) : List Char := joinChars [' '] (wordsOf s)

def dropReturn (line : List Char) : List Char :=
  if line.getLast? = some '\r' then line.dropLast else line

/-- The lines of a text. A line ends with a line feed, or a carriage return and a line feed; what follows the
last line feed is a line only if it is not empty. -/
def linesOf (s : List Char) : List (List Char) :=
  let parts := splitAtEach (· == '\n') s
  let closed := parts.dropLast.map dropReturn
  match parts.getLast? with
  | some [] | none => closed
  | some open_ => closed ++ [open_]

/-- Whether `p` opens the list; if so, what follows. -/
def dropPrefix? (p s : List Char) : Option (List Char) :=
  if p.isPrefixOf s then some (s.drop p.length) else none

/-- The text up to the last occurrence of a character and the text behind it. -/
def splitAtLast? (sep : Char) (s : List Char) : Option (List Char × List Char) :=
  let tail := s.reverse.takeWhile (· != sep)
  match s.reverse.dropWhile (· != sep) with
  | [] => none
  | _ :: front => some (front.reverse, tail.reverse)

end FlowArchive.Text
