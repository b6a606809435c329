import FlowArchive.Text.Blank

/-!
# Paths

A path is written; a location is where it leads. The parts of a path are texts that may hold strokes
themselves, so a path shows how it was given, while its location depends on the names alone that it goes
through.
-/

namespace FlowArchive

/-- The names on the way from the root of the file tree. -/
abbrev Location := List String

/-- Parts of a way to a file, each taken relative to the one before. -/
structure Path where
  parts : List String
deriving DecidableEq, Repr

namespace Path

def ofText (s : String) : Path := ⟨[s]⟩

/-- A path that goes on from another. -/
def join (p : Path) (part : String) : Path := ⟨p.parts ++ [part]⟩

/-- Whether a part starts over at the root. -/
def isAbsolute (part : String) : Bool := part.toList.head? == some '/'

/-- Joins two texts with a stroke, unless the second starts over or the first ends in one. -/
def joinText (front part : String) : String :=
  if isAbsolute part then part
  else if front.isEmpty || front.toList.getLast? == some '/' then front ++ part
  else front ++ "/" ++ part

def text (p : Path) : String := p.parts.foldl joinText ""

/-- Whether a text is the name of one entry of a directory. -/
def IsName (s : String) : Prop := s ≠ "" ∧ s ≠ "." ∧ s ≠ ".." ∧ '/' ∉ s.toList

instance (s : String) : Decidable (IsName s) := inferInstanceAs (Decidable (_ ∧ _))

/-- The greatest number of bytes of a name. -/
def longestName : Nat := 255

/-- The greatest number of bytes of the text of a path. -/
def longestText : Nat := 4095

/-- The names of parts, and where they start: at the root if a part starts over, else where the first part
does. -/
def names : (fromRoot : Bool) → (before : List String) → (parts : List String) → Bool × List String
  | fromRoot, before, [] => (fromRoot, before)
  | fromRoot, before, part :: rest =>
    if isAbsolute part then names true (Text.split '/' part) rest
    else names fromRoot (before ++ Text.split '/' part) rest

/-! ## The end of a path -/

/-- A path without the strokes at its end, cut before its last name. There is no last name if it has no other
parts. -/
def cutLast (names : List String) : Option (List String × String) :=
  match names.reverse.dropWhile (· == "") with
  | [] => none
  | last :: front => some (front.reverse, last)

/-- Whether the name at a place counts as a step of the path. No name and one point do not, but for the point
that a path can start with if it does not start at the root. -/
def isStep (fromRoot : Bool) (place : Nat) (name : String) : Bool :=
  name != "" && (name != "." || (place == 0 && !fromRoot))

/-- A path and the paths that it leads through, each up to one of its steps, the longest first. -/
def stages (fromRoot : Bool) (names : List String) : List (List String) :=
  let steps := (List.range names.length).filter fun n => (names[n]?).any (isStep fromRoot n)
  names :: (steps.dropLast.reverse.map fun n => names.take (n + 1))

end Path

end FlowArchive
