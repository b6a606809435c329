/-!
# Letter case

Names of the languages here are ASCII, and most are read in any letter case. Two notions are in use:
one changes the letters `A` to `Z` alone, the other every character whose small form is an ASCII letter.
-/

namespace FlowArchive.Text

/-- The small form of an ASCII capital; other characters stay. -/
def lowerAscii (c : Char) : Char :=
  if 'A' ≤ c ∧ c ≤ 'Z' then Char.ofNat (c.toNat + 32) else c

/-- Whether two texts agree up to the case of ASCII letters. -/
def sameAsciiLetters (a b : List Char) : Bool := a.map lowerAscii == b.map lowerAscii

/-- The small form of a character where that is an ASCII letter. Apart from `A` to `Z` this concerns the
Kelvin sign; no other character has an ASCII letter alone as its small form, so others stay. -/
def fold (c : Char) : Char :=
  if c = '\u212a' then 'k' else lowerAscii c

/-- A text in small letters, for comparison with an ASCII name. -/
def foldName (s : String) : String := String.ofList (s.toList.map fold)

end FlowArchive.Text
