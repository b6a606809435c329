import FlowArchive.Text.Decimal

/-!
# Flaws of time arguments
-/

namespace FlowArchive.TimeArgument

/-- Why a text is refused as a time. -/
inductive Flaw where
  | blank
  | epochTooLarge (text : String)
  | notRelative (text : String)
  | repeatedUnit (unit : Char) (text : String)
  | outOfRange (text : String)
  | unrecognized (text : String)
deriving DecidableEq, Repr

def Flaw.message : Flaw → String
  | blank => "Empty time argument"
  | epochTooLarge text => "Invalid epoch " ++ text ++ ": number too large to fit in target type"
  | notRelative text => "Invalid relative time: " ++ text
  | repeatedUnit unit text => "Time unit " ++ unit.toString ++ " given twice in " ++ text
  | outOfRange text => "Relative time out of range: " ++ text
  | unrecognized text => "Unrecognized time format: " ++ text

end FlowArchive.TimeArgument
