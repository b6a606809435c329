/-!
# Faults of the file system

Why a request to the file system is refused.
-/

namespace FlowArchive

inductive Fault where
  | missing
  | present
  | notDirectory
  | isDirectory
  | nameTooLong
  | invalidName
  /-- A cause that the model does not tell apart. -/
  | other (text : String)
deriving DecidableEq, Repr

namespace Fault

def message : Fault → String
  | missing => "No such file or directory"
  | present => "File exists"
  | notDirectory => "Not a directory"
  | isDirectory => "Is a directory"
  | nameTooLong => "File name too long"
  | invalidName => "Invalid file name"
  | other text => text

end Fault

end FlowArchive
