import FlowArchive.Report.Csv

/-!
# The rules for values between commas

A record is its values with commas between them and a line feed behind, or a carriage return and a line feed. A value
between double quotes may hold every character, and a quote as two; one without quotes holds no comma, no quote and no
character that ends a line. The last record may end with the text.
-/

namespace FlowArchive.Report.Csv

/-- The characters that need quotes around them. -/
def isMark (c : Char) : Bool := c == ',' || c == '"' || c == '\n' || c == '\r'

/-- A text that can do without quotes. -/
def IsPlain (s : String) : Prop := ∀ c ∈ s.toList, isMark c = false

instance (s : String) : Decidable (IsPlain s) := List.decidableBAll (fun c => isMark c = false) s.toList

/-- A character between quotes. -/
def double (c : Char) : List Char := if c = '"' then ['"', '"'] else [c]

/-- A value as the rules have it written: between quotes if it needs them. -/
def spell (s : String) : String :=
  if IsPlain s then s else String.ofList ('"' :: s.toList.flatMap double ++ ['"'])

/-- Where a reader stands: in front of a value, in one without quotes, between quotes, behind a quote that closes unless
another one follows, or between a carriage return and its line feed. -/
inductive Place where
  | front
  | bare
  | quoted
  | closed
  | ending
deriving DecidableEq, Repr

/-- The records that are read, the values of the present one and the characters of the present value. -/
structure Reader where
  records : List (List String)
  values : List String
  letters : List Char
  place : Place
deriving DecidableEq, Repr

namespace Reader

def start : Reader := ⟨[], [], [], .front⟩

def goTo (r : Reader) (p : Place) : Reader := { r with place := p }

def add (r : Reader) (c : Char) (p : Place) : Reader := { r with letters := r.letters ++ [c], place := p }

def endValue (r : Reader) : Reader := ⟨r.records, r.values ++ [String.ofList r.letters], [], .front⟩

def endRecord (r : Reader) : Reader := ⟨r.records ++ [r.values ++ [String.ofList r.letters]], [], [], .front⟩

/-- Only a comma or an end of the line may stand behind a value. -/
def leave (r : Reader) (c : Char) : Option Reader :=
  if c = ',' then some r.endValue
  else if c = '\n' then some r.endRecord
  else if c = '\r' then some (r.goTo .ending)
  else none

def step (r : Reader) (c : Char) : Option Reader :=
  match r.place with
  | .front => if c = '"' then some (r.goTo .quoted) else if isMark c then r.leave c else some (r.add c .bare)
  | .bare => if isMark c then r.leave c else some (r.add c .bare)
  | .quoted => some (if c = '"' then r.goTo .closed else r.add c .quoted)
  | .closed => if c = '"' then some (r.add c .quoted) else r.leave c
  | .ending => if c = '\n' then some r.endRecord else none

def run (r : Reader) (s : List Char) : Option Reader := s.foldlM step r

/-- The records at the end of the text. A record that has begun ends with it, but no quotes stay open. -/
def finish (r : Reader) : Option (List (List String)) :=
  match r.place with
  | .quoted | .ending => none
  | .front => some (if r.values = [] then r.records else r.endRecord.records)
  | .bare | .closed => some r.endRecord.records

end Reader

/-- The records of a text. -/
def read (s : String) : Option (List (List String)) := (Reader.start.run s.toList).bind Reader.finish

end FlowArchive.Report.Csv
