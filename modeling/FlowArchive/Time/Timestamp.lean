/-!
# Timestamps, days and ranges

Times are whole seconds since the start of 1970 in Universal Time, as signed words of 64 bits. Arithmetic that
may leave the words is done in the integers and brought back by a rule that the name tells: clamped to the
nearest word, or absent.
-/

namespace FlowArchive

/-- Seconds since the start of 1970. -/
abbrev Timestamp := Int64

namespace Timestamp

def daySeconds : Int := 86400

def least : Timestamp := Int64.minValue
def greatest : Timestamp := Int64.maxValue

/-- The word of an integer, if there is one. -/
def ofInt? (i : Int) : Option Timestamp :=
  if -9223372036854775808 ≤ i ∧ i < 9223372036854775808 then some (Int64.ofInt i) else none

/-- The word nearest to an integer. -/
def clamp (i : Int) : Timestamp :=
  if i < -9223372036854775808 then least
  else if 9223372036854775808 ≤ i then greatest
  else Int64.ofInt i

/-- The start of the day that holds a timestamp; the first day is cut at the least timestamp. -/
def startOfDay (t : Timestamp) : Timestamp := clamp (t.toInt - t.toInt % daySeconds)

/-- The last second of a day that starts at a timestamp; the last day is cut at the greatest timestamp. -/
def endOfDay (day : Timestamp) : Timestamp := clamp (day.toInt + (daySeconds - 1))

end Timestamp

/-- The timestamps from `first` to `last`, both included. -/
structure TimeRange where
  first : Timestamp
  last : Timestamp
deriving DecidableEq, Repr, Inhabited

namespace TimeRange

/-- All times from the start of 1970. -/
def sinceEpoch : TimeRange := ⟨0, Timestamp.greatest⟩

def contains (r : TimeRange) (t : Timestamp) : Bool := r.first ≤ t && t ≤ r.last

/-- Whether each range starts no later than the other one ends. -/
def overlaps (r s : TimeRange) : Bool := r.first ≤ s.last && s.first ≤ r.last

def ofDay (day : Timestamp) : TimeRange := ⟨day, Timestamp.endOfDay day⟩

def overlapsDay (r : TimeRange) (day : Timestamp) : Bool := r.overlaps (ofDay day)

end TimeRange

end FlowArchive
