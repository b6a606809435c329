import FlowArchive.Text.Decimal
import FlowArchive.Time.Timestamp

/-!
# Calendar dates

Dates of the Gregorian calendar, which is taken to hold for all years; the year before 1 is 0. A date is
counted in days from the first of January of year 0 and back. Times are shown as date and time of day in
Universal Time for the years that the calendar covers, and as a number beyond them.
-/

namespace FlowArchive

/-- A day of the calendar. -/
structure Date where
  year : Int
  month : Nat
  day : Nat
deriving DecidableEq, Repr, Inhabited

namespace Date

/-- Every fourth year is a leap year, but of the full centuries only every fourth. -/
def isLeap (year : Int) : Bool := year % 4 == 0 && (year % 100 != 0 || year % 400 == 0)

def monthLengths (leap : Bool) : List Nat :=
  [31, if leap then 29 else 28, 31, 30, 31, 30, 31, 31, 30, 31, 30, 31]

/-- The first and the last year of the calendar. -/
def firstYear : Int := -262143
def lastYear : Int := 262142

def isValid (d : Date) : Bool :=
  firstYear ≤ d.year && d.year ≤ lastYear && 1 ≤ d.month && d.month ≤ 12 && 1 ≤ d.day &&
    d.day ≤ (monthLengths (isLeap d.year)).getD (d.month - 1) 0

def daysBeforeYear (year : Int) : Int :=
  365 * year + (year + 3) / 4 - (year + 99) / 100 + (year + 399) / 400

def daysBeforeMonth (leap : Bool) (month : Nat) : Nat :=
  ((monthLengths leap).take (month - 1)).foldl (· + ·) 0

/-- The days from the start of year 0 to a date. -/
def toDays (d : Date) : Int :=
  daysBeforeYear d.year + daysBeforeMonth (isLeap d.year) d.month + d.day - 1

/-- The year that a day lies in. The mean length of a year misses it by one at most. -/
def yearOfDays (days : Int) : Int :=
  let guess := days * 400 / 146097
  if days < daysBeforeYear guess then guess - 1
  else if daysBeforeYear (guess + 1) ≤ days then guess + 1
  else guess

/-- The month and the day of the month that a day lies in, counted from the first of the months given. -/
def splitMonths : (lengths : List Nat) → (month rest : Nat) → Nat × Nat
  | [], month, rest => (month, rest + 1)
  | n :: lengths, month, rest =>
    if rest < n then (month, rest + 1) else splitMonths lengths (month + 1) (rest - n)

/-- The date of a number of days from the start of year 0. -/
def ofDays (days : Int) : Date :=
  let year := yearOfDays days
  let (month, day) := splitMonths (monthLengths (isLeap year)) 1 (days - daysBeforeYear year).toNat
  ⟨year, month, day⟩

/-- The days from the start of year 0 to the start of 1970. -/
def epoch : Int := daysBeforeYear 1970

/-- The day of the week, counted from Monday. The first of January of 1970 was a Thursday. -/
def weekday (d : Date) : Nat := ((d.toDays - epoch + 3) % 7).toNat

/-- The start of the first day of the calendar, and the end of its last, in seconds since 1970. -/
def firstSecond : Int := (daysBeforeYear firstYear - epoch) * Timestamp.daySeconds
def endSecond : Int := (daysBeforeYear (lastYear + 1) - epoch) * Timestamp.daySeconds

/-- A number with zeros in front, to at least a number of places. -/
def padded (places n : Nat) : List Char :=
  List.replicate (places - (Decimal.digits n).length) '0' ++ Decimal.digits n

/-- A year in at least four places. Years of more than four digits and those before 0 have a sign. -/
def printYear (year : Int) : List Char :=
  if year < 0 then '-' :: padded 4 year.natAbs
  else if 9999 < year then '+' :: padded 4 year.natAbs
  else padded 4 year.natAbs

def print (d : Date) : List Char := printYear d.year ++ '-' :: padded 2 d.month ++ '-' :: padded 2 d.day

end Date

namespace Timestamp

/-- The time of day in a number of seconds since midnight. -/
def printTimeOfDay (seconds : Nat) : List Char :=
  Date.padded 2 (seconds / 3600) ++ ':' :: Date.padded 2 (seconds / 60 % 60) ++ ':' ::
    Date.padded 2 (seconds % 60)

/-- Date and time of day in Universal Time, or the number of a time that the calendar does not cover. -/
def print (t : Timestamp) : List Char :=
  let seconds := t.toInt
  if Date.firstSecond ≤ seconds ∧ seconds < Date.endSecond then
    (Date.ofDays (seconds / daySeconds + Date.epoch)).print ++ ' ' ::
      printTimeOfDay (seconds % daySeconds).toNat
  else Decimal.printInt seconds

def text (t : Timestamp) : String := String.ofList t.print

end Timestamp

end FlowArchive
