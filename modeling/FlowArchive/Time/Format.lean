import FlowArchive.Text.Blank
import FlowArchive.Text.Case
import FlowArchive.Time.Calendar

/-!
# Written times

A format is a list of pieces. Reading a text by a format fills in the fields of a time, piece by piece, and
succeeds if the whole text is used up and the calendar has the date.
-/

namespace FlowArchive

/-- A reader of times fills in fields from the front of a text and hands on the rest. -/
abbrev TimeReader (α : Type) := List Char → Option (α × List Char)

/-- The fields of a written time. What is not written is zero. -/
structure TimeFields where
  weekday : Option Nat
  year : Int
  month : Nat
  day : Nat
  hour : Nat
  minute : Nat
  second : Nat
  /-- Seconds by which the written time is ahead of Universal Time. -/
  offset : Int
deriving DecidableEq, Repr

namespace TimeFields

def blank : TimeFields := ⟨none, 0, 0, 0, 0, 0, 0, 0⟩

def date (f : TimeFields) : Date := ⟨f.year, f.month, f.day⟩

/-- The second of the day. A leap second counts as the second before it. -/
def secondOfDay (f : TimeFields) : Nat := f.hour * 3600 + f.minute * 60 + min f.second 59

/-- The seconds since the start of 1970 in Universal Time. -/
def seconds (f : TimeFields) : Int :=
  (f.date.toDays - Date.epoch) * Timestamp.daySeconds + f.secondOfDay - f.offset

/-- Whether there is such a time: the calendar has the date, the date falls on the weekday, if one is written,
the time of day exists, the offset is below a day, and the calendar covers the moment. -/
def isValid (f : TimeFields) : Bool :=
  f.date.isValid && f.weekday.all (· == f.date.weekday) && f.hour ≤ 23 && f.minute ≤ 59 && f.second ≤ 60 &&
    f.offset.natAbs < 86400 && Date.firstSecond ≤ f.seconds && f.seconds < Date.endSecond

def timestamp? (f : TimeFields) : Option Timestamp :=
  if f.isValid then some (Int64.ofInt f.seconds) else none

end TimeFields

namespace TimeReader

/-- Takes at least `least` and at most `most` digits. Returns the number and how many digits it has. -/
def number (least most : Nat) : TimeReader (Nat × Nat) := fun s =>
  let digits := (s.take most).takeWhile Decimal.isDigit
  if digits.length < least then none
  else some ((Decimal.value digits, digits.length), s.drop digits.length)

def char (c : Char) : TimeReader Unit
  | [] => none
  | d :: rest => if d = c then some ((), rest) else none

/-- Takes one of a list of names of three letters, in any case. Returns its place in the list. -/
def name (names : List String) : TimeReader Nat := fun s =>
  (names.findIdx? fun n => Text.sameAsciiLetters n.toList (s.take 3)).map fun i => (i, s.drop 3)

def weekdayNames : List String := ["Mon", "Tue", "Wed", "Thu", "Fri", "Sat", "Sun"]

def monthNames : List String :=
  ["Jan", "Feb", "Mar", "Apr", "May", "Jun", "Jul", "Aug", "Sep", "Oct", "Nov", "Dec"]

/-- What stands between the hours and the minutes of an offset. -/
inductive OffsetSeparator where
  | nothing
  | colon
  /-- Any run of colons and blanks. -/
  | loose
deriving DecidableEq

def offsetSeparator : OffsetSeparator → TimeReader Unit
  | .nothing, s => some ((), s)
  | .colon, s => char ':' s
  | .loose, s => some ((), s.dropWhile fun c => c == ':' || Text.isBlank c)

/-- Takes the sign of an offset. Where hours and minutes may be separated it may be a typographic minus. -/
def offsetSign (separator : OffsetSeparator) : TimeReader Int
  | '+' :: s => some (1, s)
  | '-' :: s => some (-1, s)
  | '\u2212' :: s => if separator = .nothing then none else some (-1, s)
  | _ => none

/-- Takes an offset: a sign, two digits of hours and two of minutes below 60. -/
def offset (separator : OffsetSeparator) : TimeReader Int := fun s => do
  let (sign, s) ← offsetSign separator s
  let ((hours, _), s) ← number 2 2 s
  let ((), s) ← offsetSeparator separator s
  let ((minutes, _), s) ← number 2 2 s
  if 59 < minutes then none else some (sign * (hours * 3600 + minutes * 60 : Nat), s)

/-- The timestamp that a whole text spells. -/
def timestamp? (r : TimeReader TimeFields) (s : List Char) : Option Timestamp :=
  match r s with
  | some (f, []) => f.timestamp?
  | _ => none

end TimeReader

/-- A piece of a time format. -/
inductive TimePiece where
  /-- Any run of blanks, also none. -/
  | blanks
  | char (c : Char)
  | day
  | month
  /-- Four digits at most, or a sign and digits. -/
  | year
  /-- Two digits at most; those below 70 belong to this century. -/
  | shortYear
  | hour
  | minute
  | second
  | weekdayName
  | monthName
  | offset
deriving DecidableEq, Repr

namespace TimePiece

open TimeReader

/-- Takes a number of two digits at most, in front of which there may be blanks. -/
def short : TimeReader Nat := fun s =>
  (number 1 2 (Text.trimStart s)).map fun p => (p.1.1, p.2)

/-- Takes a year, in front of which there may be blanks. -/
def longYear : TimeReader Int := fun s =>
  match Text.trimStart s with
  | '-' :: rest => (number 1 rest.length rest).map fun p => (-(p.1.1 : Int), p.2)
  | '+' :: rest => (number 1 rest.length rest).map fun p => ((p.1.1 : Int), p.2)
  | rest => (number 1 4 rest).map fun p => ((p.1.1 : Int), p.2)

/-- The year that two digits stand for. -/
def centuryOf (n : Nat) : Int := if n < 70 then 2000 + n else 1900 + n

def read : TimePiece → TimeFields → TimeReader TimeFields
  | blanks, f, s => some (f, Text.trimStart s)
  | char c, f, s => (TimeReader.char c s).map fun p => (f, p.2)
  | day, f, s => (short s).map fun p => ({ f with day := p.1 }, p.2)
  | month, f, s => (short s).map fun p => ({ f with month := p.1 }, p.2)
  | year, f, s => (longYear s).map fun p => ({ f with year := p.1 }, p.2)
  | shortYear, f, s => (short s).map fun p => ({ f with year := centuryOf p.1 }, p.2)
  | hour, f, s => (short s).map fun p => ({ f with hour := p.1 }, p.2)
  | minute, f, s => (short s).map fun p => ({ f with minute := p.1 }, p.2)
  | second, f, s => (short s).map fun p => ({ f with second := p.1 }, p.2)
  | weekdayName, f, s => (name weekdayNames s).map fun p => ({ f with weekday := some p.1 }, p.2)
  | monthName, f, s => (name monthNames s).map fun p => ({ f with month := p.1 + 1 }, p.2)
  | offset, f, s => (TimeReader.offset .loose (Text.trimStart s)).map fun p => ({ f with offset := p.1 }, p.2)

end TimePiece

/-- A way to write times. -/
abbrev TimeFormat := List TimePiece

namespace TimeFormat

/-- Reads the pieces of a format in order. -/
def read : TimeFormat → TimeFields → TimeReader TimeFields
  | [], f, s => some (f, s)
  | p :: rest, f, s => (p.read f s).bind fun q => read rest q.1 q.2

/-- The timestamp that a text spells by a format. -/
def timestamp? (format : TimeFormat) (s : List Char) : Option Timestamp :=
  TimeReader.timestamp? (read format TimeFields.blank) s

end TimeFormat

end FlowArchive
