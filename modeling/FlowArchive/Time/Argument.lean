import FlowArchive.Time.Relative
import FlowArchive.Time.Standard

/-!
# Time arguments

A time is given as seconds since 1970, relative to the present, in one of the forms of the network standards,
or in one of several calendar forms. Calendar forms may end in an offset; without one they are in Universal
Time. The first form that reads the whole text decides.
-/

namespace FlowArchive.TimeArgument

open TimePiece

/-! ## Formats -/

/-- Day, month and year between points, the year in two digits. -/
def shortDate : TimeFormat := [day, .char '.', month, .char '.', shortYear]

/-- Day, month and year between points. -/
def longDate : TimeFormat := [day, .char '.', month, .char '.', year]

/-- Year, month and day between hyphens. -/
def isoDate : TimeFormat := [year, .char '-', month, .char '-', day]

def hoursMinutes : TimeFormat := [blanks, hour, .char ':', minute]

def timeOfDay : TimeFormat := hoursMinutes ++ [.char ':', second]

/-- The date forms. A year of two digits is tried first, as the long form would take it for itself. -/
def dateFormats : List TimeFormat := [shortDate, longDate, isoDate]

/-- The forms of date and time of day. -/
def calendarFormats : List TimeFormat :=
  [shortDate ++ timeOfDay, longDate ++ timeOfDay, shortDate ++ hoursMinutes, longDate ++ hoursMinutes,
    isoDate ++ timeOfDay, isoDate ++ hoursMinutes]

/-- Forms with names of days and months and with an offset. -/
def namedZonedFormats : List TimeFormat :=
  [[weekdayName, blanks, monthName, blanks, day] ++ timeOfDay ++ [blanks, offset, blanks, year],
    [day, blanks, monthName, blanks, shortYear] ++ hoursMinutes ++ [blanks, offset]]

/-- The form of a date with names of day and month and without an offset. -/
def namedFormat : TimeFormat := [weekdayName, blanks, monthName, blanks, day] ++ timeOfDay ++ [blanks, year]

/-- A form followed by an offset. -/
def zoned (format : TimeFormat) : TimeFormat := format ++ [blanks, offset]

/-! ## Reading -/

/-- The forms that read the text as it is written. -/
def verbatim? (s : List Char) : Option Timestamp :=
  (TimeReader.timestamp? TimeReader.internet s).or <|
    (TimeReader.timestamp? TimeReader.mail s).or <|
      namedZonedFormats.findSome? fun f => f.timestamp? s

/-- A calendar form with an offset, or without one. -/
def calendar? (format : TimeFormat) (s : List Char) : Option Timestamp :=
  ((zoned format).timestamp? s).or (format.timestamp? s)

/-- A date with an offset, which is behind the last blank. The day starts at midnight there. -/
def zonedDate? (s : List Char) : Option Timestamp :=
  (Text.splitAtLast? ' ' s).bind fun p =>
    let midnight := p.1 ++ [' ', '0', '0', ':', '0', '0', ' '] ++ p.2
    dateFormats.findSome? fun f => (zoned (f ++ hoursMinutes)).timestamp? midnight

/-- The forms that read the words of a text, whatever blanks are between them. -/
def collapsed? (s : List Char) : Option Timestamp :=
  (namedFormat.timestamp? s).or <|
    (calendarFormats.findSome? fun f => calendar? f s).or <|
      (dateFormats.findSome? fun f => f.timestamp? s).or (zonedDate? s)

/-- Reads a time argument without blanks around it. -/
def ofTrimmed (now : Timestamp) (s : List Char) : Except Flaw Timestamp :=
  let text := String.ofList s
  match s with
  | [] => .error .blank
  | c :: rest =>
    if s.all Decimal.isDigit then
      match Timestamp.ofInt? (Decimal.value s) with
      | some t => .ok t
      | none => .error (.epochTooLarge text)
    else if c = '-' then relative text now rest
    else
      match (verbatim? s).or (collapsed? (Text.collapse s)) with
      | some t => .ok t
      | none => .error (.unrecognized text)

def read (now : Timestamp) (s : String) : Except Flaw Timestamp := ofTrimmed now (Text.trimChars s.toList)

end FlowArchive.TimeArgument
