import FlowArchive.Time.Format

/-!
# Times of the network standards

Two standards write times in their own way: RFC 3339 those of protocols and logs, RFC 2822 those of mail.
-/

namespace FlowArchive.TimeReader

def twoDigits : TimeReader Nat := fun s => (number 2 2 s).map fun p => (p.1.1, p.2)

/-! ## Protocols and logs -/

/-- Takes the letter or blank between date and time of day. -/
def dateTimeSeparator : TimeReader Unit
  | 'T' :: s | 't' :: s | ' ' :: s => some ((), s)
  | _ => none

/-- Takes a fraction of a second if one follows; its value is dropped. -/
def fraction : TimeReader Unit
  | '.' :: s => (number 1 s.length s).map fun p => ((), p.2)
  | s => some ((), s)

/-- Takes an offset with a colon, below a day, or the letter for Universal Time. -/
def internetOffset : TimeReader Int
  | 'Z' :: s | 'z' :: s => some (0, s)
  | s => offset .colon s

/-- Takes a time of RFC 3339. -/
def internet : TimeReader TimeFields := fun s => do
  let ((year, _), s) ← number 4 4 s
  let ((), s) ← char '-' s
  let (month, s) ← twoDigits s
  let ((), s) ← char '-' s
  let (day, s) ← twoDigits s
  let ((), s) ← dateTimeSeparator s
  let (hour, s) ← twoDigits s
  let ((), s) ← char ':' s
  let (minute, s) ← twoDigits s
  let ((), s) ← char ':' s
  let (second, s) ← twoDigits s
  let ((), s) ← fraction s
  let (offset, s) ← internetOffset s
  some (⟨none, year, month, day, hour, minute, second, offset⟩, s)

/-! ## Mail -/

def blanks : TimeReader Unit
  | c :: s => if Text.isBlank c then some ((), Text.trimStart s) else none
  | [] => none

/-- Takes the name of a day of the week and a comma, or nothing where no such name stands. -/
def mailWeekday : TimeReader (Option Nat) := fun s =>
  match name weekdayNames s with
  | some (day, rest) => (char ',' rest).map fun p => (some day, p.2)
  | none => some (none, s)

/-- The year of a number with a number of digits: years of two digits lie in 1950 to 2049, and those of three
are counted from 1900. -/
def mailYear (places n : Nat) : Nat :=
  if places = 2 then (if n ≤ 49 then 2000 + n else 1900 + n)
  else if places = 3 then 1900 + n
  else n

/-- Takes a colon and the seconds, if there is a colon. -/
def mailSecond : TimeReader Nat := fun s =>
  match char ':' (Text.trimStart s) with
  | some ((), rest) => twoDigits rest
  | none => some (0, s)

/-- The zones with a name, with the hours they are ahead of Universal Time. -/
def mailZones : List (String × Int) :=
  [("gmt", 0), ("ut", 0), ("z", 0), ("edt", -4), ("est", -5), ("cdt", -5), ("cst", -6), ("mdt", -6),
    ("mst", -7), ("pdt", -7), ("pst", -8)]

def isAsciiLetter (c : Char) : Bool :=
  let c := Text.lowerAscii c
  'a' ≤ c && c ≤ 'z'

/-- The offset of a zone. Single letters other than J stand for unknown zones and count as Universal Time. -/
def mailZone? (name : List Char) : Option Int :=
  match mailZones.find? fun z => Text.sameAsciiLetters z.1.toList name with
  | some z => some (z.2 * 3600)
  | none =>
    match name with
    | [c] => if Text.lowerAscii c = 'j' then none else some 0
    | _ => none

/-- Takes the name of a zone or an offset. -/
def mailOffset : TimeReader Int := fun s =>
  let name := s.takeWhile isAsciiLetter
  if name.isEmpty then offset .nothing s
  else (mailZone? name).map fun o => (o, s.dropWhile isAsciiLetter)

/-- What follows a comment with a number of open brackets, if it is closed. A backslash hides the next
character. -/
def afterComment : (depth : Nat) → List Char → Option (List Char)
  | _, [] => none
  | _, ['\\'] => none
  | depth, '\\' :: _ :: s => afterComment depth s
  | depth, '(' :: s => afterComment (depth + 1) s
  | 0, ')' :: s => some s
  | depth + 1, ')' :: s => afterComment depth s
  | depth, _ :: s => afterComment depth s

/-- Whether a text consists of comments, with blanks in front of each. -/
def areComments : (rounds : Nat) → List Char → Bool
  | _, [] => true
  | 0, _ => false
  | rounds + 1, s =>
    match Text.trimStart s with
    | '(' :: rest =>
      match afterComment 0 rest with
      | some rest => areComments rounds rest
      | none => false
    | _ => false

/-- Takes the comments that end a text. -/
def comments : TimeReader Unit := fun s => if areComments s.length s then some ((), []) else none

/-- Takes a time of RFC 2822. -/
def mail : TimeReader TimeFields := fun s => do
  let (weekday, s) ← mailWeekday (Text.trimStart s)
  let ((day, _), s) ← number 1 2 (Text.trimStart s)
  let ((), s) ← blanks s
  let (month, s) ← name monthNames s
  let ((), s) ← blanks s
  let ((year, places), s) ← number 2 s.length s
  let ((), s) ← blanks s
  let (hour, s) ← twoDigits s
  let ((), s) ← char ':' (Text.trimStart s)
  let (minute, s) ← twoDigits (Text.trimStart s)
  let (second, s) ← mailSecond s
  let ((), s) ← blanks s
  let (offset, s) ← mailOffset s
  let ((), s) ← comments s
  some (⟨weekday, mailYear places year, month + 1, day, hour, minute, second, offset⟩, s)

end FlowArchive.TimeReader
