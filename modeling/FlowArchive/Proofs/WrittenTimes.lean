import FlowArchive.Proofs.PrintedTimes
import Mathlib.Data.List.Induction
import Mathlib.Tactic.Tauto

/-!
# Times written by hand

Dates with points or hyphens, times of day and offsets as they are written, with one or two digits where both will do,
and what each piece of a format makes of them.
-/

namespace FlowArchive

open TimeReader (number)

variable {most l m : Nat} {a c : Char} {rest : List Char}

/-! ## Numerals -/

/-- A row of digits of a bounded length. -/
structure Numeral (least most : Nat) where
  digits : List Char
  ascii : ∀ c ∈ digits, Decimal.isDigit c = true
  least_le : least ≤ digits.length
  le_most : digits.length ≤ most

def Numeral.ofDigits {least most : Nat} (digits : List Char) (spelled : digits.all Decimal.isDigit = true ∧
    least ≤ digits.length ∧ digits.length ≤ most := by decide) : Numeral least most :=
  ⟨digits, List.all_eq_true.1 spelled.1, spelled.2.1, spelled.2.2⟩

theorem Decimal.value_lt {s : List Char} (ascii : ∀ c ∈ s, isDigit c = true) : value s < 10 ^ s.length := by
  induction s using List.reverseRecOn with
  | nil => decide
  | append_singleton s c ih =>
    have front := ih fun d member => ascii d (List.mem_append_left _ member)
    obtain ⟨d, small, rfl⟩ := exists_digitChar (ascii c (List.mem_append_right _ (List.mem_singleton_self c)))
    rw [value_append_digit, digitValue_digitChar small, List.length_append, List.length_singleton, Nat.pow_succ]
    omega

/-- No digit stands in front. -/
def NoDigit (s : List Char) : Prop := ∀ c ∈ s.head?, Decimal.isDigit c = false

theorem noDigit_nil : NoDigit [] := nofun

theorem noDigit_cons (other : Decimal.isDigit c = false) : NoDigit (c :: rest) := by
  rintro d ⟨⟩
  exact other

theorem Decimal.isDigit_of_isBlank (blank : Text.isBlank c = true) : isDigit c = false := by
  cases digit : isDigit c with
  | false => rfl
  | true => rw [not_isBlank_of_isDigit digit] at blank; cases blank

namespace Numeral

variable (n : Numeral l m)

def value : Nat := Decimal.value n.digits

theorem value_lt : n.value < 10 ^ m :=
  Nat.lt_of_lt_of_le (Decimal.value_lt n.ascii) (Nat.pow_le_pow_right (by decide) n.le_most)

theorem solid {c : Char} (member : c ∈ n.digits) : Text.isBlank c = false :=
  Decimal.not_isBlank_of_isDigit (n.ascii c member)

theorem exists_cons (positive : 1 ≤ l) : ∃ c s, n.digits = c :: s ∧ Decimal.isDigit c = true := by
  cases shown : n.digits with
  | nil =>
    have enough := n.least_le
    rw [shown, List.length_nil] at enough
    omega
  | cons c s => exact ⟨c, s, rfl, n.ascii c (shown ▸ List.mem_cons_self)⟩

theorem trimStart_digits (positive : 1 ≤ l) (rest : List Char) :
    Text.trimStart (n.digits ++ rest) = n.digits ++ rest := by
  obtain ⟨c, s, shown, digit⟩ := n.exists_cons positive
  rw [shown]
  exact TimeReader.trimStart_of_digit digit _

/-- A numeral is taken whole where no further digit is wanted or none stands behind, and refused if it is too short. -/
theorem number_digits (least : Nat) (fits : n.digits.length ≤ most) (stops : n.digits.length = most ∨ NoDigit rest) :
    number least most (n.digits ++ rest) =
      if n.digits.length < least then none else some ((n.value, n.digits.length), rest) := by
  have taken : ((n.digits ++ rest).take most).takeWhile Decimal.isDigit = n.digits := by
    rw [List.take_append, List.take_of_length_le fits, List.takeWhile_append_of_pos n.ascii]
    have nothing : (rest.take (most - n.digits.length)).takeWhile Decimal.isDigit = [] := by
      rcases stops with same | other
      · rw [same, Nat.sub_self, List.take_zero, List.takeWhile_nil]
      · cases rest with
        | nil => rw [List.take_nil, List.takeWhile_nil]
        | cons c rest =>
          cases most - n.digits.length with
          | zero => rfl
          | succ k => rw [List.take_succ_cons, List.takeWhile_cons_of_neg (by simp [other c rfl])]
    rw [nothing, List.append_nil]
  rw [number, taken, List.drop_left]
  rfl

/-- Two digits are taken whatever stands behind. -/
theorem number_pair (n : Numeral 2 2) (rest : List Char) :
    number 2 2 (n.digits ++ rest) = some ((n.value, 2), rest) := by
  have length : n.digits.length = 2 := Nat.le_antisymm n.le_most n.least_le
  rw [n.number_digits 2 n.le_most (.inl length), length, if_neg (by omega)]

/-- Where two digits are wanted, one is refused. -/
theorem twoDigits_digits (fits : m ≤ 2) (stops : NoDigit rest) :
    TimeReader.twoDigits (n.digits ++ rest) = none ∨
      TimeReader.twoDigits (n.digits ++ rest) = some (n.value, rest) := by
  rw [TimeReader.twoDigits, n.number_digits 2 (Nat.le_trans n.le_most fits) (.inr stops)]
  split
  · exact .inl rfl
  · exact .inr rfl

theorem short_digits (positive : 1 ≤ l) (fits : n.digits.length ≤ 2) (stops : n.digits.length = 2 ∨ NoDigit rest) :
    TimePiece.short (n.digits ++ rest) = some (n.value, rest) := by
  have enough := n.least_le
  rw [TimePiece.short, n.trimStart_digits positive, n.number_digits 1 fits stops, if_neg (by omega)]
  rfl

theorem longYear_digits (positive : 1 ≤ l) (fits : n.digits.length ≤ 4) (stops : NoDigit rest) :
    TimePiece.longYear (n.digits ++ rest) = some ((n.value : Int), rest) := by
  have enough := n.least_le
  have read := n.number_digits 1 fits (.inr stops)
  obtain ⟨c, s, shown, digit⟩ := n.exists_cons positive
  rw [TimePiece.longYear, n.trimStart_digits positive]
  rw [if_neg (by omega)] at read
  rw [shown, List.cons_append] at read ⊢
  split
  next minus => exact absurd (List.cons.inj minus).1 (Decimal.ne_of_isDigit digit (by decide))
  next plus => exact absurd (List.cons.inj plus).1 (Decimal.ne_of_isDigit digit (by decide))
  next => rw [read]; rfl

/-- The two halves of four digits. -/
theorem exists_halves (n : Numeral 4 4) : ∃ p q : Numeral 2 2, n.digits = p.digits ++ q.digits := by
  obtain ⟨digits, ascii, enough, fits⟩ := n
  obtain ⟨a, b, c, d, rfl⟩ := List.length_eq_four.1 (Nat.le_antisymm fits enough)
  exact ⟨⟨[a, b], fun x member => ascii x (by simp at member ⊢; tauto), Nat.le_refl 2, Nat.le_refl 2⟩,
    ⟨[c, d], fun x member => ascii x (by simp at member ⊢; tauto), Nat.le_refl 2, Nat.le_refl 2⟩, rfl⟩

end Numeral

/-! ## Dates, times of day and offsets -/

/-- A date as it is written. -/
inductive WrittenDate where
  | shortPoints (day month : Numeral 1 2) (year : Numeral 2 2)
  | longPoints (day month : Numeral 1 2) (year : Numeral 4 4)
  | hyphens (year : Numeral 1 4) (month day : Numeral 1 2)

namespace WrittenDate

def chars : WrittenDate → List Char
  | shortPoints day month year => day.digits ++ '.' :: (month.digits ++ '.' :: year.digits)
  | longPoints day month year => day.digits ++ '.' :: (month.digits ++ '.' :: year.digits)
  | hyphens year month day => year.digits ++ '-' :: (month.digits ++ '-' :: day.digits)

/-- Behind points a year of two digits lies within a hundred years. -/
def date : WrittenDate → Date
  | shortPoints day month year => ⟨TimePiece.centuryOf year.value, month.value, day.value⟩
  | longPoints day month year => ⟨year.value, month.value, day.value⟩
  | hyphens year month day => ⟨year.value, month.value, day.value⟩

def format : WrittenDate → TimeFormat
  | shortPoints .. => TimeArgument.shortDate
  | longPoints .. => TimeArgument.longDate
  | hyphens .. => TimeArgument.isoDate

end WrittenDate

/-- A time of day as it is written behind a date. -/
structure WrittenClock where
  gap : List Char
  hour : Numeral 1 2
  minute : Numeral 1 2
  second : Option (Numeral 1 2)
  gap_ne_nil : gap ≠ []
  gap_blank : ∀ c ∈ gap, Text.isBlank c = true
  hour_le : hour.value ≤ 23
  minute_le : minute.value ≤ 59
  second_le : ∀ n ∈ second, n.value ≤ 60

namespace WrittenClock

/-- Hours, minutes and seconds. -/
def body (k : WrittenClock) : List Char :=
  k.hour.digits ++ ':' :: (k.minute.digits ++ k.second.elim [] fun n => ':' :: n.digits)

def chars (k : WrittenClock) : List Char := k.gap ++ k.body

def format (k : WrittenClock) : TimeFormat :=
  if k.second.isSome then TimeArgument.timeOfDay else TimeArgument.hoursMinutes

theorem format_minutes (k : WrittenClock) (minutes : k.second = none) : k.format = TimeArgument.hoursMinutes := by
  rw [format, minutes]
  rfl

theorem format_seconds (k : WrittenClock) {n : Numeral 1 2} (seconds : k.second = some n) :
    k.format = TimeArgument.timeOfDay := by
  rw [format, seconds]
  rfl

end WrittenClock

/-- An offset: a sign, hours below 24 and minutes below 60, of two digits each. -/
structure WrittenOffset where
  ahead : Bool
  hours : Numeral 2 2
  minutes : Numeral 2 2
  hours_lt : hours.value < 24
  minutes_lt : minutes.value < 60

namespace WrittenOffset

def sign (o : WrittenOffset) : Char := if o.ahead then '+' else '-'

def chars (o : WrittenOffset) : List Char := o.sign :: (o.hours.digits ++ o.minutes.digits)

def seconds (o : WrittenOffset) : Int :=
  (if o.ahead then 1 else -1) * (o.hours.value * 3600 + o.minutes.value * 60 : Nat)

end WrittenOffset

/-- A date of the calendar and perhaps a time of day. -/
structure WrittenTime where
  date : WrittenDate
  clock : Option WrittenClock
  exists_date : date.date.isValid = true

namespace WrittenTime

def chars (w : WrittenTime) : List Char := w.date.chars ++ w.clock.elim [] WrittenClock.chars

/-- The text with one space between its words. -/
def spaced (w : WrittenTime) : List Char := w.date.chars ++ w.clock.elim [] fun k => ' ' :: k.body

end WrittenTime

/-- A space and an offset, or nothing. -/
def offsetChars (o : Option WrittenOffset) : List Char := o.elim [] fun o => ' ' :: o.chars

/-! ## What pieces make of them -/

namespace WrittenOffset

theorem isDigit_sign (o : WrittenOffset) : Decimal.isDigit o.sign = false := by
  unfold sign
  split <;> rfl

theorem solid_sign (o : WrittenOffset) : Text.isBlank o.sign = false := by
  unfold sign
  split <;> rfl

theorem solid (p : WrittenOffset) : ∀ c ∈ p.chars, Text.isBlank c = false := by
  intro c member
  rcases List.mem_cons.1 member with rfl | digits
  · exact p.solid_sign
  · rcases List.mem_append.1 digits with hours | minutes
    · exact p.hours.solid hours
    · exact p.minutes.solid minutes

/-- An offset is below a day. -/
theorem natAbs_seconds_lt (p : WrittenOffset) : p.seconds.natAbs < 86400 := by
  have hours := p.hours_lt
  have minutes := p.minutes_lt
  unfold seconds
  split <;> omega

theorem trimStart_chars (o : WrittenOffset) : Text.trimStart o.chars = o.chars :=
  List.dropWhile_cons_of_neg (by simp [o.solid_sign])

theorem offset_chars (o : WrittenOffset) : TimeReader.offset .loose o.chars = some (o.seconds, []) := by
  have signed : TimeReader.offsetSign .loose o.chars =
      some (if o.ahead then 1 else -1, o.hours.digits ++ o.minutes.digits) := by
    rw [chars, sign]
    cases o.ahead <;> rfl
  have minutes := o.minutes.number_pair []
  obtain ⟨c, s, shown, digit⟩ := o.minutes.exists_cons (by decide)
  have near : TimeReader.offsetSeparator .loose o.minutes.digits = some ((), o.minutes.digits) := by
    rw [shown, TimeReader.offsetSeparator, List.dropWhile_cons_of_neg]
    simp [Decimal.not_isBlank_of_isDigit digit, Decimal.ne_of_isDigit digit (by decide : Decimal.isDigit ':' = false)]
  have small := o.minutes_lt
  rw [List.append_nil] at minutes
  simp only [TimeReader.offset, signed, o.hours.number_pair, near, minutes, Option.bind_eq_bind,
    Option.bind_some]
  rw [if_neg (by omega), seconds]

end WrittenOffset

/-- No offset is read where none is written. -/
theorem read_offset (o : Option WrittenOffset) (f : TimeFields) :
    TimeFormat.read [.blanks, .offset] f (offsetChars o) =
      o.map fun o => ({ f with offset := o.seconds }, []) := by
  cases o with
  | none => rfl
  | some o =>
    have read := o.offset_chars
    have start := o.trimStart_chars
    simp [TimeFormat.read, TimePiece.read, offsetChars, read, start]

theorem noDigit_offsetChars (o : Option WrittenOffset) : NoDigit (offsetChars o) := by
  cases o with
  | none => exact noDigit_nil
  | some o => exact noDigit_cons rfl

/-! ## Dates -/

namespace WrittenDate

open TimeArgument TimePiece

variable {d : WrittenDate} {f : TimeFields} {format : TimeFormat}

/-- A short year ends where its two digits end. -/
theorem read_shortDate (day month : Numeral 1 2) (year : Numeral 2 2) (rest : List Char) :
    shortDate.read f ((shortPoints day month year).chars ++ rest) =
      some ({ f with year := centuryOf year.value, month := month.value, day := day.value }, rest) := by
  have point (s : List Char) : NoDigit ('.' :: s) := noDigit_cons rfl
  have length : year.digits.length = 2 := Nat.le_antisymm year.le_most year.least_le
  simp [shortDate, chars, TimeFormat.read, TimePiece.read, day.short_digits, day.le_most, month.short_digits,
    month.le_most, year.short_digits, length, point]

/-- A long year has room for two digits and for four. -/
theorem read_longDate (day month : Numeral 1 2) (year : Numeral l m) (positive : 1 ≤ l) (fits : m ≤ 4)
    (stops : NoDigit rest) :
    longDate.read f (day.digits ++ '.' :: (month.digits ++ '.' :: year.digits) ++ rest) =
      some ({ f with year := year.value, month := month.value, day := day.value }, rest) := by
  have point (s : List Char) : NoDigit ('.' :: s) := noDigit_cons rfl
  have short := Nat.le_trans year.le_most fits
  simp [longDate, TimeFormat.read, TimePiece.read, day.short_digits, day.le_most, month.short_digits, month.le_most,
    year.longYear_digits, positive, short, point, stops]

/-- The format of a date reads it. -/
theorem read_format (d : WrittenDate) (stops : NoDigit rest) : d.format.read f (d.chars ++ rest) =
    some ({ f with year := d.date.year, month := d.date.month, day := d.date.day }, rest) := by
  have hyphen (s : List Char) : NoDigit ('-' :: s) := noDigit_cons rfl
  cases d with
  | shortPoints day month year => exact read_shortDate day month year rest
  | longPoints day month year => exact read_longDate day month year (by decide) (Nat.le_refl 4) stops
  | hyphens year month day =>
    simp [WrittenDate.format, isoDate, chars, date, TimeFormat.read, TimePiece.read, day.short_digits, day.le_most,
      month.short_digits, month.le_most, year.longYear_digits, year.le_most, hyphen, stops]

theorem exists_cons (d : WrittenDate) : ∃ c s, d.chars = c :: s ∧ Decimal.isDigit c = true := by
  cases d with
  | shortPoints day month year | longPoints day month year =>
    obtain ⟨c, s, shown, digit⟩ := day.exists_cons (Nat.le_refl 1)
    exact ⟨c, _, by rw [chars, shown]; rfl, digit⟩
  | hyphens year month day =>
    obtain ⟨c, s, shown, digit⟩ := year.exists_cons (Nat.le_refl 1)
    exact ⟨c, _, by rw [chars, shown]; rfl, digit⟩

theorem exists_mark (d : WrittenDate) : ∃ c ∈ d.chars, Decimal.isDigit c = false := by
  cases d with
  | shortPoints _ _ _ | longPoints _ _ _ => exact ⟨'.', by simp [chars], rfl⟩
  | hyphens _ _ _ => exact ⟨'-', by simp [chars], rfl⟩

theorem solid (d : WrittenDate) : ∀ c ∈ d.chars, Text.isBlank c = false := by
  intro c member
  cases d with
  | shortPoints first second third | longPoints first second third | hyphens first second third =>
    simp only [chars, List.mem_append, List.mem_cons] at member
    rcases member with digit | rfl | digit | rfl | digit
    · exact first.solid digit
    · rfl
    · exact second.solid digit
    · rfl
    · exact third.solid digit

/-- The years of written dates have four digits at most. -/
theorem years (d : WrittenDate) : 0 ≤ d.date.year ∧ d.date.year ≤ 9999 := by
  cases d with
  | shortPoints day month year =>
    have small := year.value_lt
    simp only [date, TimePiece.centuryOf]
    split <;> omega
  | longPoints day month year =>
    have small := year.value_lt
    simp only [date]
    omega
  | hyphens year month day =>
    have small := year.value_lt
    simp only [date]
    omega

theorem trimStart_chars (d : WrittenDate) (rest : List Char) : Text.trimStart (d.chars ++ rest) = d.chars ++ rest := by
  obtain ⟨c, s, shown, digit⟩ := d.exists_cons
  rw [shown]
  exact TimeReader.trimStart_of_digit digit _

/-! ## Formats that refuse a date -/

/-- The form of year, month and day does not read a date with points. -/
theorem isoDate_points (day : Numeral 1 2) (s : List Char) (format : TimeFormat) :
    TimeFormat.read (isoDate ++ format) f (day.digits ++ '.' :: s) = none := by
  have stops : NoDigit ('.' :: s) := noDigit_cons rfl
  have fits : day.digits.length ≤ 4 := Nat.le_trans day.le_most (by decide)
  have noHyphen : TimeReader.char '-' ('.' :: s) = none := rfl
  simp [isoDate, TimeFormat.read, TimePiece.read, day.longYear_digits, fits, stops, noHyphen]

/-- What stands behind the first number of a date, of which two digits at most are taken. -/
theorem exists_behind_number (n : Numeral l m) (positive : 1 ≤ l) (other : Decimal.isDigit a = false) (s : List Char) :
    ∃ p c s', number 1 2 (n.digits ++ a :: s) = some (p, c :: s') ∧ (c = a ∨ Decimal.isDigit c = true) := by
  by_cases fits : n.digits.length ≤ 2
  · refine ⟨(n.value, n.digits.length), a, s, ?_, .inl rfl⟩
    have enough := n.least_le
    rw [n.number_digits 1 fits (.inr (noDigit_cons other)), if_neg (by omega)]
  · obtain ⟨x, y, c, s', shown⟩ : ∃ x y c s', n.digits = x :: y :: c :: s' := by
      rcases shown : n.digits with _ | ⟨x, _ | ⟨y, _ | ⟨c, s'⟩⟩⟩
      · simp [shown] at fits
      · simp [shown] at fits
      · simp [shown] at fits
      · exact ⟨x, y, c, s', rfl⟩
    have digit : ∀ b ∈ x :: y :: c :: s', Decimal.isDigit b = true := shown ▸ n.ascii
    have read := number_two_digits (digit x (by simp)) (digit y (by simp)) (c :: s' ++ a :: s)
    exact ⟨_, c, s' ++ a :: s, by rw [shown]; exact read, .inr (digit c (by simp))⟩

/-- What stands behind the first number of a date is neither blank nor a letter. -/
theorem exists_first (d : WrittenDate) (rest : List Char) :
    ∃ p c s, number 1 2 (d.chars ++ rest) = some (p, c :: s) ∧ (c = '.' ∨ c = '-' ∨ Decimal.isDigit c = true) := by
  cases d with
  | shortPoints day month year | longPoints day month year =>
    obtain ⟨p, c, s, read, behind⟩ := exists_behind_number day (by decide) (by decide : Decimal.isDigit '.' = false)
      (month.digits ++ '.' :: year.digits ++ rest)
    exact ⟨p, c, s, by simpa [chars] using read, behind.imp_right .inr⟩
  | hyphens year month day =>
    obtain ⟨p, c, s, read, behind⟩ := exists_behind_number year (by decide) (by decide : Decimal.isDigit '-' = false)
      (month.digits ++ '-' :: day.digits ++ rest)
    exact ⟨p, c, s, by simpa [chars] using read, .inr behind⟩

/-- A form with points does not read a date with hyphens. -/
theorem points_hyphens (year : Numeral 1 4) (month day : Numeral 1 2) (rest : List Char) (format : TimeFormat) :
    TimeFormat.read (.day :: .char '.' :: format) f ((hyphens year month day).chars ++ rest) = none := by
  obtain ⟨p, c, s, read, behind⟩ := exists_behind_number year (by decide) (by decide : Decimal.isDigit '-' = false)
    (month.digits ++ '-' :: day.digits ++ rest)
  have noPoint : TimeReader.char '.' (c :: s) = none := by
    rcases behind with rfl | digit
    · rfl
    · exact TimeReader.char_of_digit digit (by decide) s
  simp only [chars, List.append_assoc, List.cons_append] at read ⊢
  simp [TimeFormat.read, TimePiece.read, short, year.trimStart_digits, read, noPoint]

/-- A short year leaves two of four digits behind. -/
theorem shortDate_longPoints (day month : Numeral 1 2) (year : Numeral 4 4) (rest : List Char) :
    ∃ (g : TimeFields) (q : Numeral 2 2),
      shortDate.read f ((longPoints day month year).chars ++ rest) = some (g, q.digits ++ rest) := by
  obtain ⟨p, q, halves⟩ := year.exists_halves
  have read := read_shortDate (f := f) day month p (q.digits ++ rest)
  refine ⟨{ f with year := centuryOf p.value, month := month.value, day := day.value }, q, ?_⟩
  simpa [chars, halves] using read

/-- A form of dates refuses a date, or reads it to its end, or takes the first two digits of its year. -/
theorem read_date (d : WrittenDate) (listed : format ∈ dateFormats) (stops : NoDigit rest) :
    format.read f (d.chars ++ rest) = none ∨ (∃ g, format.read f (d.chars ++ rest) = some (g, rest)) ∨
      ∃ (g : TimeFields) (q : Numeral 2 2), format.read f (d.chars ++ rest) = some (g, q.digits ++ rest) := by
  have cases : format = shortDate ∨ format = longDate ∨ format = isoDate := by simpa [dateFormats] using listed
  have own := d.read_format (f := f) stops
  cases d with
  | shortPoints day month year =>
    rcases cases with rfl | rfl | rfl
    · exact .inr (.inl ⟨_, own⟩)
    · exact .inr (.inl ⟨_, read_longDate day month year (by decide) (by decide) stops⟩)
    · exact .inl (by simpa [chars] using isoDate_points (f := f) day (month.digits ++ '.' :: year.digits ++ rest) [])
  | longPoints day month year =>
    rcases cases with rfl | rfl | rfl
    · exact .inr (.inr (shortDate_longPoints day month year rest))
    · exact .inr (.inl ⟨_, own⟩)
    · exact .inl (by simpa [chars] using isoDate_points (f := f) day (month.digits ++ '.' :: year.digits ++ rest) [])
  | hyphens year month day =>
    rcases cases with rfl | rfl | rfl
    · exact .inl (points_hyphens year month day rest _)
    · exact .inl (points_hyphens year month day rest _)
    · exact .inr (.inl ⟨_, own⟩)

end WrittenDate

/-! ## Times of day -/

namespace WrittenClock

open TimeArgument

variable {f : TimeFields}

theorem solid (k : WrittenClock) : ∀ c ∈ k.body, Text.isBlank c = false := by
  intro c member
  simp only [body, List.mem_append, List.mem_cons] at member
  rcases member with inHour | rfl | inMinute | inSecond
  · exact k.hour.solid inHour
  · rfl
  · exact k.minute.solid inMinute
  · cases seconds : k.second with
    | none => simp [seconds] at inSecond
    | some n =>
      rw [seconds, Option.elim_some, List.mem_cons] at inSecond
      rcases inSecond with rfl | inSecond
      · rfl
      · exact n.solid inSecond

theorem char_colon_offset (o : Option WrittenOffset) : TimeReader.char ':' (offsetChars o) = none := by
  cases o <;> rfl

/-- The form of a time of day reads it. -/
theorem read_body (k : WrittenClock) (o : Option WrittenOffset) :
    k.format.read f (' ' :: (k.body ++ offsetChars o)) =
      some ({ f with hour := k.hour.value, minute := k.minute.value, second := k.second.elim f.second Numeral.value },
        offsetChars o) := by
  have colon (s : List Char) : NoDigit (':' :: s) := noDigit_cons rfl
  have stops := noDigit_offsetChars o
  cases seconds : k.second with
  | none =>
    simp [WrittenClock.format, seconds, hoursMinutes, body, TimeFormat.read, TimePiece.read, k.hour.short_digits,
      k.hour.le_most, k.hour.trimStart_digits, k.minute.short_digits, k.minute.le_most, colon, stops]
  | some n =>
    simp [WrittenClock.format, seconds, timeOfDay, hoursMinutes, body, TimeFormat.read, TimePiece.read,
      k.hour.short_digits, k.hour.le_most, k.hour.trimStart_digits, k.minute.short_digits, k.minute.le_most,
      n.short_digits, n.le_most, colon, stops]

/-- Seconds are not read where none are written. -/
theorem timeOfDay_minutes {k : WrittenClock} (minutes : k.second = none) (o : Option WrittenOffset)
    (format : TimeFormat) :
    TimeFormat.read (timeOfDay ++ format) f (' ' :: (k.body ++ offsetChars o)) = none := by
  have colon (s : List Char) : NoDigit (':' :: s) := noDigit_cons rfl
  have stops := noDigit_offsetChars o
  have noColon := char_colon_offset o
  simp [minutes, timeOfDay, hoursMinutes, body, TimeFormat.read, TimePiece.read, k.hour.short_digits, k.hour.le_most,
    k.hour.trimStart_digits, k.minute.short_digits, k.minute.le_most, colon, stops, noColon]

/-- The hours of two digits left from a year have no colon behind them. -/
theorem hoursMinutes_pair (q : Numeral 2 2) (noColon : TimeReader.char ':' rest = none) (format : TimeFormat) :
    TimeFormat.read (hoursMinutes ++ format) f (q.digits ++ rest) = none := by
  have length : q.digits.length = 2 := Nat.le_antisymm q.le_most q.least_le
  simp [hoursMinutes, TimeFormat.read, TimePiece.read, q.short_digits, q.trimStart_digits, length, noColon]

/-- The sign of an offset is no hour. -/
theorem hoursMinutes_offset (o : Option WrittenOffset) (format : TimeFormat) :
    TimeFormat.read (hoursMinutes ++ format) f (offsetChars o) = none := by
  cases o with
  | none => rfl
  | some o =>
    have noNumber : number 1 2 o.chars = none := by
      simp [number, WrittenOffset.chars, o.isDigit_sign]
    simp [offsetChars, hoursMinutes, TimeFormat.read, TimePiece.read, TimePiece.short, o.trimStart_chars, noNumber]

end WrittenClock

/-! ## Forms of dates with a time of day behind -/

namespace WrittenDate

open TimeArgument WrittenClock

variable {f : TimeFields} {format : TimeFormat}

/-- A form with a time of day reads no date by itself. -/
theorem clock_refuses (d : WrittenDate) (listed : format ∈ dateFormats) (o : Option WrittenOffset)
    (behind : TimeFormat) :
    TimeFormat.read (format ++ (hoursMinutes ++ behind)) f (d.chars ++ offsetChars o) = none := by
  rw [read_append]
  rcases d.read_date (f := f) listed (noDigit_offsetChars o) with refused | ⟨g, read⟩ | ⟨g, q, read⟩
  · rw [refused, Option.bind_none]
  · rw [read, Option.bind_some, hoursMinutes_offset]
  · rw [read, Option.bind_some, hoursMinutes_pair q (char_colon_offset o)]

/-- A form with seconds does not read a time without. -/
theorem timeOfDay_refuses (d : WrittenDate) {k : WrittenClock} (minutes : k.second = none)
    (listed : format ∈ dateFormats) (o : Option WrittenOffset) :
    TimeFormat.read (format ++ timeOfDay) f (d.chars ++ ' ' :: (k.body ++ offsetChars o)) = none := by
  have refuses (g : TimeFields) : timeOfDay.read g (' ' :: (k.body ++ offsetChars o)) = none :=
    timeOfDay_minutes minutes o []
  rw [read_append]
  have stops : NoDigit (' ' :: (k.body ++ offsetChars o)) := noDigit_cons rfl
  rcases d.read_date (f := f) listed stops with refused | ⟨g, read⟩ | ⟨g, q, read⟩
  · rw [refused, Option.bind_none]
  · rw [read, Option.bind_some, refuses]
  · rw [read, Option.bind_some]
    exact hoursMinutes_pair q rfl _

/-- The rest of a long year is no time of day. -/
theorem shortDate_refuses (day month : Numeral 1 2) (year : Numeral 4 4) (behind : TimeFormat) (s : List Char) :
    TimeFormat.read (shortDate ++ (hoursMinutes ++ behind)) f ((longPoints day month year).chars ++ ' ' :: s) =
      none := by
  obtain ⟨g, q, read⟩ := shortDate_longPoints (f := f) day month year (' ' :: s)
  rw [read_append, read, Option.bind_some]
  exact hoursMinutes_pair q rfl _

end WrittenDate

end FlowArchive
