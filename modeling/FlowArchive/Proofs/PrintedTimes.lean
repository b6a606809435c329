import FlowArchive.Proofs.Dates
import FlowArchive.Proofs.Digits
import FlowArchive.Proofs.Locations
import FlowArchive.Time.Argument

/-!
# Printed times

A time that is printed with a year of four digits is read back by the form of year, month and day between hyphens with a
time of day behind. All forms that are tried before it refuse the text: they need a letter, a point or an offset where the
text has a digit or its end.
-/

namespace FlowArchive

variable {a b c : Char} {ds : List Char} {n least : Nat} {d : Date}

/-! ## Numbers with zeros in front -/

namespace Date

theorem isDigit_padded {places : Nat} (member : c ∈ padded places n) : Decimal.isDigit c = true := by
  rcases List.mem_append.1 member with zero | digit
  · rw [List.eq_of_mem_replicate zero]
    rfl
  · exact Decimal.isDigit_of_mem_digits digit

theorem solid_padded {places : Nat} (member : c ∈ padded places n) : Text.isBlank c = false :=
  Decimal.not_isBlank_of_isDigit (isDigit_padded member)

theorem exists_padded (places n : Nat) : ∃ c s, padded places n = c :: s ∧ Decimal.isDigit c = true := by
  cases shown : padded places n with
  | nil => simp [padded, Decimal.digits_ne_nil] at shown
  | cons c s => exact ⟨c, s, rfl, isDigit_padded (shown ▸ List.mem_cons_self)⟩

theorem length_padded {places : Nat} (positive : 0 < places) (small : n < 10 ^ places) :
    (padded places n).length = places := by
  have most := Decimal.length_digits_le positive small
  rw [padded, List.length_append, List.length_replicate]
  omega

theorem value_padded (places n : Nat) : Decimal.value (padded places n) = n := by
  rw [padded, Decimal.value_zeros, Decimal.value_digits]

/-- A date that is written with four digits of the year. -/
structure IsShort (d : Date) : Prop where
  year : 0 ≤ d.year ∧ d.year ≤ 9999
  month : d.month < 100
  day : d.day < 100

theorem IsShort.toNat_lt (short : d.IsShort) : d.year.toNat < 10 ^ 4 := by
  have year := short.year
  omega

theorem print_of_years (years : 0 ≤ d.year ∧ d.year ≤ 9999) (rest : List Char) : d.print ++ rest =
    padded 4 d.year.toNat ++ '-' :: (padded 2 d.month ++ '-' :: (padded 2 d.day ++ rest)) := by
  have size : d.year.natAbs = d.year.toNat := by omega
  rw [print, printYear, if_neg (by omega), if_neg (by omega), size]
  simp

end Date

theorem Date.solid_print (years : 0 ≤ d.year ∧ d.year ≤ 9999) : ∀ c ∈ d.print, Text.isBlank c = false := by
  intro c member
  have parts := Date.print_of_years years []
  rw [List.append_nil, List.append_nil] at parts
  rw [parts] at member
  simp only [List.mem_append, List.mem_cons] at member
  rcases member with year | rfl | month | rfl | day
  · exact Date.solid_padded year
  · decide
  · exact Date.solid_padded month
  · decide
  · exact Date.solid_padded day

theorem Timestamp.solid_printTimeOfDay (n : Nat) : ∀ c ∈ printTimeOfDay n, Text.isBlank c = false := by
  intro c member
  simp only [printTimeOfDay, List.mem_append, List.mem_cons] at member
  rcases member with (hour | rfl | minute) | rfl | second
  · exact Date.solid_padded hour
  · decide
  · exact Date.solid_padded minute
  · decide
  · exact Date.solid_padded second

/-! ## Readers of digits -/

namespace TimeReader

/-- As many digits as a reader takes at most are taken, whatever stands behind. -/
theorem number_digits (digit : ∀ c ∈ ds, Decimal.isDigit c = true) (enough : least ≤ ds.length) (rest : List Char) :
    number least ds.length (ds ++ rest) = some ((Decimal.value ds, ds.length), rest) := by
  have taken : ds.takeWhile Decimal.isDigit = ds := List.takeWhile_eq_self_iff.2 digit
  rw [number, List.take_left, taken, if_neg (by omega), List.drop_left]

theorem number_padded {places : Nat} (positive : 0 < places) (small : n < 10 ^ places) (enough : least ≤ places)
    (rest : List Char) : number least places (Date.padded places n ++ rest) = some ((n, places), rest) := by
  have length := Date.length_padded positive small
  have read := number_digits (fun c member => Date.isDigit_padded member) (length.symm ▸ enough) rest
  rwa [length, Date.value_padded] at read

@[simp] theorem char_self (c : Char) (rest : List Char) : char c (c :: rest) = some ((), rest) := if_pos rfl

theorem char_of_digit (digit : Decimal.isDigit a = true) (other : Decimal.isDigit c = false) (rest : List Char) :
    char c (a :: rest) = none := if_neg (Decimal.ne_of_isDigit digit other)

/-- A name that begins with a letter does not begin with a digit. -/
theorem name_of_digit {names : List String}
    (letters : ∀ w ∈ names, w.toList.head?.any (fun c => !Decimal.isDigit (Text.lowerAscii c)) = true)
    (digit : Decimal.isDigit a = true) (rest : List Char) : name names (a :: rest) = none := by
  rw [name, Option.map_eq_none_iff, List.findIdx?_eq_none_iff]
  intro w listed
  obtain ⟨c, head, letter⟩ := (Option.any_eq_true _ _).1 (letters w listed)
  obtain ⟨tail, spelled⟩ := List.head?_eq_some_iff.1 head
  have apart : Text.lowerAscii c ≠ a := (Decimal.ne_of_isDigit digit (by simpa using letter)).symm
  simp [Text.sameAsciiLetters, spelled, Decimal.lowerAscii_of_isDigit digit, apart]

theorem weekdayName_of_digit (digit : Decimal.isDigit a = true) (rest : List Char) :
    name weekdayNames (a :: rest) = none := name_of_digit (by decide) digit rest

theorem monthName_of_digit (digit : Decimal.isDigit a = true) (rest : List Char) :
    name monthNames (a :: rest) = none := name_of_digit (by decide) digit rest

theorem trimStart_of_digit (digit : Decimal.isDigit a = true) (rest : List Char) :
    Text.trimStart (a :: rest) = a :: rest :=
  List.dropWhile_cons_of_neg (by simp [Decimal.not_isBlank_of_isDigit digit])

@[simp] theorem trimStart_space (s : List Char) : Text.trimStart (' ' :: s) = Text.trimStart s := rfl

/-- No blank is dropped in front of a number. -/
theorem trimStart_padded (places n : Nat) (rest : List Char) :
    Text.trimStart (Date.padded places n ++ rest) = Date.padded places n ++ rest := by
  obtain ⟨c, s, shown, digit⟩ := Date.exists_padded places n
  rw [shown]
  exact trimStart_of_digit digit _

end TimeReader

/-! ## Pieces of formats -/

namespace TimePiece

theorem short_padded (small : n < 100) (rest : List Char) : short (Date.padded 2 n ++ rest) = some (n, rest) := by
  rw [short, TimeReader.trimStart_padded, TimeReader.number_padded (by decide) small (by decide)]
  rfl

theorem longYear_padded (small : n < 10000) (rest : List Char) :
    longYear (Date.padded 4 n ++ rest) = some ((n : Int), rest) := by
  obtain ⟨c, s, shown, digit⟩ := Date.exists_padded 4 n
  have read := TimeReader.number_padded (by decide) small (by decide : 1 ≤ 4) rest
  rw [longYear, TimeReader.trimStart_padded]
  rw [shown, List.cons_append] at read ⊢
  split
  next minus => exact absurd (List.cons.inj minus).1 (Decimal.ne_of_isDigit digit (by decide))
  next plus => exact absurd (List.cons.inj plus).1 (Decimal.ne_of_isDigit digit (by decide))
  next => rw [read]; rfl

end TimePiece

/-! ## Dates and times of day -/

namespace TimeArgument

open TimeReader TimePiece

theorem read_append (p q : TimeFormat) (f : TimeFields) (s : List Char) :
    TimeFormat.read (p ++ q) f s = (p.read f s).bind fun r => TimeFormat.read q r.1 r.2 := by
  induction p generalizing f s with
  | nil => rfl
  | cons piece p ih =>
    simp only [List.cons_append, TimeFormat.read, ih, Option.bind_assoc]

theorem read_isoDate (short : d.IsShort) (f : TimeFields) (rest : List Char) : isoDate.read f (d.print ++ rest) =
    some ({ f with year := d.year, month := d.month, day := d.day }, rest) := by
  have value : ((d.year.toNat : Nat) : Int) = d.year := Int.toNat_of_nonneg short.year.1
  have year := longYear_padded short.toNat_lt
  have month := short_padded short.month
  have day := short_padded short.day
  rw [Date.print_of_years short.year]
  simp [isoDate, TimeFormat.read, TimePiece.read, year, month, day, value]

theorem read_timeOfDay (seconds : n < 86400) (f : TimeFields) (rest : List Char) :
    timeOfDay.read f (' ' :: Timestamp.printTimeOfDay n ++ rest) =
      some ({ f with hour := n / 3600, minute := n / 60 % 60, second := n % 60 }, rest) := by
  have hour := short_padded (show n / 3600 < 100 by omega)
  have minute := short_padded (show n / 60 % 60 < 100 by omega)
  have second := short_padded (show n % 60 < 100 by omega)
  simp [timeOfDay, hoursMinutes, Timestamp.printTimeOfDay, TimeFormat.read, TimePiece.read, trimStart_padded, hour, minute,
    second]

/-! ## Forms that refuse the text -/

section refused

variable (first : Decimal.isDigit a = true) (second : Decimal.isDigit b = true) (third : Decimal.isDigit c = true)

include first second

theorem number_two_digits (s : List Char) : number 1 2 (a :: b :: s) = some ((Decimal.value [a, b], 2), s) := by
  have digits : ∀ x ∈ [a, b], Decimal.isDigit x = true := by simp [first, second]
  exact number_digits digits (Nat.le_succ 1) s

include third

/-- A point cannot stand where a third digit stands. -/
theorem read_pointed (format : TimeFormat) (f : TimeFields) (s : List Char) :
    TimeFormat.read (day :: .char '.' :: format) f (a :: b :: c :: s) = none := by
  have noPoint := char_of_digit third (by decide : Decimal.isDigit '.' = false) s
  simp [TimeFormat.read, TimePiece.read, short, trimStart_of_digit first, number_two_digits first second, noPoint]

/-- The name of a month cannot stand where a third digit stands. -/
theorem read_dayName (format : TimeFormat) (f : TimeFields) (s : List Char) :
    TimeFormat.read (day :: blanks :: monthName :: format) f (a :: b :: c :: s) = none := by
  simp [TimeFormat.read, TimePiece.read, short, trimStart_of_digit first, trimStart_of_digit third,
    number_two_digits first second, monthName_of_digit third]

/-- In mail a blank stands behind the day. -/
theorem mail_of_digits (s : List Char) : mail (a :: b :: c :: s) = none := by
  have noName : mailWeekday (a :: b :: c :: s) = some (none, a :: b :: c :: s) := by
    rw [mailWeekday, weekdayName_of_digit first]
  have noBlank : TimeReader.blanks (c :: s) = none := by
    rw [TimeReader.blanks, Decimal.not_isBlank_of_isDigit third]
    rfl
  rw [mail, trimStart_of_digit first, noName, Option.bind_eq_bind, Option.bind_some]
  dsimp only
  rw [trimStart_of_digit first, number_two_digits first second, Option.bind_eq_bind, Option.bind_some]
  dsimp only
  rw [noBlank, Option.bind_eq_bind, Option.bind_none]

theorem calendar_pointed (format : TimeFormat) (s : List Char) :
    calendar? (day :: .char '.' :: format) (a :: b :: c :: s) = none := by
  have zonedToo : TimeFormat.read (zoned (day :: .char '.' :: format)) TimeFields.blank (a :: b :: c :: s) = none :=
    read_pointed first second third _ _ _
  rw [calendar?, TimeFormat.timestamp?, TimeFormat.timestamp?, TimeReader.timestamp?, TimeReader.timestamp?, zonedToo,
    read_pointed first second third]
  rfl

end refused

theorem read_weekdayName (digit : Decimal.isDigit a = true) (format : TimeFormat) (f : TimeFields) (s : List Char) :
    TimeFormat.read (weekdayName :: format) f (a :: s) = none := by
  simp [TimeFormat.read, TimePiece.read, weekdayName_of_digit digit]

/-- A time of protocols and logs ends in an offset. -/
theorem internet_printed (short : d.IsShort) (seconds : n < 86400) :
    internet (d.print ++ ' ' :: Timestamp.printTimeOfDay n) = none := by
  have two {m : Nat} (small : m < 100) := number_padded (by decide : 0 < 2) small (Nat.le_refl 2)
  have year := number_padded (by decide : 0 < 4) short.toNat_lt (Nat.le_refl 4)
  have month := two short.month
  have day := two short.day
  have hour := two (show n / 3600 < 100 by omega)
  have minute := two (show n / 60 % 60 < 100 by omega)
  have second := two (show n % 60 < 100 by omega) []
  rw [List.append_nil] at second
  have noOffset : internetOffset [] = none := rfl
  rw [Date.print_of_years short.year]
  simp only [internet, Timestamp.printTimeOfDay, twoDigits, List.append_assoc, List.cons_append, year,
    char_self, month, day, dateTimeSeparator, hour, minute, second, fraction, noOffset, Option.map_some,
    Option.bind_eq_bind, Option.bind_some, Option.bind_none]

end TimeArgument

/-! ## Words -/

namespace Text

theorem trimStart_of_solid {s : List Char} (solid : ∀ c ∈ s.head?, isBlank c = false) : trimStart s = s := by
  cases s with
  | nil => rfl
  | cons c s => exact List.dropWhile_cons_of_neg (by simp [solid c rfl])

/-- Nothing is dropped where no blank stands at the ends. -/
theorem trimChars_of_solid {s : List Char} (first : ∀ c ∈ s.head?, isBlank c = false)
    (last : ∀ c ∈ s.getLast?, isBlank c = false) : trimChars s = s := by
  have back : trimStart s.reverse = s.reverse := trimStart_of_solid (by rwa [List.head?_reverse])
  rw [trimChars, trimStart_of_solid first, trimEnd]
  rw [trimStart] at back
  rw [back, List.reverse_reverse]

/-- Two words are split at the blank between them. -/
theorem splitAtEach_words {sep : Char → Bool} {v w : List Char} (hv : ∀ c ∈ v, sep c = false) (hw : ∀ c ∈ w, sep c = false)
    (between : sep c = true) : splitAtEach sep (v ++ c :: w) = [v, w] := by
  induction v with
  | nil => rw [List.nil_append, splitAtEach, Path.splitAtEach_of_absent hw, between]; rfl
  | cons a v ih =>
    rw [List.cons_append, splitAtEach, ih fun x member => hv x (List.mem_cons_of_mem _ member),
      hv a List.mem_cons_self]
    rfl

variable {v w : List Char} (hv : ∀ c ∈ v, isBlank c = false) (hw : ∀ c ∈ w, isBlank c = false)

include hv hw

/-- Two words with one space between them are as the collapsed text has them. -/
theorem collapse_words (filled : v ≠ [] ∧ w ≠ []) : collapse (v ++ ' ' :: w) = v ++ ' ' :: w := by
  rw [collapse, wordsOf, splitAtEach_words hv hw (by decide)]
  simp [filled, joinChars]

theorem trimChars_words (filled : v ≠ [] ∧ w ≠ []) : trimChars (v ++ ' ' :: w) = v ++ ' ' :: w := by
  refine trimChars_of_solid (fun c first => ?_) fun c last => ?_
  · rw [List.head?_append_of_ne_nil _ filled.1] at first
    exact hv c (List.mem_of_head? first)
  · rw [List.getLast?_append_of_ne_nil _ (List.cons_ne_nil _ _), List.getLast?_cons_of_ne_nil filled.2] at last
    exact hw c (List.mem_of_getLast? last)

end Text

/-! ## Reading what is printed -/

namespace Timestamp

/-- The date of a time in Universal Time. -/
def date (t : Timestamp) : Date := Date.ofDays (t.toInt / daySeconds + Date.epoch)

/-- The seconds since midnight in Universal Time. -/
def secondOfDay (t : Timestamp) : Nat := (t.toInt % daySeconds).toNat

theorem secondOfDay_lt (t : Timestamp) : t.secondOfDay < 86400 := by
  unfold secondOfDay daySeconds
  omega

theorem toInt_eq (t : Timestamp) : t.toInt = (t.date.toDays - Date.epoch) * daySeconds + t.secondOfDay := by
  have days : t.date.toDays = t.toInt / daySeconds + Date.epoch := Date.toDays_ofDays _
  rw [days, secondOfDay]
  unfold daySeconds
  omega

variable {t : Timestamp} (years : 0 ≤ t.date.year ∧ t.date.year ≤ 9999)

include years

/-- The calendar covers the years that are written with four digits. -/
theorem within_calendar : Date.firstSecond ≤ t.toInt ∧ t.toInt < Date.endSecond := by
  obtain ⟨after, before⟩ := Date.yearOfDays_bounds (t.toInt / daySeconds + Date.epoch)
  have year : t.date.year = Date.yearOfDays (t.toInt / daySeconds + Date.epoch) := rfl
  have low : Date.firstYear ≤ t.date.year := Int.le_trans (by decide) years.1
  have high : t.date.year + 1 ≤ Date.lastYear + 1 := Int.add_le_add_right (Int.le_trans years.2 (by decide)) 1
  have first := Date.daysBeforeYear_mono low
  have last := Date.daysBeforeYear_mono high
  rw [year] at first last
  unfold Date.firstSecond Date.endSecond daySeconds at *
  omega

theorem isShort_date : t.date.IsShort := by
  obtain ⟨-, month, -, day, -⟩ := Date.ofDays_spec (t.toInt / daySeconds + Date.epoch)
  have longest := Date.monthLength_le (Date.isLeap t.date.year) (t.date.month - 1)
  exact ⟨years, Nat.lt_of_le_of_lt month (by decide), Nat.lt_of_le_of_lt (Nat.le_trans day longest) (by decide)⟩

theorem isValid_date : t.date.isValid = true :=
  Date.isValid_ofDays (Int.le_trans (by decide) years.1) (Int.le_trans years.2 (by decide))

theorem print_of_years : t.print = t.date.print ++ ' ' :: printTimeOfDay t.secondOfDay := by
  rw [print]
  exact if_pos (within_calendar years)

/-- What is printed begins with three digits. -/
theorem print_first : ∃ a b c s, t.print = a :: b :: c :: s ∧ Decimal.isDigit a = true ∧ Decimal.isDigit b = true ∧
    Decimal.isDigit c = true := by
  have length := Date.length_padded (by decide) (isShort_date years).toNat_lt
  obtain ⟨a, b, c, e, shown⟩ := List.length_eq_four.1 length
  have digit : ∀ x ∈ [a, b, c, e], Decimal.isDigit x = true := fun x member => Date.isDigit_padded (shown ▸ member)
  rw [print_of_years years, Date.print_of_years years, shown]
  exact ⟨a, b, c, _, rfl, digit a (by simp), digit b (by simp), digit c (by simp)⟩

/-- Nothing is trimmed from what is printed, and no blanks are joined in it. -/
theorem print_words : Text.trimChars t.print = t.print ∧ Text.collapse t.print = t.print := by
  have solidDate := Date.solid_print years
  have solidClock := solid_printTimeOfDay t.secondOfDay
  have filled : t.date.print ≠ [] ∧ printTimeOfDay t.secondOfDay ≠ [] := by
    simp [Date.print, printTimeOfDay]
  rw [print_of_years years]
  exact ⟨Text.trimChars_words solidDate solidClock filled, Text.collapse_words solidDate solidClock filled⟩

end Timestamp

namespace TimeArgument

/-- The fields that a time is written with. -/
def fieldsOf (t : Timestamp) : TimeFields :=
  ⟨none, t.date.year, t.date.month, t.date.day, t.secondOfDay / 3600, t.secondOfDay / 60 % 60, t.secondOfDay % 60, 0⟩

theorem seconds_fieldsOf (t : Timestamp) : (fieldsOf t).seconds = t.toInt := by
  have clock : (fieldsOf t).secondOfDay = t.secondOfDay := by
    simp only [fieldsOf, TimeFields.secondOfDay]
    omega
  have date : (fieldsOf t).date = t.date := rfl
  have offset : (fieldsOf t).offset = 0 := rfl
  rw [TimeFields.seconds, date, clock, offset, Int.sub_zero, Timestamp.toInt_eq t]

section years

variable {t : Timestamp} (years : 0 ≤ t.date.year ∧ t.date.year ≤ 9999)

include years

theorem timestamp?_fieldsOf : (fieldsOf t).timestamp? = some t := by
  have seconds := Timestamp.secondOfDay_lt t
  have hour : (fieldsOf t).hour ≤ 23 := by
    simp only [fieldsOf]
    omega
  have minute : (fieldsOf t).minute ≤ 59 := by
    simp only [fieldsOf]
    omega
  have second : (fieldsOf t).second ≤ 60 := by
    simp only [fieldsOf]
    omega
  have offset : (fieldsOf t).offset.natAbs < 86400 := of_decide_eq_true rfl
  have weekday : (fieldsOf t).weekday.all (· == (fieldsOf t).date.weekday) = true := rfl
  have date : (fieldsOf t).date.isValid = true := Timestamp.isValid_date years
  obtain ⟨after, before⟩ := Timestamp.within_calendar years
  have valid : (fieldsOf t).isValid = true := by
    rw [TimeFields.isValid, seconds_fieldsOf, date, weekday]
    simp only [hour, minute, second, offset, after, before, decide_true, Bool.and_true]
  rw [TimeFields.timestamp?, if_pos valid, seconds_fieldsOf, Int64.ofInt_toInt]

theorem read_printed : TimeFormat.read (isoDate ++ timeOfDay) TimeFields.blank t.print = some (fieldsOf t, []) := by
  have date := read_isoDate (Timestamp.isShort_date years) TimeFields.blank
  have clock := read_timeOfDay (Timestamp.secondOfDay_lt t)
    { TimeFields.blank with year := t.date.year, month := t.date.month, day := t.date.day } []
  rw [List.append_nil] at clock
  rw [Timestamp.print_of_years years, read_append, date, Option.bind_some]
  exact clock

/-- The form that prints a time reads it, and there is no offset for the same form with an offset. -/
theorem calendar_printed : calendar? (isoDate ++ timeOfDay) t.print = some t := by
  have whole := read_printed years
  have noOffset : TimeFormat.read (zoned (isoDate ++ timeOfDay)) TimeFields.blank t.print = none := by
    rw [zoned, read_append, whole]
    rfl
  rw [calendar?, TimeFormat.timestamp?, TimeFormat.timestamp?, TimeReader.timestamp?, TimeReader.timestamp?, noOffset, whole]
  exact timestamp?_fieldsOf years

theorem verbatim_printed : verbatim? t.print = none := by
  have noInternet : TimeReader.internet t.print = none := by
    rw [Timestamp.print_of_years years]
    exact internet_printed (Timestamp.isShort_date years) (Timestamp.secondOfDay_lt t)
  obtain ⟨a, b, c, s, shown, first, second, third⟩ := Timestamp.print_first years
  have noMail := mail_of_digits first second third s
  rw [verbatim?, TimeReader.timestamp?, noInternet, shown, TimeReader.timestamp?, noMail]
  simp [namedZonedFormats, TimeFormat.timestamp?, TimeReader.timestamp?, read_weekdayName first,
    read_dayName first second third]

theorem collapsed_printed : collapsed? t.print = some t := by
  have found := calendar_printed years
  obtain ⟨a, b, c, s, shown, first, second, third⟩ := Timestamp.print_first years
  rw [shown] at found ⊢
  have pointed (format : TimeFormat) := calendar_pointed first second third format s
  have noName : namedFormat.timestamp? (a :: b :: c :: s) = none := by
    rw [TimeFormat.timestamp?, TimeReader.timestamp?, namedFormat, List.cons_append, List.cons_append,
      read_weekdayName first]
  have decided : (calendarFormats.findSome? fun f => calendar? f (a :: b :: c :: s)) = some t := by
    simp only [calendarFormats, List.findSome?, shortDate, longDate, List.cons_append, pointed, found]
  rw [collapsed?, noName, decided]
  rfl

end years

/-- A printed time of the years 0 to 9999 is an argument for this time, whatever the present is. -/
theorem read_text (t now : Timestamp) (years : 0 ≤ t.date.year ∧ t.date.year ≤ 9999) : read now t.text = .ok t := by
  obtain ⟨trimmed, collapsed⟩ := Timestamp.print_words years
  obtain ⟨a, b, c, s, shown, first, -, -⟩ := Timestamp.print_first years
  have mixed : t.print.all Decimal.isDigit = false := by
    simp [Timestamp.print_of_years years, show Decimal.isDigit ' ' = false by decide]
  have unsigned : a ≠ '-' := Decimal.ne_of_isDigit first (by decide)
  have found : (verbatim? t.print).or (collapsed? (Text.collapse t.print)) = some t := by
    rw [verbatim_printed years, collapsed, collapsed_printed years]
    rfl
  rw [read, Timestamp.text, String.toList_ofList, trimmed]
  rw [shown] at found mixed ⊢
  rw [ofTrimmed, mixed, if_neg (by decide), if_neg unsigned, found]

/-- The last second of the leap day of the year 0. -/
theorem read_text_leap_day :
    (0 ≤ (Timestamp.date (-62162035201)).year ∧ (Timestamp.date (-62162035201)).year ≤ 9999) ∧
      read 0 (Timestamp.text (-62162035201)) = .ok (-62162035201) :=
  ⟨by decide, read_text (-62162035201) 0 (by decide)⟩

end TimeArgument

end FlowArchive
