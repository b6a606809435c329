import FlowArchive.Proofs.CalendarForms

/-!
# Times with an offset

A date, with or without a time of day, that is written in one of the calendar forms is read, and with an offset behind
it the time is read that is earlier by the offset. The forms of the network standards refuse both texts, as they want a
letter, a blank or an offset where there is none.
-/

namespace FlowArchive

/-! ## Forms of the network standards and with names -/

namespace TimeReader

variable {a c : Char} {rest : List Char}

/-- No name begins with a character that is no letter. -/
theorem name_of_mark {names : List String}
    (apart : ∀ w ∈ names, w.toList.head?.any (fun x => Text.lowerAscii x != Text.lowerAscii c) = true)
    (rest : List Char) : name names (c :: rest) = none := by
  rw [name, Option.map_eq_none_iff, List.findIdx?_eq_none_iff]
  intro w listed
  obtain ⟨x, head, other⟩ := (Option.any_eq_true _ _).1 (apart w listed)
  obtain ⟨tail, spelled⟩ := List.head?_eq_some_iff.1 head
  have other : Text.lowerAscii x ≠ Text.lowerAscii c := by simpa using other
  simp [Text.sameAsciiLetters, spelled, other]

/-- The reader for protocols and logs, behind the date. -/
def internetClock (year month day : Nat) : TimeReader TimeFields := fun s => do
  let ((), s) ← dateTimeSeparator s
  let (hour, s) ← twoDigits s
  let ((), s) ← char ':' s
  let (minute, s) ← twoDigits s
  let ((), s) ← char ':' s
  let (second, s) ← twoDigits s
  let ((), s) ← fraction s
  let (offset, s) ← internetOffset s
  some (⟨none, year, month, day, hour, minute, second, offset⟩, s)

theorem internet_eq (s : List Char) : internet s = (do
    let ((year, _), s) ← number 4 4 s
    let ((), s) ← char '-' s
    let (month, s) ← twoDigits s
    let ((), s) ← char '-' s
    let (day, s) ← twoDigits s
    internetClock year month day s) := rfl

/-- No offset stands right behind a time of day. -/
theorem internetOffset_offsetChars (o : Option WrittenOffset) : internetOffset (offsetChars o) = none := by
  cases o <;> rfl

theorem fraction_offsetChars (o : Option WrittenOffset) : fraction (offsetChars o) = some ((), offsetChars o) := by
  cases o <;> rfl

theorem twoDigits_of_other (other : Decimal.isDigit c = false) (rest : List Char) : twoDigits (c :: rest) = none := by
  simp [twoDigits, number, other]

theorem internetClock_offsetChars (year month day : Nat) (o : Option WrittenOffset) :
    internetClock year month day (offsetChars o) = none := by
  cases o with
  | none => rfl
  | some p =>
    have noHour : twoDigits p.chars = none := twoDigits_of_other p.isDigit_sign _
    have separated : dateTimeSeparator (offsetChars (some p)) = some ((), p.chars) := rfl
    simp only [internetClock, separated, noHour, Option.bind_eq_bind, Option.bind_some, Option.bind_none]

/-- A time of day of one blank and two digits each is taken, but not what is behind it. -/
theorem internetClock_body (year month day : Nat) (k : WrittenClock) (o : Option WrittenOffset) :
    internetClock year month day (' ' :: (k.body ++ offsetChars o)) = none := by
  have colon (s : List Char) : NoDigit (':' :: s) := noDigit_cons rfl
  have noColon := WrittenClock.char_colon_offset o
  have separated (s : List Char) : dateTimeSeparator (' ' :: s) = some ((), s) := rfl
  simp only [internetClock, separated, WrittenClock.body, List.append_assoc, List.cons_append, Option.bind_eq_bind,
    Option.bind_some]
  rcases k.hour.twoDigits_digits (Nat.le_refl 2) (colon _) with refused | read
  · rw [refused, Option.bind_none]
  simp only [read, char_self, Option.bind_some]
  cases k.second with
  | none =>
    rcases k.minute.twoDigits_digits (Nat.le_refl 2) (noDigit_offsetChars o) with refused | read
    · simp only [Option.elim_none, List.nil_append, refused, Option.bind_none]
    · simp only [Option.elim_none, List.nil_append, read, noColon, Option.bind_some, Option.bind_none]
  | some n =>
    simp only [Option.elim_some, List.cons_append]
    rcases k.minute.twoDigits_digits (Nat.le_refl 2) (colon (n.digits ++ offsetChars o)) with refused | read
    · rw [refused, Option.bind_none]
    simp only [read, char_self, Option.bind_some]
    rcases n.twoDigits_digits (Nat.le_refl 2) (noDigit_offsetChars o) with refused | read
    · rw [refused, Option.bind_none]
    · simp only [read, fraction_offsetChars, internetOffset_offsetChars, Option.bind_some, Option.bind_none]

/-- Behind other blanks no time of day is taken. -/
theorem internetClock_chars (year month day : Nat) (k : WrittenClock) (o : Option WrittenOffset) :
    internetClock year month day (k.chars ++ offsetChars o) = none := by
  obtain ⟨c, gap, shown⟩ := List.exists_cons_of_ne_nil k.gap_ne_nil
  have blank : ∀ x ∈ c :: gap, Text.isBlank x = true := shown ▸ k.gap_blank
  rw [WrittenClock.chars, shown]
  by_cases space : c = ' '
  · cases space
    cases gap with
    | nil => simpa using internetClock_body year month day k o
    | cons x gap =>
      have other : Decimal.isDigit x = false := Decimal.isDigit_of_isBlank (blank x (by simp))
      have noHour := twoDigits_of_other other (gap ++ k.body ++ offsetChars o)
      have separated (s : List Char) : dateTimeSeparator (' ' :: s) = some ((), s) := rfl
      simp only [internetClock, separated, List.cons_append, noHour, Option.bind_eq_bind, Option.bind_some,
        Option.bind_none]
  · have mixed : dateTimeSeparator (c :: (gap ++ k.body ++ offsetChars o)) = none := by
      have front := blank c (by simp)
      unfold dateTimeSeparator
      split
      next same => cases same; cases front
      next same => cases same; cases front
      next same => cases same; exact absurd rfl space
      next => rfl
    simp only [internetClock, List.cons_append, mixed, Option.bind_eq_bind, Option.bind_none]

/-- A time of protocols and logs begins with a year, and an offset stands right behind its time of day. -/
theorem internet_date (d : WrittenDate) (stops : NoDigit rest)
    (refuses : ∀ year month day, internetClock year month day rest = none) : internet (d.chars ++ rest) = none := by
  cases d with
  | shortPoints day month year | longPoints day month year =>
    have tooShort (s : List Char) : number 4 4 (day.digits ++ '.' :: s) = none := by
      have short := day.le_most
      rw [day.number_digits 4 (by omega) (.inr (noDigit_cons rfl)), if_pos (by omega)]
    rw [internet_eq, WrittenDate.chars, List.append_assoc, List.cons_append, tooShort]
    rfl
  | hyphens year month day =>
    have hyphen (s : List Char) : NoDigit ('-' :: s) := noDigit_cons rfl
    have read := year.number_digits 4 year.le_most (.inr (hyphen (month.digits ++ '-' :: (day.digits ++ rest))))
    simp only [internet_eq, WrittenDate.chars, List.append_assoc, List.cons_append, read, Option.bind_eq_bind]
    split
    · rfl
    simp only [Option.bind_some, char_self]
    rcases month.twoDigits_digits (Nat.le_refl 2) (hyphen (day.digits ++ rest)) with refused | read
    · rw [refused, Option.bind_none]
    simp only [read, Option.bind_some, char_self]
    rcases day.twoDigits_digits (Nat.le_refl 2) stops with refused | read
    · rw [refused, Option.bind_none]
    · simp only [read, Option.bind_some, refuses]

/-- In mail a blank stands behind the day. -/
theorem mail_date (d : WrittenDate) (rest : List Char) : mail (d.chars ++ rest) = none := by
  obtain ⟨p, c, s, read, mark⟩ := d.exists_first rest
  have noName : mailWeekday (d.chars ++ rest) = some (none, d.chars ++ rest) := by
    obtain ⟨a, front, shown, digit⟩ := d.exists_cons
    rw [shown, List.cons_append, mailWeekday, weekdayName_of_digit digit]
  have solid : Text.isBlank c = false := by
    rcases mark with rfl | rfl | digit
    · rfl
    · rfl
    · exact Decimal.not_isBlank_of_isDigit digit
  have noBlank : blanks (c :: s) = none := by
    rw [blanks, solid]
    rfl
  rw [mail, d.trimStart_chars, noName, Option.bind_eq_bind, Option.bind_some]
  dsimp only
  rw [d.trimStart_chars, read, Option.bind_eq_bind, Option.bind_some]
  dsimp only
  rw [noBlank, Option.bind_eq_bind, Option.bind_none]

/-- Behind the first number of a date stands no name of a month. -/
theorem read_dayName_date (d : WrittenDate) (format : TimeFormat) (f : TimeFields) (rest : List Char) :
    TimeFormat.read (.day :: .blanks :: .monthName :: format) f (d.chars ++ rest) = none := by
  obtain ⟨p, c, s, read, mark⟩ := d.exists_first rest
  have noName : Text.trimStart (c :: s) = c :: s ∧ name monthNames (c :: s) = none := by
    rcases mark with rfl | rfl | digit
    · exact ⟨rfl, name_of_mark (by decide) s⟩
    · exact ⟨rfl, name_of_mark (by decide) s⟩
    · exact ⟨trimStart_of_digit digit s, monthName_of_digit digit s⟩
  simp [TimeFormat.read, TimePiece.read, TimePiece.short, d.trimStart_chars, read, noName]

end TimeReader

/-! ## Reading -/

namespace Text

theorem splitAtEach_ne_nil (sep : Char → Bool) (s : List Char) : splitAtEach sep s ≠ [] := by
  cases s with
  | nil => simp [splitAtEach]
  | cons c s =>
    rw [splitAtEach]
    split
    · exact List.cons_ne_nil _ _
    · split <;> exact List.cons_ne_nil _ _

variable {c : Char} {s w : List Char}

theorem wordsOf_blank (blank : isBlank c = true) : wordsOf (c :: s) = wordsOf s := by
  obtain ⟨part, parts, shown⟩ := List.exists_cons_of_ne_nil (splitAtEach_ne_nil isBlank s)
  rw [wordsOf, wordsOf, splitAtEach, shown]
  simp [blank]

theorem wordsOf_blanks {gap : List Char} (blank : ∀ c ∈ gap, isBlank c = true) : wordsOf (gap ++ s) = wordsOf s := by
  induction gap with
  | nil => rfl
  | cons c gap ih =>
    rw [List.cons_append, wordsOf_blank (blank c List.mem_cons_self),
      ih fun x member => blank x (List.mem_cons_of_mem c member)]

theorem splitAtEach_word {sep : Char → Bool} {part : List Char} {parts : List (List Char)}
    (others : ∀ c ∈ w, sep c = false) (shown : splitAtEach sep s = part :: parts) :
    splitAtEach sep (w ++ s) = (w ++ part) :: parts := by
  induction w with
  | nil => exact shown
  | cons c w ih =>
    rw [List.cons_append, splitAtEach, ih fun x member => others x (List.mem_cons_of_mem c member),
      others c List.mem_cons_self]
    rfl

/-- A word ends where a blank stands or the text ends. -/
theorem wordsOf_word (solid : ∀ c ∈ w, isBlank c = false) (filled : w ≠ []) (ends : ∀ c ∈ s.head?, isBlank c = true) :
    wordsOf (w ++ s) = w :: wordsOf s := by
  have fresh : ∃ parts, splitAtEach isBlank s = [] :: parts := by
    cases s with
    | nil => exact ⟨[], rfl⟩
    | cons c s =>
      obtain ⟨part, parts, shown⟩ := List.exists_cons_of_ne_nil (splitAtEach_ne_nil isBlank s)
      exact ⟨part :: parts, by rw [splitAtEach, shown, ends c rfl]; rfl⟩
  obtain ⟨parts, shown⟩ := fresh
  rw [wordsOf, wordsOf, splitAtEach_word solid shown, shown]
  simp [filled]

/-- The last character of a text is that of its last word. -/
theorem solid_last (solid : ∀ c ∈ w, isBlank c = false) (filled : w ≠ []) :
    ∀ c ∈ (s ++ w).getLast?, isBlank c = false := by
  intro c last
  rw [List.getLast?_append_of_ne_nil _ filled] at last
  exact solid c (List.mem_of_getLast? last)

end Text

namespace WrittenTime

open Text

variable (w : WrittenTime) (o : Option WrittenOffset)

/-- No word is empty. -/
theorem filled : w.date.chars ≠ [] ∧ ∀ k : WrittenClock, k.body ≠ [] := by
  obtain ⟨c, s, shown, -⟩ := w.date.exists_cons
  exact ⟨by simp [shown], fun k => by simp [WrittenClock.body]⟩

theorem collapse_chars : collapse (w.chars ++ offsetChars o) = w.spaced ++ offsetChars o := by
  have last : wordsOf (offsetChars o) = o.elim [] fun p => [p.chars] := by
    cases o with
    | none => rfl
    | some p =>
      have word := wordsOf_word (s := []) p.solid (List.cons_ne_nil _ _) (by simp)
      rw [List.append_nil] at word
      rw [offsetChars, Option.elim_some, wordsOf_blank rfl, word]
      rfl
  have blankOffset : ∀ c ∈ (offsetChars o).head?, isBlank c = true := by
    cases o <;> simp [offsetChars, show isBlank ' ' = true from rfl]
  cases clock : w.clock with
  | none =>
    have text : w.chars = w.date.chars ∧ w.spaced = w.date.chars := by simp [chars, spaced, clock]
    rw [text.1, text.2, collapse, wordsOf_word w.date.solid w.filled.1 blankOffset, last]
    cases o <;> simp [joinChars, offsetChars]
  | some k =>
    have text : w.chars ++ offsetChars o = w.date.chars ++ (k.gap ++ (k.body ++ offsetChars o)) := by
      simp [chars, clock, WrittenClock.chars]
    have blankGap : ∀ c ∈ (k.gap ++ (k.body ++ offsetChars o)).head?, isBlank c = true := by
      intro c first
      rw [List.head?_append_of_ne_nil _ k.gap_ne_nil] at first
      exact k.gap_blank c (List.mem_of_head? first)
    rw [text, collapse, wordsOf_word w.date.solid w.filled.1 blankGap, wordsOf_blanks k.gap_blank,
      wordsOf_word k.solid (w.filled.2 k) blankOffset, last]
    cases o <;> simp [joinChars, offsetChars, spaced, clock]

theorem trimChars_chars : trimChars (w.chars ++ offsetChars o) = w.chars ++ offsetChars o := by
  refine trimChars_of_solid (fun c first => ?_) ?_
  · rw [chars, List.append_assoc, List.head?_append_of_ne_nil _ w.filled.1] at first
    exact w.date.solid c (List.mem_of_head? first)
  · cases o with
    | some p =>
      have text : w.chars ++ offsetChars (some p) = (w.chars ++ [' ']) ++ p.chars := by simp [offsetChars]
      rw [text]
      exact solid_last p.solid (List.cons_ne_nil _ _)
    | none =>
      cases clock : w.clock with
      | none =>
        have text : w.chars ++ offsetChars none = [] ++ w.date.chars := by simp [offsetChars, chars, clock]
        rw [text]
        exact solid_last w.date.solid w.filled.1
      | some k =>
        have text : w.chars ++ offsetChars none = (w.date.chars ++ k.gap) ++ k.body := by
          simp [offsetChars, chars, clock, WrittenClock.chars]
        rw [text]
        exact solid_last k.solid (w.filled.2 k)

/-- No form of the network standards and none with names reads a written time. -/
theorem verbatim_chars : TimeArgument.verbatim? (w.chars ++ offsetChars o) = none := by
  have noInternet : TimeReader.internet (w.chars ++ offsetChars o) = none := by
    rw [chars, List.append_assoc]
    cases clock : w.clock with
    | none =>
      have stops := noDigit_offsetChars o
      exact TimeReader.internet_date w.date stops fun _ _ _ => TimeReader.internetClock_offsetChars _ _ _ o
    | some k =>
      have stops : NoDigit (k.chars ++ offsetChars o) := by
        intro c first
        rw [WrittenClock.chars, List.append_assoc, List.head?_append_of_ne_nil _ k.gap_ne_nil] at first
        exact Decimal.isDigit_of_isBlank (k.gap_blank c (List.mem_of_head? first))
      exact TimeReader.internet_date w.date stops fun _ _ _ => TimeReader.internetClock_chars _ _ _ k o
  have noMail : TimeReader.mail (w.chars ++ offsetChars o) = none := by
    rw [chars, List.append_assoc]
    exact TimeReader.mail_date w.date _
  have noWeekday (format : TimeFormat) :
      TimeFormat.timestamp? (.weekdayName :: format) (w.chars ++ offsetChars o) = none := by
    obtain ⟨c, s, shown, digit⟩ := w.date.exists_cons
    refine TimeArgument.timestamp?_of_none ?_
    rw [chars, shown]
    exact TimeArgument.read_weekdayName digit _ _ _
  have noMonth (format : TimeFormat) :
      TimeFormat.timestamp? (.day :: .blanks :: .monthName :: format) (w.chars ++ offsetChars o) = none := by
    refine TimeArgument.timestamp?_of_none ?_
    rw [chars, List.append_assoc]
    exact TimeReader.read_dayName_date w.date _ _ _
  rw [TimeArgument.verbatim?, TimeReader.timestamp?, TimeReader.timestamp?, noInternet, noMail]
  simp [TimeArgument.namedZonedFormats, noWeekday, noMonth]

end WrittenTime

/-! ## Which time it is -/

namespace WrittenTime

variable (w : WrittenTime) (o : Option WrittenOffset)

/-- The fields of a written time, in Universal Time. -/
def fields : TimeFields := w.date.fields w.clock

/-- The seconds since the start of 1970, with the written time taken to be in Universal Time. -/
def seconds : Int := w.fields.seconds

/-- The calendar covers what lies within a day of a written time. -/
theorem within_calendar {shift : Int} (small : shift.natAbs < 86400) :
    Date.firstSecond ≤ w.seconds - shift ∧ w.seconds - shift < Date.endSecond := by
  obtain ⟨hour, minute, second⟩ := w.date.clock_le w.clock
  have days := Date.toDays_bounds w.exists_date w.date.years
  have same : w.seconds = (w.date.date.toDays - Date.epoch) * 86400 + w.fields.secondOfDay - 0 := rfl
  have clock : w.fields.secondOfDay < 86400 := by
    unfold TimeFields.secondOfDay fields
    omega
  unfold Date.firstSecond Date.endSecond Timestamp.daySeconds Date.firstYear Date.lastYear Date.daysBeforeYear at *
  omega

/-- A written time exists, and so does the time that an offset shifts it to. -/
theorem exists_timestamp : ∃ t : Timestamp, (TimeArgument.withOffset w.fields o).timestamp? = some t ∧
    t.toInt = w.seconds - o.elim 0 WrittenOffset.seconds := by
  have shifted : (TimeArgument.withOffset w.fields o).seconds = w.seconds - o.elim 0 WrittenOffset.seconds := by
    have plain : w.fields.offset = 0 := rfl
    cases o <;> simp [TimeArgument.withOffset, seconds, TimeFields.seconds, plain] <;> rfl
  have small : (o.elim 0 WrittenOffset.seconds).natAbs < 86400 := by
    cases o with
    | none => decide
    | some p => exact p.natAbs_seconds_lt
  obtain ⟨hour, minute, second⟩ := w.date.clock_le w.clock
  have covered := w.within_calendar small
  have valid : (TimeArgument.withOffset w.fields o).isValid = true := by
    have date : (TimeArgument.withOffset w.fields o).date.isValid = true := w.exists_date
    have weekday : (TimeArgument.withOffset w.fields o).weekday = none := rfl
    have hour : (TimeArgument.withOffset w.fields o).hour ≤ 23 := hour
    have minute : (TimeArgument.withOffset w.fields o).minute ≤ 59 := minute
    have second : (TimeArgument.withOffset w.fields o).second ≤ 60 := second
    have offset : (TimeArgument.withOffset w.fields o).offset.natAbs < 86400 := small
    rw [TimeFields.isValid, shifted, date, weekday]
    simp only [hour, minute, second, offset, covered, decide_true, Bool.and_true, Option.all_none]
  refine ⟨Int64.ofInt (w.seconds - o.elim 0 WrittenOffset.seconds), ?_, ?_⟩
  · rw [TimeFields.timestamp?, if_pos valid, shifted]
  · have ends : -2 ^ 63 ≤ Date.firstSecond ∧ Date.endSecond ≤ 2 ^ 63 := by decide
    exact Int64.toInt_ofInt_of_le (by omega) (by omega)

/-- A written time is read, with an offset or without. -/
theorem exists_read (now : Timestamp) : ∃ t : Timestamp,
    TimeArgument.read now (String.ofList (w.chars ++ offsetChars o)) = .ok t ∧
      t.toInt = w.seconds - o.elim 0 WrittenOffset.seconds := by
  obtain ⟨t, found, same⟩ := w.exists_timestamp o
  refine ⟨t, ?_, same⟩
  have decided : (TimeArgument.verbatim? (w.chars ++ offsetChars o)).or
      (TimeArgument.collapsed? (Text.collapse (w.chars ++ offsetChars o))) = some t := by
    rw [w.verbatim_chars o, w.collapse_chars o, w.collapsed_spaced o found]
    rfl
  have mixed : (w.chars ++ offsetChars o).all Decimal.isDigit = false := by
    obtain ⟨c, member, mark⟩ := w.date.exists_mark
    exact List.all_eq_false.2 ⟨c, by simp [chars, member], by simp [mark]⟩
  obtain ⟨a, s, shown, digit⟩ := w.date.exists_cons
  have unsigned : a ≠ '-' := Decimal.ne_of_isDigit digit (by decide)
  rw [TimeArgument.read, String.toList_ofList, w.trimChars_chars o]
  rw [chars, shown] at decided mixed ⊢
  rw [List.cons_append, List.cons_append] at decided mixed ⊢
  rw [TimeArgument.ofTrimmed, mixed, if_neg (by decide), if_neg unsigned, decided]

end WrittenTime

namespace TimeArgument

/-- An offset only shifts: a time that is written in one of the calendar forms, as a date alone or with a time of day,
is read, and with a space and an offset behind it the time is read that is earlier by the offset. -/
theorem read_shifted (w : WrittenTime) (p : WrittenOffset) (now : Timestamp) : ∃ t u : Timestamp,
    read now (String.ofList w.chars) = .ok t ∧ t.toInt = w.seconds ∧
      read now (String.ofList w.chars ++ " " ++ String.ofList p.chars) = .ok u ∧ u.toInt = t.toInt - p.seconds := by
  obtain ⟨t, plain, same⟩ := w.exists_read none now
  obtain ⟨u, shifted, earlier⟩ := w.exists_read (some p) now
  simp only [offsetChars, Option.elim_none, List.append_nil, Int.sub_zero] at plain same
  have text : String.ofList w.chars ++ " " ++ String.ofList p.chars = String.ofList (w.chars ++ ' ' :: p.chars) := by
    simp [← String.toList_inj]
  exact ⟨t, u, plain, same, text ▸ shifted, by rw [same]; exact earlier⟩

/-- The first midnight of February 2006. -/
def sampleTime : WrittenTime where
  date := .shortPoints (.ofDigits ['1']) (.ofDigits ['2']) (.ofDigits ['0', '6'])
  clock := some WrittenDate.midnight
  exists_date := by decide

def sampleOffset : WrittenOffset where
  ahead := true
  hours := .ofDigits ['0', '1']
  minutes := .ofDigits ['3', '0']
  hours_lt := by decide
  minutes_lt := by decide

theorem read_shifted_sample :
    read 0 "1.2.06 00:00" = .ok 1138752000 ∧ read 0 "1.2.06 00:00 +0130" = .ok 1138746600 := by
  obtain ⟨t, u, plain, same, shifted, earlier⟩ := read_shifted sampleTime sampleOffset 0
  have seconds : sampleTime.seconds = 1138752000 ∧ sampleOffset.seconds = 5400 := by decide +kernel
  rw [seconds.1] at same
  rw [same, seconds.2] at earlier
  obtain rfl : t = 1138752000 := Int64.toInt_inj.1 same
  obtain rfl : u = 1138746600 := Int64.toInt_inj.1 earlier
  exact ⟨plain, shifted⟩

end TimeArgument

end FlowArchive
